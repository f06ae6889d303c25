import ShaderBytecode.Bytes.LittleEndian
import ShaderBytecode.Program.Version
import ShaderBytecode.Instruction.Basic

set_option autoImplicit false

/-! # Programs and their frames

A program's tokens begin with the version and the program's own length. A `TokenProgram` is such a
token sequence with the version read off; tokens beyond the declared length are carried along and
mean nothing. A `Program` is what the tokens say. -/

namespace ShaderBytecode

/-- A program as instructions. -/
structure Program where
  stage : ShaderStage
  model : ShaderModel
  instructions : List Instruction
  deriving DecidableEq, Repr

/-- A program as tokens. -/
structure TokenProgram where
  stage : ShaderStage
  model : ShaderModel
  /-- All tokens, with version and length. -/
  tokens : List UInt32
  deriving DecidableEq, Repr

/-- Why bytes are not the tokens of a program. -/
inductive FramingError where
  | misaligned (length : Nat)
  | tooShort (tokens : Nat)
  | badDeclaredLength (declared available : Nat)
  deriving DecidableEq, Repr

def FramingError.message : FramingError → String
  | .misaligned length => s!"shader bytecode length {length} is not a multiple of 4"
  | .tooShort tokens => s!"shader bytecode too short ({tokens} dwords)"
  | .badDeclaredLength declared available =>
      s!"shader bytecode declares {declared} dwords but only {available} provided"

namespace TokenProgram

/-- The program with the given tokens; an absent version token counts as zero. -/
def ofTokens (tokens : List UInt32) : TokenProgram :=
  let version := ShaderVersion.decode (tokens.head?.getD 0)
  ⟨version.stage, version.model, tokens⟩

/-- The length that the second token declares. -/
def declaredLength (p : TokenProgram) : Nat := (p.tokens[1]?.getD 0).toNat

/-- The tokens that the declared length covers. -/
def declaredTokens (p : TokenProgram) : List UInt32 := p.tokens.take p.declaredLength

/-- Read the tokens of a program from bytes. The declared length must cover the two tokens it stands
    in and must not reach beyond the bytes. -/
def ofBytes (bytes : List UInt8) : Except FramingError TokenProgram :=
  if bytes.length % 4 ≠ 0 then
    .error (.misaligned bytes.length)
  else
    let p := ofTokens (LittleEndian.toWords bytes)
    if p.tokens.length < 2 then
      .error (.tooShort p.tokens.length)
    else if p.declaredLength < 2 ∨ p.declaredLength > p.tokens.length then
      .error (.badDeclaredLength p.declaredLength p.tokens.length)
    else
      .ok p

end TokenProgram

end ShaderBytecode
