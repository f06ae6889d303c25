import ShaderBytecode.Program.Basic
import ShaderBytecode.Instruction.Encoder

set_option autoImplicit false

/-! # Writing programs

A program is written as its version, its length in tokens, and its instructions one after another. -/

namespace ShaderBytecode

namespace Program

/-- The program's tokens, or why it has none. -/
def encode (p : Program) : Except EmitError (List UInt32) := do
  let version ← ShaderVersion.encode ⟨p.stage, p.model⟩
  let body ← p.instructions.mapM (·.encode)
  return version :: UInt32.ofNat (2 + body.flatten.length) :: body.flatten

/-- The program's tokens as they are stored in a container. -/
def encodeBytes (p : Program) : Except EmitError (List UInt8) :=
  return LittleEndian.ofWords (← p.encode)

end Program

end ShaderBytecode
