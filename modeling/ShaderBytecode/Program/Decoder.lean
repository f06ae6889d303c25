import ShaderBytecode.Program.Basic
import ShaderBytecode.Instruction.Decoder

set_option autoImplicit false

/-! # Reading programs

The instructions of a program follow each other from the third token to the declared length. Reading
stops at the first fault: nothing tells where an instruction that is not understood ends. -/

namespace ShaderBytecode

namespace Instruction

/-- Read instructions until no token is left, at most `n` of them. An instruction takes at least one
    token, so as many as there are tokens always suffice. -/
def decodeUpTo : Nat → Decoder (List Instruction)
  | 0 => return []
  | n + 1 => do
      if (← get).isAtEnd then
        return []
      let inst ← decode
      return inst :: (← decodeUpTo n)

/-- Read instructions until no token is left. -/
def decodeAll : Decoder (List Instruction) := do decodeUpTo (← get).remaining

end Instruction

namespace TokenProgram

/-- The instructions of a program. -/
def decode (p : TokenProgram) : Except DecodeError Program :=
  if p.declaredLength < 2 ∨ p.declaredLength > p.tokens.length then
    .error ⟨1, .badDeclaredLength p.declaredLength p.tokens.length⟩
  else
    match Instruction.decodeAll.run (TokenCursor.ofTokens p.declaredTokens 2) with
    | .ok instructions _ => .ok ⟨p.stage, p.model, instructions⟩
    | .error e _ => .error e

end TokenProgram

end ShaderBytecode
