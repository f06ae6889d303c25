import ShaderBytecode.Container.Writer
import ShaderBytecode.Program.Encoder
import ShaderBytecode.Signature.Writer

set_option autoImplicit false

/-! # The passthrough shader

The smallest useful vertex shader of shader model 5.0: it hands its only input on as the position. -/

namespace ShaderBytecode.Passthrough

/-- Declare the input and the output, move the one into the other and return. -/
def program : Program where
  stage := .vertex
  model := ⟨5, 0⟩
  instructions := [
    .dclGlobalFlags ⟨GlobalFlags.refactoringAllowed⟩,
    .dclInput (.register .input 0 .fullMask),
    .dclOutputSiv (.register .output 0 .fullMask) .position,
    .mov (.register .output 0 .fullMask) (.register .input 0 .identity),
    .ret]

/-- One input of four components. -/
def inputs : Signature := [.plain "POSITION" 0 0 0xF]

/-- The position, all of it written. -/
def outputs : Signature :=
  [{ SignatureElement.plain "SV_Position" 0 0 0xF with
      systemValue := Coded.code SystemValue.position
      usageMask := 0 }]

/-- The container with both signatures and the program. -/
def container : Except EmitError (List UInt8) := do
  let code ← program.encodeBytes
  return Container.toBytes [⟨.isgn, inputs.toBytes⟩, ⟨.osgn, outputs.toBytes⟩, ⟨.shex, code⟩]

end ShaderBytecode.Passthrough
