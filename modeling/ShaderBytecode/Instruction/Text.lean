import ShaderBytecode.Operand.Text
import ShaderBytecode.Instruction.Basic

set_option autoImplicit false

/-! # Instructions as assembly text -/

namespace ShaderBytecode

namespace Instruction

/-- A mnemonic and its operands, separated by commas. -/
def operandText (mnemonic : String) (operands : List Operand) : String :=
  mnemonic ++ " " ++ ", ".intercalate (operands.map (·.text))

/-- The instruction in assembly text. -/
def text (inst : Instruction) : String :=
  let name := inst.opcode.mnemonic
  match inst with
  | .dclGlobalFlags flags => s!"{name} {flags.text}"
  | .dclInput operand | .dclOutput operand => s!"{name} {operand.text}"
  | .dclOutputSiv operand value => s!"{name} {operand.text}, {value.name}"
  | .dclTemps count => s!"{name} {count}"
  | .dclConstantBuffer slot size access => s!"{name} cb{slot}[{size}], {access.name}"
  | .dclSampler slot mode => s!"{name} s{slot}, mode_{mode.name}"
  | .dclResource slot dimension sampleCount types =>
      let names := ",".intercalate (types.toList.map (·.name))
      let samples := if sampleCount > 0 then s!", samples={sampleCount}" else ""
      s!"{name}_{dimension.name} ({names}) t{slot}{samples}"
  | .mov dst src => operandText name [dst, src]
  | .add dst a b | .mul dst a b => operandText name [dst, a, b]
  | .mad dst a b c => operandText name [dst, a, b, c]
  | .sampleL dimension _ dst coord texture sampler lod =>
      operandText s!"{name}_indexable({dimension.name})" [dst, coord, texture, sampler, lod]
  | .ret => name

end Instruction

end ShaderBytecode
