import ShaderBytecode.Opcode
import ShaderBytecode.Operand.Basic
import ShaderBytecode.Instruction.Attributes

set_option autoImplicit false

/-! # Instructions

The fourteen shapes of instruction that can be read and written: eight declarations, five
computations, and the return. -/

namespace ShaderBytecode

/-- One instruction of a shader program. -/
inductive Instruction where
  | dclGlobalFlags (flags : GlobalFlags)
  | dclInput (operand : Operand)
  | dclOutput (operand : Operand)
  /-- An output register that feeds a system value. -/
  | dclOutputSiv (operand : Operand) (name : SystemValue)
  /-- How many temporary registers the program uses. -/
  | dclTemps (count : UInt32)
  /-- A constant buffer; its size is the second index as written. -/
  | dclConstantBuffer (slot size : UInt32) (access : ConstantAccess)
  | dclSampler (slot : UInt32) (mode : SamplerMode)
  | dclResource (slot : UInt32) (dimension : ResourceDimension) (sampleCount : UInt32)
      (returnTypes : Lanes ReturnType)
  | mov (dst src : Operand)
  | add (dst a b : Operand)
  | mul (dst a b : Operand)
  /-- `dst = a * b + c` -/
  | mad (dst a b c : Operand)
  /-- Sample a resource at an explicit level of detail. Its dimension and return types are written
      into the instruction too. -/
  | sampleL (dimension : ResourceDimension) (returnTypes : Lanes ReturnType)
      (dst coord texture sampler lod : Operand)
  | ret
  deriving DecidableEq, Repr

namespace Instruction

def opcode : Instruction → Opcode
  | .dclGlobalFlags .. => .dclGlobalFlags
  | .dclInput .. => .dclInput
  | .dclOutput .. => .dclOutput
  | .dclOutputSiv .. => .dclOutputSiv
  | .dclTemps .. => .dclTemps
  | .dclConstantBuffer .. => .dclConstantBuffer
  | .dclSampler .. => .dclSampler
  | .dclResource .. => .dclResource
  | .mov .. => .mov
  | .add .. => .add
  | .mul .. => .mul
  | .mad .. => .mad
  | .sampleL .. => .sampleL
  | .ret => .ret

def isDeclaration (inst : Instruction) : Bool := inst.opcode.isDeclaration

/-- The operands of an instruction in the order in which they are written. Declarations of slots
    have none: their operand is made from the slot. -/
def operands : Instruction → List Operand
  | .dclInput operand | .dclOutput operand | .dclOutputSiv operand _ => [operand]
  | .mov dst src => [dst, src]
  | .add dst a b | .mul dst a b => [dst, a, b]
  | .mad dst a b c => [dst, a, b, c]
  | .sampleL _ _ dst coord texture sampler lod => [dst, coord, texture, sampler, lod]
  | _ => []

/-- The instruction with the bits dropped that no flag is defined for. -/
def truncateFlags : Instruction → Instruction
  | .dclGlobalFlags flags => .dclGlobalFlags flags.truncate
  | inst => inst

end Instruction

end ShaderBytecode
