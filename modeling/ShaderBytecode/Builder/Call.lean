import ShaderBytecode.Builder.Basic

set_option autoImplicit false

/-! # Building step by step

Every way of changing a `ProgramBuilder` as a value, so that whole sequences of steps can be run and
talked about. -/

namespace ShaderBytecode

namespace ProgramBuilder

/-- One step of building with its arguments. -/
inductive Call where
  | allocTemp
  | dclGlobalFlags (flags : GlobalFlags)
  | dclInput (index : UInt32) (mask : UInt8)
  | dclOutput (index : UInt32) (mask : UInt8)
  | dclOutputSiv (index : UInt32) (mask : UInt8) (name : SystemValue)
  | dclTemps (count : UInt32)
  | dclConstantBuffer (slot size : UInt32) (access : ConstantAccess)
  | dclSampler (slot : UInt32) (mode : SamplerMode)
  | dclResource (slot : UInt32) (dimension : ResourceDimension) (type : ReturnType)
  | mov (dst src : Operand)
  | add (dst a b : Operand)
  | mul (dst a b : Operand)
  | mad (dst a b c : Operand)
  | sampleL (dst coord : Operand) (texture sampler : UInt32) (lod : Operand)
  | ret
  deriving DecidableEq, Repr

namespace Call

/-- A step that returns no register. -/
def unnumbered (step : Building Unit) : Building (Option UInt32) := do
  step
  return none

/-- Perform a step. Only the reservation of a register returns something, namely its number. -/
def perform : Call → Building (Option UInt32)
  | .allocTemp => return some (← ProgramBuilder.allocTemp)
  | .dclGlobalFlags flags => unnumbered (ProgramBuilder.dclGlobalFlags flags)
  | .dclInput index mask => unnumbered (ProgramBuilder.dclInput index mask)
  | .dclOutput index mask => unnumbered (ProgramBuilder.dclOutput index mask)
  | .dclOutputSiv index mask name => unnumbered (ProgramBuilder.dclOutputSiv index mask name)
  | .dclTemps count => unnumbered (ProgramBuilder.dclTemps count)
  | .dclConstantBuffer slot size access =>
      unnumbered (ProgramBuilder.dclConstantBuffer slot size access)
  | .dclSampler slot mode => unnumbered (ProgramBuilder.dclSampler slot mode)
  | .dclResource slot dimension type => unnumbered (ProgramBuilder.dclResource slot dimension type)
  | .mov dst src => unnumbered (ProgramBuilder.mov dst src)
  | .add dst a b => unnumbered (ProgramBuilder.add dst a b)
  | .mul dst a b => unnumbered (ProgramBuilder.mul dst a b)
  | .mad dst a b c => unnumbered (ProgramBuilder.mad dst a b c)
  | .sampleL dst coord texture sampler lod =>
      unnumbered (ProgramBuilder.sampleL dst coord texture sampler lod)
  | .ret => unnumbered ProgramBuilder.ret

end Call

/-- The builder after a step, whether or not the step succeeded. -/
def after (b : ProgramBuilder) (call : Call) : ProgramBuilder :=
  match call.perform.run b with
  | .ok _ b' => b'
  | .error _ b' => b'

/-- The builder after several steps. Steps that fail do not end the sequence. -/
def afterAll (b : ProgramBuilder) (calls : List Call) : ProgramBuilder := calls.foldl after b

end ProgramBuilder

end ShaderBytecode
