import ShaderBytecode.Operand.Encoder
import ShaderBytecode.Instruction.Basic

set_option autoImplicit false

/-! # Writing instructions

An instruction is written as its first token, whose length field counts all of its tokens, and a body.
The body is computed first; the only instructions that are refused are those with an operand that has
no token form or cannot stand where it does, and resources with more than one sample. -/

namespace ShaderBytecode

namespace Operand

/-- Refuse an operand of any other kind. -/
def checkKind (expected : OperandKind) (op : Operand) : Except EmitError Unit :=
  if op.kind = expected then .ok () else .error (.unexpectedOperandKind expected op.kind)

end Operand

namespace Instruction

/-- Four return types in the given fields of a token. -/
def placeReturnTypes (token : UInt32) (fields : Lanes BitRange) (types : Lanes ReturnType) :
    UInt32 :=
  BitRange.fill token (fields.zip (types.map Coded.code)).toList

/-- The extension token that carries the resource dimension and announces another. -/
def dimensionExtension (dimension : ResourceDimension) : UInt32 :=
  BitRange.fill 0 [(ExtensionToken.kind, ExtensionToken.resourceDimensionKind),
    (ExtensionToken.resourceDimension, Coded.code dimension), (ExtensionToken.continues, 1)]

/-- The extension token that carries the return types. -/
def returnTypesExtension (types : Lanes ReturnType) : UInt32 :=
  placeReturnTypes (ExtensionToken.kind.place ExtensionToken.returnTypesKind)
    ExtensionToken.returnTypes types

/-- The fields of the first token other than opcode and length. -/
def headFields : Instruction → List (BitRange × UInt32)
  | .dclConstantBuffer _ _ .dynamicIndexed => [(OpcodeToken.dynamicAccess, 1)]
  | .dclConstantBuffer _ _ .immediateIndexed => [(OpcodeToken.dynamicAccess, 0)]
  | .dclSampler _ mode => [(OpcodeToken.samplerMode, Coded.code mode)]
  | .dclResource _ dimension sampleCount _ =>
      [(OpcodeToken.resourceDimension, Coded.code dimension),
        (OpcodeToken.sampleCount, sampleCount)]
  | .sampleL .. => [(OpcodeToken.extended, 1)]
  | _ => []

/-- The first token of an instruction that is `length` tokens long. Global flags are kept at their
    places in this token; bits that no flag is defined for are dropped. -/
def headToken (inst : Instruction) (length : Nat) : UInt32 :=
  let base := match inst with
    | .dclGlobalFlags flags => Coded.code inst.opcode ||| flags.truncate.bits
    | _ => Coded.code inst.opcode
  BitRange.fill base (inst.headFields ++ [(OpcodeToken.length, UInt32.ofNat length)])

/-- The tokens after the first. -/
def encodeBody : Instruction → Except EmitError (List UInt32)
  | .dclGlobalFlags _ | .ret => return []
  | .dclInput operand | .dclOutput operand => operand.encode
  | .dclOutputSiv operand name =>
      return (← operand.encode) ++ [DeclarationToken.systemValue.place (Coded.code name)]
  | .dclTemps count => return [count]
  | .dclConstantBuffer slot size _ => (Operand.constantBuffer slot size).encode
  | .dclSampler slot _ => (Operand.sampler slot).encode
  | .dclResource slot _ sampleCount returnTypes => do
      if sampleCount > 1 then
        throw (.badSampleCount sampleCount)
      return (← (Operand.resource slot).encode)
        ++ [placeReturnTypes 0 DeclarationToken.returnTypes returnTypes]
  | .mov dst src => return (← dst.encodeDestination) ++ (← src.encode)
  | .add dst a b | .mul dst a b =>
      return (← dst.encodeDestination) ++ (← a.encode) ++ (← b.encode)
  | .mad dst a b c =>
      return (← dst.encodeDestination) ++ (← a.encode) ++ (← b.encode) ++ (← c.encode)
  | .sampleL dimension returnTypes dst coord texture sampler lod => do
      texture.checkKind .resource
      sampler.checkKind .sampler
      return [dimensionExtension dimension, returnTypesExtension returnTypes]
        ++ (← dst.encodeDestination) ++ (← coord.encode) ++ (← texture.encode)
        ++ (← sampler.encode) ++ (← lod.encode)

/-- The instruction's tokens, or why it has none. -/
def encode (inst : Instruction) : Except EmitError (List UInt32) := do
  let body ← inst.encodeBody
  let length := 1 + body.length
  if length > OpcodeToken.maxLength then
    throw (.instructionTooLong inst.opcode length)
  return inst.headToken length :: body

/-- Append the instruction to a token buffer. -/
def emit (inst : Instruction) : Emitter Unit := Emitter.append inst.encode

end Instruction

end ShaderBytecode
