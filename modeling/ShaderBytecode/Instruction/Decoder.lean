import ShaderBytecode.Operand.Decoder
import ShaderBytecode.Instruction.Basic

set_option autoImplicit false

/-! # Reading instructions

An instruction starts with a token that tells its opcode and its length in tokens. What follows
depends on the opcode alone; the length is compared with what was read at the end, so a length field
that lies is always noticed. Faults of the first token are reported at that token. -/

namespace ShaderBytecode

namespace Operand

/-- Read a destination, which cannot be an immediate. -/
def decodeDestination : Decoder Operand := do
  let start ← Decoder.position
  let op ← decode
  if op.isImmediate then
    Decoder.failAt start .immediateDestination
  return op

/-- Read an operand of the given kind. -/
def decodeOfKind (expected : OperandKind) : Decoder Operand := do
  let start ← Decoder.position
  let op ← decode
  if op.kind ≠ expected then
    Decoder.failAt start (.unexpectedOperandKind expected op.kind)
  return op

/-- Read the operand of a declaration of one slot: of the given kind, with one 32-bit index. -/
def decodeSlot (expected : OperandKind) : Decoder UInt32 := do
  let start ← Decoder.position
  match (← decodeOfKind expected).indices with
  | [.imm32 slot] => return slot
  | [.imm64 _] => Decoder.failAt start (.unsupportedIndexForm 1)
  | indices => Decoder.failAt start (.unexpectedIndexCount 1 indices.length)

/-- Read the operand of a declaration with a slot and a size: of the given kind, with two 32-bit
    indices. -/
def decodeSlotAndSize (expected : OperandKind) : Decoder (UInt32 × UInt32) := do
  let start ← Decoder.position
  match (← decodeOfKind expected).indices with
  | [.imm32 slot, .imm32 size] => return (slot, size)
  | [_, _] => Decoder.failAt start (.unsupportedIndexForm 1)
  | indices => Decoder.failAt start (.unexpectedIndexCount 2 indices.length)

end Operand

namespace Instruction

/-- The member of an enumeration with the given number, which was found at `position`. -/
def decodeMember {α : Type} [Coded α] (field : EnumeratedField) (position : Nat)
    (value : UInt32) : Decoder α :=
  match Coded.ofCode? value with
  | some member => return member
  | none => Decoder.failAt position (.unknownValue field value)

/-- Read a token with four return types at the given fields. -/
def decodeReturnTypes (fields : Lanes BitRange) (position : Nat) (token : UInt32) :
    Decoder (Lanes ReturnType) :=
  fields.mapM fun field => decodeMember .returnType position (field.get token)

/-- Read the extension token that carries the resource dimension. Another must follow it. -/
def decodeDimensionExtension : Decoder ResourceDimension := do
  let position ← Decoder.position
  let token ← Decoder.token
  if ExtensionToken.kind.get token ≠ ExtensionToken.resourceDimensionKind then
    Decoder.failAt position (.badExtension .dimensionExpected)
  if ExtensionToken.continues.get token = 0 then
    Decoder.failAt position (.badExtension .returnTypesMissing)
  decodeMember .resourceDimension position (ExtensionToken.resourceDimension.get token)

/-- Read the extension token that carries the return types. None may follow it. -/
def decodeReturnTypesExtension : Decoder (Lanes ReturnType) := do
  let position ← Decoder.position
  let token ← Decoder.token
  if ExtensionToken.kind.get token ≠ ExtensionToken.returnTypesKind then
    Decoder.failAt position (.badExtension .returnTypesExpected)
  if ExtensionToken.continues.get token ≠ 0 then
    Decoder.failAt position (.badExtension .tooMany)
  decodeReturnTypes ExtensionToken.returnTypes position token

/-- Read what follows the first token of an instruction; `start` is that token's place. -/
def decodeBody (start : Nat) (token : UInt32) (opcode : Opcode) : Decoder Instruction := do
  match opcode with
  | .dclGlobalFlags => return .dclGlobalFlags (GlobalFlags.truncate ⟨token⟩)
  | .dclInput => return .dclInput (← Operand.decode)
  | .dclOutput => return .dclOutput (← Operand.decode)
  | .dclOutputSiv =>
      let operand ← Operand.decode
      let position ← Decoder.position
      let name ← decodeMember .systemValue position
        (DeclarationToken.systemValue.get (← Decoder.token))
      return .dclOutputSiv operand name
  | .dclTemps => return .dclTemps (← Decoder.token)
  | .dclConstantBuffer =>
      let access := if OpcodeToken.dynamicAccess.get token ≠ 0 then
          ConstantAccess.dynamicIndexed
        else
          ConstantAccess.immediateIndexed
      let (slot, size) ← Operand.decodeSlotAndSize .constantBuffer
      return .dclConstantBuffer slot size access
  | .dclSampler =>
      let mode ← decodeMember .samplerMode start (OpcodeToken.samplerMode.get token)
      return .dclSampler (← Operand.decodeSlot .sampler) mode
  | .dclResource =>
      let dimension ← decodeMember .resourceDimension start
        (OpcodeToken.resourceDimension.get token)
      let sampleCount := OpcodeToken.sampleCount.get token
      if sampleCount > 1 then
        Decoder.failAt start (.badSampleCount sampleCount)
      let slot ← Operand.decodeSlot .resource
      let position ← Decoder.position
      let returnTypes ← decodeReturnTypes DeclarationToken.returnTypes position (← Decoder.token)
      return .dclResource slot dimension sampleCount returnTypes
  | .mov => return .mov (← Operand.decodeDestination) (← Operand.decode)
  | .add => return .add (← Operand.decodeDestination) (← Operand.decode) (← Operand.decode)
  | .mul => return .mul (← Operand.decodeDestination) (← Operand.decode) (← Operand.decode)
  | .mad =>
      return .mad (← Operand.decodeDestination) (← Operand.decode) (← Operand.decode)
        (← Operand.decode)
  | .sampleL =>
      if OpcodeToken.extended.get token = 0 then
        Decoder.failAt start (.badExtension .missing)
      let dimension ← decodeDimensionExtension
      let returnTypes ← decodeReturnTypesExtension
      return .sampleL dimension returnTypes (← Operand.decodeDestination) (← Operand.decode)
        (← Operand.decodeOfKind .resource) (← Operand.decodeOfKind .sampler) (← Operand.decode)
  | .ret => return .ret
  | other => Decoder.failAt start (.unsupportedOpcode (Coded.code other))

/-- What the first token of an instruction says: the opcode, and the length in tokens. -/
def decodeHead (token : UInt32) : Except DecodeFault (Opcode × Nat) := do
  let length := (OpcodeToken.length.get token).toNat
  if length = 0 then
    throw .zeroLength
  let code := OpcodeToken.opcode.get token
  match (Coded.ofCode? code : Option Opcode) with
  | none => throw (.unsupportedOpcode code)
  | some opcode =>
      if OpcodeToken.extended.get token ≠ 0 ∧ opcode ≠ .sampleL then
        throw (.badExtension .notAllowed)
      return (opcode, length)

/-- Read one instruction. -/
def decode : Decoder Instruction := do
  let start ← Decoder.position
  let token ← Decoder.token
  match decodeHead token with
  | .error fault => Decoder.failAt start fault
  | .ok (opcode, declared) =>
      let inst ← decodeBody start token opcode
      let consumed := (← Decoder.position) - start
      if consumed ≠ declared then
        Decoder.failAt start (.lengthMismatch opcode declared consumed)
      return inst

end Instruction

end ShaderBytecode
