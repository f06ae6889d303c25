import ShaderBytecode.Token.Cursor
import ShaderBytecode.Token.Fields
import ShaderBytecode.Operand.Basic

set_option autoImplicit false

/-! # Reading operands

An operand starts with a token that tells its kind, its components and how many indices follow in
what form. The indices come next and then, for an immediate operand, its values. Faults of the first
token are reported at that token, whatever was read since. -/

namespace ShaderBytecode

namespace Operand

/-- The components that an operand's first token describes. -/
def decodeComponents (token : UInt32) : Except DecodeFault Components :=
  match OperandToken.componentCount.get token with
  | 0 => .ok .none
  | 1 => .ok .scalar
  | 2 =>
      match OperandToken.selectionMode.get token with
      | 0 => .ok (.mask (OperandToken.writeMask.get token).toUInt8)
      | 1 => .ok (.swizzle (OperandToken.swizzle.map fun r => (r.get token).toUInt8))
      | 2 => .ok (.select (OperandToken.selectedComponent.get token).toUInt8)
      | mode => .error (.unsupportedSelectionMode mode)
  | count => .error (.unsupportedComponentCount count)

/-- The kind that an operand's first token describes. -/
def decodeKind (token : UInt32) : Except DecodeFault OperandKind :=
  let code := OperandToken.kind.get token
  match Coded.ofCode? code with
  | some kind => .ok kind
  | none => .error (.unsupportedOperandKind code)

/-- What an operand's first token says about kind and components. -/
def decodeHead (token : UInt32) : Except DecodeFault (OperandKind × Components) := do
  if OperandToken.extended.get token ≠ 0 then
    throw .extendedOperand
  let components ← decodeComponents token
  let kind ← decodeKind token
  return (kind, components)

/-- Read the index whose form the given field of `token` tells; `start` is the place of `token`. -/
def decodeIndex (start : Nat) (token : UInt32) (field : BitRange) : Decoder RegisterIndex :=
  match field.get token with
  | 0 => return .imm32 (← Decoder.token)
  | 1 => return .imm64 (← Decoder.doubleToken)
  | form => Decoder.failAt start (.unsupportedIndexForm form)

/-- Read one index for each of the given fields. -/
def decodeIndices (start : Nat) (token : UInt32) : List BitRange → Decoder (List RegisterIndex)
  | [] => return []
  | field :: fields =>
      return (← decodeIndex start token field) :: (← decodeIndices start token fields)

/-- Read the values of an operand of the given kind; registers have none. -/
def decodeImmediate (kind : OperandKind) (count : Nat) : Decoder (Option Immediate) :=
  match kind with
  | .immediate32 => return some (.words (← Decoder.times count Decoder.token))
  | .immediate64 => return some (.doubleWords (← Decoder.times count Decoder.doubleToken))
  | _ => return none

/-- Read one operand. -/
def decode : Decoder Operand := do
  let start ← Decoder.position
  let token ← Decoder.token
  match decodeHead token with
  | .error fault => Decoder.failAt start fault
  | .ok (kind, components) =>
      let count := (OperandToken.indexCount.get token).toNat
      let indices ← decodeIndices start token (OperandToken.indexForms.take count)
      let immediate ← decodeImmediate kind components.valueCount
      return ⟨kind, components, indices, immediate⟩

end Operand

end ShaderBytecode
