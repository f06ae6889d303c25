import ShaderBytecode.Token.Emitter
import ShaderBytecode.Token.Fields
import ShaderBytecode.Operand.Basic

set_option autoImplicit false

/-! # Writing operands

An operand is first checked and then laid out. The checks refuse exactly what has no token form: a
mask or lane that does not fit its field, a fourth index, or values that do not go with the kind and
the components. `Operand.tokens` itself is total; it is the operand's form only after the checks. -/

namespace ShaderBytecode

namespace Components

/-- Refuse masks and lanes that do not fit their fields. -/
def check : Components → Except EmitError Unit
  | .none | .scalar => .ok ()
  | .mask bits =>
      if OperandToken.writeMask.fits bits.toUInt32 then .ok ()
      else .error (.badOperand .maskTooWide)
  | .swizzle lanes =>
      if lanes.toList.all (· ≤ 3) then .ok () else .error (.badOperand .laneAbove3)
  | .select component =>
      if component ≤ 3 then .ok () else .error (.badOperand .componentAbove3)

/-- The fields of the operand's first token that describe the components. -/
def fields : Components → List (BitRange × UInt32)
  | .none => [(OperandToken.componentCount, 0)]
  | .scalar => [(OperandToken.componentCount, 1)]
  | .mask bits =>
      [(OperandToken.componentCount, 2), (OperandToken.selectionMode, 0),
        (OperandToken.writeMask, bits.toUInt32)]
  | .swizzle lanes =>
      (OperandToken.componentCount, 2) :: (OperandToken.selectionMode, 1) ::
        (OperandToken.swizzle.zip (lanes.map (·.toUInt32))).toList
  | .select component =>
      [(OperandToken.componentCount, 2), (OperandToken.selectionMode, 2),
        (OperandToken.selectedComponent, component.toUInt32)]

end Components

/-- The two tokens of a 64-bit value, the low half first. -/
def doubleTokens (value : UInt64) : List UInt32 := [value.toUInt32, (value >>> 32).toUInt32]

namespace RegisterIndex

/-- The number of the form the index is written in. -/
def form : RegisterIndex → UInt32
  | .imm32 _ => 0
  | .imm64 _ => 1

def tokens : RegisterIndex → List UInt32
  | .imm32 value => [value]
  | .imm64 value => doubleTokens value

theorem length_tokens (index : RegisterIndex) : index.tokens.length = index.tokenCount := by
  cases index <;> rfl

end RegisterIndex

namespace Immediate

def tokens : Immediate → List UInt32
  | .words values => values
  | .doubleWords values => values.flatMap doubleTokens

theorem length_tokens (immediate : Immediate) :
    immediate.tokens.length = immediate.tokenCount := by
  cases immediate with
  | words values => rfl
  | doubleWords values =>
      simp only [tokens, tokenCount]
      induction values with
      | nil => rfl
      | cons v vs ih => simp only [List.flatMap_cons, List.length_append, ih, List.length_cons,
          doubleTokens, List.length_nil]; omega

end Immediate

namespace Operand

/-- Refuse values that do not go with the kind and the components. -/
def checkImmediate (op : Operand) : Except EmitError Unit :=
  match op.kind, op.immediate with
  | .immediate32, some (.words values) =>
      if values.length = op.components.valueCount then .ok ()
      else .error (.badOperand .payloadMismatch)
  | .immediate64, some (.doubleWords values) =>
      if values.length = op.components.valueCount then .ok ()
      else .error (.badOperand .payloadMismatch)
  | .immediate32, _ | .immediate64, _ => .error (.badOperand .payloadMismatch)
  | _, some _ => .error (.badOperand .payloadOnRegister)
  | _, none => .ok ()

/-- Refuse operands that have no token form. -/
def check (op : Operand) : Except EmitError Unit := do
  op.components.check
  if op.indices.length > OperandToken.indexForms.length then
    throw (.badOperand .tooManyIndices)
  op.checkImmediate

/-- The fields of the operand's first token. -/
def fields (op : Operand) : List (BitRange × UInt32) :=
  op.components.fields
    ++ [(OperandToken.kind, Coded.code op.kind),
      (OperandToken.indexCount, UInt32.ofNat op.indices.length)]
    ++ OperandToken.indexForms.zip (op.indices.map (·.form))

/-- The operand's tokens, provided that it passes the checks. -/
def tokens (op : Operand) : List UInt32 :=
  BitRange.fill 0 op.fields
    :: op.indices.flatMap (·.tokens)
    ++ (op.immediate.map (·.tokens)).getD []

/-- The tokens of an operand are as many as `Operand.tokenCount` says, checked or not. -/
theorem length_tokens (op : Operand) : op.tokens.length = op.tokenCount := by
  have indices : (op.indices.flatMap (·.tokens)).length = op.indexTokenCount := by
    unfold indexTokenCount
    induction op.indices with
    | nil => rfl
    | cons index rest ih =>
        simp only [List.flatMap_cons, List.length_append, index.length_tokens, ih, List.foldr_cons]
  have immediate : ((op.immediate.map (·.tokens)).getD []).length
      = (op.immediate.map (·.tokenCount)).getD 0 := by
    cases op.immediate with
    | none => rfl
    | some values => exact values.length_tokens
  simp only [tokens, tokenCount, List.cons_append, List.length_cons, List.length_append, indices,
    immediate]
  omega

/-- The operand's tokens, or why it has none. -/
def encode (op : Operand) : Except EmitError (List UInt32) := do
  op.check
  return op.tokens

/-- Append the operand to a token buffer. -/
def emit (op : Operand) : Emitter Unit := Emitter.append op.encode

/-- Write a destination, which cannot be an immediate. -/
def encodeDestination (op : Operand) : Except EmitError (List UInt32) :=
  if op.isImmediate then .error (.badDestination op.kind) else op.encode

end Operand

end ShaderBytecode
