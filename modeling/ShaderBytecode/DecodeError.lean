import ShaderBytecode.Opcode
import ShaderBytecode.Operand.Kind

set_option autoImplicit false

/-! # What can be wrong with a token stream

A `DecodeError` is a cause together with the token at which it was noticed. -/

namespace ShaderBytecode

/-- A field whose value must be a member of an enumeration. -/
inductive EnumeratedField where
  | systemValue | samplerMode | resourceDimension | returnType
  deriving DecidableEq, Repr

def EnumeratedField.description : EnumeratedField → String
  | .systemValue => "system value name"
  | .samplerMode => "sampler mode"
  | .resourceDimension => "resource dimension"
  | .returnType => "resource return type"

/-- What is wrong with the extension tokens of an instruction. Sampling at an explicit level needs
    exactly two, first the resource dimension and then the return types; nothing else has any. -/
inductive ExtensionFault where
  | notAllowed | missing | dimensionExpected | returnTypesMissing | returnTypesExpected | tooMany
  deriving DecidableEq, Repr

def ExtensionFault.description : ExtensionFault → String
  | .notAllowed => "only sample_l carries extended opcode tokens"
  | .missing => "sample_l requires resource dimension and return type extensions"
  | .dimensionExpected => "expected resource dimension extension first"
  | .returnTypesMissing => "missing return type extension"
  | .returnTypesExpected => "expected return type extension second"
  | .tooMany => "unexpected third extension"

/-- Why a token stream cannot be decoded. -/
inductive DecodeFault where
  | unexpectedEnd (wanted remaining : Nat)
  | badDeclaredLength (declared available : Nat)
  | zeroLength
  | lengthMismatch (opcode : Opcode) (declared consumed : Nat)
  | unsupportedOpcode (code : UInt32)
  | badExtension (fault : ExtensionFault)
  | unsupportedComponentCount (code : UInt32)
  | unsupportedSelectionMode (code : UInt32)
  | unsupportedOperandKind (code : UInt32)
  | unsupportedIndexForm (code : UInt32)
  | extendedOperand
  | unexpectedOperandKind (expected found : OperandKind)
  | unexpectedIndexCount (expected found : Nat)
  | immediateDestination
  | badSampleCount (count : UInt32)
  | unknownValue (field : EnumeratedField) (value : UInt32)
  deriving DecidableEq, Repr

def DecodeFault.message : DecodeFault → String
  | .unexpectedEnd wanted remaining =>
      s!"unexpected end of token stream (wanted {wanted} dwords, {remaining} remaining)"
  | .badDeclaredLength declared available =>
      s!"declared program length {declared} is out of bounds (available {available})"
  | .zeroLength => "instruction length is zero"
  | .lengthMismatch opcode declared consumed =>
      s!"{opcode.mnemonic} declares {declared} dwords but its payload used {consumed}"
  | .unsupportedOpcode code => s!"unsupported opcode {Opcode.labelOf code} ({code})"
  | .badExtension fault => s!"extended opcode token: {fault.description}"
  | .unsupportedComponentCount code => s!"unsupported operand component count {code}"
  | .unsupportedSelectionMode code => s!"unsupported component selection mode {code}"
  | .unsupportedOperandKind code => s!"unsupported operand type {code}"
  | .unsupportedIndexForm code => s!"unsupported operand index representation {code}"
  | .extendedOperand => "extended operand tokens are not supported"
  | .unexpectedOperandKind expected found =>
      s!"expected {expected.name} operand, found {found.name}"
  | .unexpectedIndexCount expected found =>
      s!"expected {expected}D operand index, found {found}D"
  | .immediateDestination => "destination operand cannot be an immediate"
  | .badSampleCount count => s!"resource sample count {count} (must be 0 or 1)"
  | .unknownValue field value => s!"unknown {field.description} value {value}"

/-- A fault and the position of the token at which it was noticed. -/
structure DecodeError where
  position : Nat
  fault : DecodeFault
  deriving DecidableEq, Repr

def DecodeError.message (e : DecodeError) : String :=
  s!"SM4/5 decode error at dword {e.position}: {e.fault.message}"

end ShaderBytecode
