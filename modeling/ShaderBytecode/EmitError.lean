import ShaderBytecode.Opcode
import ShaderBytecode.Operand.Kind

set_option autoImplicit false

/-! # What cannot be written as tokens

Every instruction that was decoded can be written again; these errors are about operands and
instructions that a caller put together. -/

namespace ShaderBytecode

/-- Why an operand has no token form, or cannot be used where it stands. -/
inductive OperandFault where
  | maskTooWide | laneAbove3 | componentAbove3 | tooManyIndices | payloadMismatch
  | payloadOnRegister | tempIndex
  deriving DecidableEq, Repr

def OperandFault.description : OperandFault → String
  | .maskTooWide => "write mask wider than 4 bits"
  | .laneAbove3 => "swizzle lane above 3"
  | .componentAbove3 => "selected component above 3"
  | .tooManyIndices => "more than three index dimensions"
  | .payloadMismatch => "immediate payload does not match operand type and component count"
  | .payloadOnRegister => "immediate payload on a register operand"
  | .tempIndex => "temp register without a 32-bit index"

/-- Why an instruction or a program cannot be written. -/
inductive EmitError where
  | badOperand (fault : OperandFault)
  | instructionTooLong (opcode : Opcode) (length : Nat)
  | tempOutOfRange (index : UInt32)
  | badDestination (kind : OperandKind)
  | unexpectedOperandKind (expected found : OperandKind)
  | badSampleCount (count : UInt32)
  | undeclaredResource (slot : UInt32)
  | badShaderModel (major minor : UInt8)
  deriving DecidableEq, Repr

def EmitError.message : EmitError → String
  | .badOperand fault => s!"invalid operand: {fault.description}"
  | .instructionTooLong opcode length =>
      s!"{opcode.mnemonic} needs {length} dwords, more than an opcode token can declare"
  | .tempOutOfRange index => s!"temp register r{index} is outside the 32 tracked registers"
  | .badDestination kind => s!"{kind.name} cannot be written by an instruction"
  | .unexpectedOperandKind expected found =>
      s!"expected {expected.name} operand, found {found.name}"
  | .badSampleCount count => s!"resource sample count {count} (must be 0 or 1)"
  | .undeclaredResource slot => s!"t{slot} is sampled before its dcl_resource"
  | .badShaderModel major minor =>
      s!"shader model {major}.{minor} does not fit the version token"

end ShaderBytecode
