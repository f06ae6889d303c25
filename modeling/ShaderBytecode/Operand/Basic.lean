import ShaderBytecode.Lanes
import ShaderBytecode.Operand.Kind

set_option autoImplicit false

/-! # Operands

An operand names a register (its kind, up to three indices and the components it picks) or carries
immediate values. The type also admits combinations that no token stream can hold, such as a lane
above 3: callers may build them, and encoding is where they are refused. -/

namespace ShaderBytecode

/-- Which components of a register an operand uses. -/
inductive Components where
  /-- The register has no components. -/
  | none
  /-- The register has one component. -/
  | scalar
  /-- The components to write; bit 0 stands for `x`. -/
  | mask (bits : UInt8)
  /-- For each lane, the number of the component it reads. -/
  | swizzle (lanes : Lanes UInt8)
  /-- One component, read in every lane. -/
  | select (component : UInt8)
  deriving DecidableEq, Repr

namespace Components

/-- The swizzle that reads every component in its own lane. -/
def identity : Components := .swizzle ⟨0, 1, 2, 3⟩

/-- The mask that writes every component. -/
def fullMask : Components := .mask 0xF

/-- How many values an immediate operand with these components carries. -/
def valueCount : Components → Nat
  | .none => 0
  | .scalar => 1
  | .mask _ | .swizzle _ | .select _ => 4

end Components

/-- One index of a register, in the width it is written with. -/
inductive RegisterIndex where
  | imm32 (value : UInt32)
  | imm64 (value : UInt64)
  deriving DecidableEq, Repr

namespace RegisterIndex

/-- The index, if it is written with 32 bits. -/
def toUInt32? : RegisterIndex → Option UInt32
  | .imm32 value => some value
  | .imm64 _ => Option.none

def toNat : RegisterIndex → Nat
  | .imm32 value => value.toNat
  | .imm64 value => value.toNat

/-- How many tokens the index takes. -/
def tokenCount : RegisterIndex → Nat
  | .imm32 _ => 1
  | .imm64 _ => 2

end RegisterIndex

/-- The values of an immediate operand, as bit patterns. -/
inductive Immediate where
  | words (values : List UInt32)
  | doubleWords (values : List UInt64)
  deriving DecidableEq, Repr

namespace Immediate

/-- How many values there are. -/
def length : Immediate → Nat
  | .words values => values.length
  | .doubleWords values => values.length

/-- How many tokens the values take. -/
def tokenCount : Immediate → Nat
  | .words values => values.length
  | .doubleWords values => 2 * values.length

end Immediate

/-- A register or immediate values, as an instruction refers to them. -/
structure Operand where
  kind : OperandKind
  components : Components
  indices : List RegisterIndex
  immediate : Option Immediate
  deriving DecidableEq, Repr

namespace Operand

/-- The register number `index` of the given kind. -/
def register (kind : OperandKind) (index : UInt32) (components : Components) : Operand :=
  ⟨kind, components, [.imm32 index], none⟩

/-- A texture or buffer, without component selection. -/
def resource (slot : UInt32) : Operand := register .resource slot .none

/-- A sampler, without component selection. -/
def sampler (slot : UInt32) : Operand := register .sampler slot .none

/-- A constant buffer of the given size. -/
def constantBuffer (slot size : UInt32) : Operand :=
  ⟨.constantBuffer, .identity, [.imm32 slot, .imm32 size], none⟩

/-- One 32-bit value. -/
def scalarValue (bits : UInt32) : Operand :=
  ⟨.immediate32, .scalar, [], some (.words [bits])⟩

/-- Four 32-bit values. -/
def vectorValue (bits : Lanes UInt32) : Operand :=
  ⟨.immediate32, .identity, [], some (.words bits.toList)⟩

/-- The register's first index, if it has one and it is written with 32 bits. -/
def registerIndex? (op : Operand) : Option UInt32 := op.indices.head?.bind (·.toUInt32?)

/-- Whether the operand's kind is one of the immediate kinds. -/
def isImmediate (op : Operand) : Bool := op.kind.isImmediate

/-- How many tokens the operand's indices take. -/
def indexTokenCount (op : Operand) : Nat :=
  op.indices.foldr (fun index total => index.tokenCount + total) 0

/-- How many tokens the operand takes when written. -/
def tokenCount (op : Operand) : Nat :=
  1 + op.indexTokenCount + (op.immediate.map (·.tokenCount)).getD 0

end Operand

end ShaderBytecode
