set_option autoImplicit false

/-! # Resource tables

A resource table describes what a program reads: its constant buffers, with their variables and the
types of these, and the resources that are bound to it. Types are trees; the members of a structure
have types of their own. -/

namespace ShaderBytecode

/-- The numbers that describe a type by itself. -/
structure TypeShape where
  /-- The number of the type's class: scalar, vector, matrix, structure and so on. -/
  category : UInt16
  /-- The number of the type of the components. -/
  component : UInt16
  rows : UInt16
  columns : UInt16
  /-- The length of an array, or 0. -/
  elements : UInt16
  deriving DecidableEq, Repr

mutual

/-- A type as it is stored: its shape, where its members are described, and the members. -/
inductive ResourceType where
  | mk (shape : TypeShape) (memberCount : UInt16) (memberOffset : UInt32)
      (members : List TypeMember)

/-- A member of a structure: its name, its offset within the structure and its type. -/
inductive TypeMember where
  | mk (name : String) (offset : UInt32) (type : ResourceType)

end

/-- A variable of a constant buffer. -/
structure BufferVariable where
  name : String
  offset : UInt32
  size : UInt32
  flags : UInt32
  type : ResourceType

/-- A constant buffer. -/
structure ConstantBuffer where
  name : String
  size : UInt32
  flags : UInt32
  /-- The number of the buffer's kind. -/
  kind : UInt32
  vars : List BufferVariable

/-- A resource that is bound to a program. -/
structure ResourceBinding where
  name : String
  inputType : UInt32
  returnType : UInt32
  dimension : UInt32
  sampleCount : UInt32
  bindPoint : UInt32
  bindCount : UInt32
  flags : UInt32
  deriving DecidableEq, Repr

/-- What a program reads. -/
structure ResourceTable where
  major : UInt8
  minor : UInt8
  programType : UInt16
  flags : UInt32
  /-- The compiler that wrote the table. -/
  creator : String
  buffers : List ConstantBuffer
  bindings : List ResourceBinding

namespace ResourceTable

/-! ## Lengths of the records -/

def headerLength : Nat := 28
def bufferLength : Nat := 24
def bindingLength : Nat := 32
def memberLength : Nat := 12

/-- Variables have longer records from shader model 5 on. -/
def variableLength (major : UInt8) : Nat := if major ≥ 5 then 40 else 24

end ResourceTable

end ShaderBytecode
