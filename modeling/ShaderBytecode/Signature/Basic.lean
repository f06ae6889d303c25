set_option autoImplicit false

/-! # Signatures

A signature lists what a program takes in or gives out: for each element a name, the register that
holds it and the components that are in use. -/

namespace ShaderBytecode

/-- One element of a signature. -/
structure SignatureElement where
  name : String
  /-- The number after the name, as in `TEXCOORD1`. -/
  index : UInt32
  /-- The number of the system value that the element is, or 0. -/
  systemValue : UInt32
  /-- The number of the type of the element's components. -/
  componentType : UInt32
  register : UInt32
  /-- The components that the element has. -/
  mask : UInt8
  /-- The components that are read, for inputs, or never written, for outputs. -/
  usageMask : UInt8
  /-- The output stream of a geometry shader. -/
  stream : UInt32
  /-- The least precision that the element needs. -/
  precision : UInt32
  deriving DecidableEq, Repr

/-- The elements of a signature in the order of declaration. -/
abbrev Signature := List SignatureElement

/-- A single-precision element that is no system value and is used as a whole. -/
def SignatureElement.plain (name : String) (index register : UInt32) (mask : UInt8) :
    SignatureElement where
  name
  index
  systemValue := 0
  componentType := 3
  register
  mask
  usageMask := mask
  stream := 0
  precision := 0

/-- The two forms of the element table. -/
inductive ElementLayout where
  /-- Entries of 24 bytes, with one byte each for stream and precision. -/
  | short
  /-- Entries of 32 bytes, with four bytes each for stream and precision. -/
  | long
  deriving DecidableEq, Repr

namespace ElementLayout

/-- The length of an entry. -/
def size : ElementLayout → Nat
  | .short => 24
  | .long => 32

def other : ElementLayout → ElementLayout
  | .short => .long
  | .long => .short

end ElementLayout

/-- The length of what stands before the element table: the number of elements and the table's
    offset. -/
def Signature.headerLength : Nat := 8

end ShaderBytecode
