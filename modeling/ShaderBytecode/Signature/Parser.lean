import ShaderBytecode.Bytes.Cursor
import ShaderBytecode.Signature.Basic

set_option autoImplicit false

/-! # Reading signatures

A signature chunk holds the number of elements, the offset of their table, the table and the names.
Nothing in it tells which form the table has, so the form that the chunk's tag suggests is tried first
and the other one if that fails. What keeps a table from being read in the wrong form are the checks
on offsets: the table must lie inside the chunk, and no name may start inside the table. -/

namespace ShaderBytecode

namespace Signature

/-- Read the last two fields of an entry, the stream and the precision. -/
def readStream : ElementLayout → ByteReader (UInt32 × UInt32)
  | .short => return ((← ByteReader.uint8).toUInt32, (← ByteReader.uint8).toUInt32)
  | .long => do
      let _ ← ByteReader.uint16
      return (← ByteReader.uint32, ← ByteReader.uint32)

/-- Read entry number `number` of the table that lies from `tableStart` up to `tableEnd`. -/
def readElement (layout : ElementLayout) (tableStart tableEnd number : Nat) :
    ByteReader SignatureElement := do
  ByteReader.seek (tableStart + number * layout.size)
  let nameOffset ← ByteReader.number 4
  if nameOffset < headerLength ∨ (tableStart ≤ nameOffset ∧ nameOffset < tableEnd) then
    throw (.elementNameMisplaced number nameOffset)
  let index ← ByteReader.uint32
  let systemValue ← ByteReader.uint32
  let componentType ← ByteReader.uint32
  let register ← ByteReader.uint32
  let mask ← ByteReader.uint8
  let usageMask ← ByteReader.uint8
  let (stream, precision) ← readStream layout
  let name ← ByteReader.name (.element number) nameOffset
  return { name, index, systemValue, componentType, register, mask, usageMask, stream, precision }

/-- Read a signature whose table has the given form. -/
def read (layout : ElementLayout) : ByteReader Signature := do
  let count ← ByteReader.number 4
  let tableStart ← ByteReader.number 4
  if count = 0 then
    return []
  let length := (← get).bytes.length
  if tableStart < headerLength ∨ tableStart % 4 ≠ 0 then
    throw (.elementTableMisplaced tableStart)
  let tableEnd := tableStart + count * layout.size
  if tableEnd > length then
    throw (.elementTableOutside count layout.size tableStart length)
  (List.range count).mapM (readElement layout tableStart tableEnd)

/-- Parse a signature, trying one form of the table and then the other. -/
def parseTrying (layout : ElementLayout) (bytes : List UInt8) :
    Except ContainerError Signature :=
  match (read layout).runAt bytes 0 with
  | .ok signature => .ok signature
  | .error first =>
      match (read layout.other).runAt bytes 0 with
      | .ok signature => .ok signature
      | .error second =>
          .error (.unreadableSignature layout.size first layout.other.size second)

/-- The form that a chunk's tag suggests: long entries if it ends in `1`. -/
def layoutOf (tag : Tag) : ElementLayout := if tag.fourth = '1'.toUInt8 then .long else .short

/-- Parse the signature in a chunk with the given tag. -/
def parseTagged (tag : Tag) (bytes : List UInt8) : Except ContainerError Signature :=
  parseTrying (layoutOf tag) bytes

/-- Parse a signature of which no tag is known. -/
def parse (bytes : List UInt8) : Except ContainerError Signature := parseTrying .short bytes

end Signature

end ShaderBytecode
