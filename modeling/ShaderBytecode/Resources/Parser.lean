import ShaderBytecode.Bytes.Cursor
import ShaderBytecode.Resources.Basic

set_option autoImplicit false

/-! # Reading resource tables

All offsets in a resource table are counted from its start, so records can be read in any order and
from any place. Types need care: a type may be described once and used often, or even contain itself.
Two limits keep the tree that is read out small, one on the depth of a type and one, for the whole
table, on the number of types: one for every four bytes of the table. -/

namespace ShaderBytecode

namespace ResourceTable

/-- How deep types may nest. -/
def maxTypeDepth : Nat := 8

/-- How many types a table of the given length may expand to. -/
def typeLimit (length : Nat) : Nat := length / 4

/-- Refuse a table of `count` records that does not lie inside the bytes. -/
def checkRecords (bytes : List UInt8) (kind : RecordKind) (offset count size : Nat) :
    Except ContainerError Unit :=
  if count = 0 ∨ offset + count * size ≤ bytes.length then .ok ()
  else .error (.recordsOutside count kind offset bytes.length)

/-- The name at an offset. -/
def nameAt (bytes : List UInt8) (owner : NameOwner) (offset : Nat) :
    Except ContainerError String :=
  match stringAt bytes offset with
  | .ok name => .ok name
  | .error e => .error (.badName owner e)

/-! ## Types -/

/-- A step that may read types; the state is how many more may be read. -/
abbrev TypeReader : Type → Type := StateT Nat (Except ContainerError)

/-- Count one type. -/
def countType (length : Nat) : TypeReader Unit := do
  let left ← get
  if left = 0 then
    throw (.typeGraphTooLarge (typeLimit length) length)
  set (left - 1)

/-- The record of a type without its members. -/
structure TypeRecord where
  shape : TypeShape
  memberCount : UInt16
  memberOffset : UInt32

/-- Read the record of a type. -/
def readTypeRecord : ByteReader TypeRecord := do
  let category ← ByteReader.uint16
  let component ← ByteReader.uint16
  let rows ← ByteReader.uint16
  let columns ← ByteReader.uint16
  let elements ← ByteReader.uint16
  let memberCount ← ByteReader.uint16
  let memberOffset ← ByteReader.uint32
  return ⟨⟨category, component, rows, columns, elements⟩, memberCount, memberOffset⟩

/-- The record of a structure's member. -/
structure MemberRecord where
  nameOffset : Nat
  typeOffset : Nat
  offset : UInt32

/-- Read the record of a structure's member. -/
def readMemberRecord : ByteReader MemberRecord := do
  let nameOffset ← ByteReader.number 4
  let typeOffset ← ByteReader.number 4
  let offset ← ByteReader.uint32
  return ⟨nameOffset, typeOffset, offset⟩

/-- Read a type with all its members; `levels` is how deep it may nest. -/
def readType (bytes : List UInt8) : (levels : Nat) → (offset : Nat) → TypeReader ResourceType
  | 0, offset => throw (.typeTooDeep offset maxTypeDepth)
  | levels + 1, offset => do
      countType bytes.length
      if offset < headerLength then
        throw (.typeInsideHeader offset)
      let record ← readTypeRecord.runAt bytes offset
      let count := record.memberCount.toNat
      let table := record.memberOffset.toNat
      checkRecords bytes .structMember table count memberLength
      let members ← (List.range count).mapM fun number => do
        let member ← readMemberRecord.runAt bytes (table + number * memberLength)
        let name ← nameAt bytes .structMember member.nameOffset
        return TypeMember.mk name member.offset (← readType bytes levels member.typeOffset)
      return .mk record.shape record.memberCount record.memberOffset members

/-! ## Constant buffers -/

/-- The record of a variable. -/
structure VariableRecord where
  nameOffset : Nat
  offset : UInt32
  size : UInt32
  flags : UInt32
  typeOffset : Nat

/-- Read the record of a variable. The offset of its default value is passed over. -/
def readVariableRecord : ByteReader VariableRecord := do
  let nameOffset ← ByteReader.number 4
  let offset ← ByteReader.uint32
  let size ← ByteReader.uint32
  let flags ← ByteReader.uint32
  let typeOffset ← ByteReader.number 4
  let _ ← ByteReader.uint32
  return ⟨nameOffset, offset, size, flags, typeOffset⟩

/-- Read a variable with its type. -/
def readVariable (bytes : List UInt8) (offset : Nat) : TypeReader BufferVariable := do
  let record ← readVariableRecord.runAt bytes offset
  let name ← nameAt bytes .variable record.nameOffset
  let type ← readType bytes maxTypeDepth record.typeOffset
  return ⟨name, record.offset, record.size, record.flags, type⟩

/-- The record of a constant buffer. -/
structure BufferRecord where
  nameOffset : Nat
  variableCount : Nat
  variableOffset : Nat
  size : UInt32
  flags : UInt32
  kind : UInt32

/-- Read the record of a constant buffer. -/
def readBufferRecord : ByteReader BufferRecord := do
  let nameOffset ← ByteReader.number 4
  let variableCount ← ByteReader.number 4
  let variableOffset ← ByteReader.number 4
  let size ← ByteReader.uint32
  let flags ← ByteReader.uint32
  let kind ← ByteReader.uint32
  return ⟨nameOffset, variableCount, variableOffset, size, flags, kind⟩

/-- Read a constant buffer with its variables, whose records have the given length. -/
def readBuffer (bytes : List UInt8) (variableLength offset : Nat) : TypeReader ConstantBuffer := do
  let record ← readBufferRecord.runAt bytes offset
  checkRecords bytes .variable record.variableOffset record.variableCount variableLength
  let vars ← (List.range record.variableCount).mapM fun number =>
    readVariable bytes (record.variableOffset + number * variableLength)
  let name ← nameAt bytes .constantBuffer record.nameOffset
  return ⟨name, record.size, record.flags, record.kind, vars⟩

/-! ## Bindings -/

/-- Read the record of a binding: the offset of its name and the binding without the name. -/
def readBindingRecord : ByteReader (Nat × ResourceBinding) := do
  let nameOffset ← ByteReader.number 4
  let inputType ← ByteReader.uint32
  let returnType ← ByteReader.uint32
  let dimension ← ByteReader.uint32
  let sampleCount ← ByteReader.uint32
  let bindPoint ← ByteReader.uint32
  let bindCount ← ByteReader.uint32
  let flags ← ByteReader.uint32
  return (nameOffset,
    ⟨"", inputType, returnType, dimension, sampleCount, bindPoint, bindCount, flags⟩)

/-- Read a binding. -/
def readBinding (bytes : List UInt8) (offset : Nat) : Except ContainerError ResourceBinding := do
  let (nameOffset, binding) ← readBindingRecord.runAt bytes offset
  return { binding with name := (← nameAt bytes .binding nameOffset) }

/-! ## The whole table -/

/-- The header of a resource table. -/
structure TableHeader where
  bufferCount : Nat
  bufferOffset : Nat
  bindingCount : Nat
  bindingOffset : Nat
  minor : UInt8
  major : UInt8
  programType : UInt16
  flags : UInt32
  creatorOffset : Nat

/-- Read the header of a resource table. -/
def readHeader : ByteReader TableHeader := do
  let bufferCount ← ByteReader.number 4
  let bufferOffset ← ByteReader.number 4
  let bindingCount ← ByteReader.number 4
  let bindingOffset ← ByteReader.number 4
  let minor ← ByteReader.uint8
  let major ← ByteReader.uint8
  let programType ← ByteReader.uint16
  let flags ← ByteReader.uint32
  let creatorOffset ← ByteReader.number 4
  return ⟨bufferCount, bufferOffset, bindingCount, bindingOffset, minor, major, programType, flags,
    creatorOffset⟩

/-- Read the constant buffers; the limit on types is one for all of them. -/
def readBuffers (bytes : List UInt8) (header : TableHeader) : TypeReader (List ConstantBuffer) :=
  (List.range header.bufferCount).mapM fun number =>
    readBuffer bytes (variableLength header.major) (header.bufferOffset + number * bufferLength)

/-- Parse the payload of a resource chunk. -/
def parse (bytes : List UInt8) : Except ContainerError ResourceTable := do
  if bytes.length < headerLength then
    throw (.resourceHeaderTooShort bytes.length)
  let header ← readHeader.runAt bytes 0
  let creator ← nameAt bytes .creator header.creatorOffset
  checkRecords bytes .constantBuffer header.bufferOffset header.bufferCount bufferLength
  let (buffers, _) ← (readBuffers bytes header).run (typeLimit bytes.length)
  checkRecords bytes .binding header.bindingOffset header.bindingCount bindingLength
  let bindings ← (List.range header.bindingCount).mapM fun number =>
    readBinding bytes (header.bindingOffset + number * bindingLength)
  return ⟨header.major, header.minor, header.programType, header.flags, creator, buffers, bindings⟩

end ResourceTable

end ShaderBytecode
