import ShaderBytecode.Bytes.LittleEndian
import ShaderBytecode.Resources.Basic

set_option autoImplicit false

/-! # Building resource tables

A resource table for a vertex shader of model 4.0 is laid out from a description: the header, the
records of all constant buffers, of all their variables and of the bindings, and after these a pool
of names and types. The pool is filled in the order in which the records need it; the members of a
type come before the type. -/

namespace ShaderBytecode

mutual

/-- A type as a builder is told about it. -/
inductive TypeDescription where
  | mk (shape : TypeShape) (members : List MemberDescription)

/-- A member of a structure as a builder is told about it. -/
inductive MemberDescription where
  | mk (name : String) (offset : UInt32) (type : TypeDescription)

end

/-- A variable as a builder is told about it. -/
structure VariableDescription where
  name : String
  offset : UInt32
  size : UInt32
  flags : UInt32
  type : TypeDescription

/-- A constant buffer as a builder is told about it. -/
structure BufferDescription where
  name : String
  size : UInt32
  flags : UInt32
  vars : List VariableDescription

/-- A resource table as a builder is told about it. -/
structure TableDescription where
  creator : String
  buffers : List BufferDescription
  bindings : List ResourceBinding

/-! ## The pool -/

/-- The names and types that records refer to. -/
structure ResourcePool where
  /-- Where in the table the pool starts. -/
  base : Nat
  bytes : List UInt8

/-- A step that may add to the pool. -/
abbrev Pooling : Type → Type := StateM ResourcePool

namespace ResourcePool

/-- Where in the table the next addition will lie. -/
def offset (pool : ResourcePool) : Nat := pool.base + pool.bytes.length

/-- Add bytes and return where they lie. -/
def append (bytes : List UInt8) : Pooling Nat := do
  let pool ← get
  set { pool with bytes := pool.bytes ++ bytes }
  return pool.offset

/-- Add a name. -/
def appendName (name : String) : Pooling Nat := append (name.toUTF8.data.toList ++ [0])

/-- How many zeros fill `length` up to a multiple of four. -/
def padding (length : Nat) : Nat := (4 - length % 4) % 4

/-- Fill the pool up to a multiple of four bytes. -/
def align : Pooling Unit := do
  let _ ← append (List.replicate (padding (← get).bytes.length) 0)

mutual

/-- Add a type: names and types of its members, the table of its members and its record. -/
def appendType : TypeDescription → Pooling Nat
  | .mk shape members => do
      let records ← appendMembers members
      align
      let table ← append records
      append (LittleEndian.encodeAll 2 [shape.category.toNat, shape.component.toNat,
          shape.rows.toNat, shape.columns.toNat, shape.elements.toNat, members.length]
        ++ LittleEndian.encode 4 (if members.isEmpty then 0 else table))

/-- Add names and types of members and return their records. -/
def appendMembers : List MemberDescription → Pooling (List UInt8)
  | [] => return []
  | .mk name offset type :: rest => do
      let nameOffset ← appendName name
      let typeOffset ← appendType type
      let records ← appendMembers rest
      return LittleEndian.encodeAll 4 [nameOffset, typeOffset, offset.toNat] ++ records

end

end ResourcePool

/-! ## The table -/

namespace TableDescription

open ResourcePool

/-- The record of a variable. There is no default value. -/
def variableRecord (v : VariableDescription) : Pooling (List UInt8) := do
  let name ← appendName v.name
  let type ← appendType v.type
  return LittleEndian.encodeAll 4 [name, v.offset.toNat, v.size.toNat, v.flags.toNat, type, 0]

/-- The records of constant buffers and those of their variables, which lie from `variableOffset`
    on. -/
def bufferRecords (variableOffset : Nat) :
    List BufferDescription → Pooling (List UInt8 × List UInt8)
  | [] => return ([], [])
  | buffer :: rest => do
      let name ← appendName buffer.name
      let record := LittleEndian.encodeAll 4 [name, buffer.vars.length, variableOffset,
        buffer.size.toNat, buffer.flags.toNat, 0]
      let vars ← buffer.vars.mapM variableRecord
      let next := variableOffset + ResourceTable.variableLength 4 * buffer.vars.length
      let (records, otherVars) ← bufferRecords next rest
      return (record ++ records, vars.flatten ++ otherVars)

/-- The record of a binding. -/
def bindingRecord (b : ResourceBinding) : Pooling (List UInt8) := do
  let name ← appendName b.name
  return LittleEndian.encodeAll 4 [name, b.inputType.toNat, b.returnType.toNat,
    b.dimension.toNat, b.sampleCount.toNat, b.bindPoint.toNat, b.bindCount.toNat, b.flags.toNat]

/-- How many variables there are in all constant buffers. -/
def variableCount (d : TableDescription) : Nat :=
  d.buffers.foldr (fun buffer total => buffer.vars.length + total) 0

/-- Where the records of the variables start. -/
def variableOffset (d : TableDescription) : Nat :=
  ResourceTable.headerLength + ResourceTable.bufferLength * d.buffers.length

/-- Where the records of the bindings start. -/
def bindingOffset (d : TableDescription) : Nat :=
  d.variableOffset + ResourceTable.variableLength 4 * d.variableCount

/-- Where the pool starts. -/
def poolOffset (d : TableDescription) : Nat :=
  d.bindingOffset + ResourceTable.bindingLength * d.bindings.length

/-- The header of the table. Offsets of empty tables are written as zero. -/
def headerBytes (d : TableDescription) (creatorOffset : Nat) : List UInt8 :=
  LittleEndian.encodeAll 4 [d.buffers.length,
      if d.buffers.isEmpty then 0 else ResourceTable.headerLength,
      d.bindings.length, if d.bindings.isEmpty then 0 else d.bindingOffset]
    ++ [0, 4] ++ LittleEndian.encode 2 0xFFFE ++ LittleEndian.encodeAll 4 [0x100, creatorOffset]

/-- All that stands before the pool. -/
def records (d : TableDescription) : Pooling (List UInt8) := do
  let creator ← appendName d.creator
  let (buffers, vars) ← bufferRecords d.variableOffset d.buffers
  let bindings ← d.bindings.mapM bindingRecord
  return d.headerBytes creator ++ buffers ++ vars ++ bindings.flatten

/-- The payload of the resource chunk. -/
def toBytes (d : TableDescription) : List UInt8 :=
  let (records, pool) := d.records.run ⟨d.poolOffset, []⟩
  let payload := records ++ pool.bytes
  payload ++ List.replicate (padding payload.length) 0

end TableDescription

end ShaderBytecode
