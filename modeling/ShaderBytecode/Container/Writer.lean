import ShaderBytecode.Bytes.LittleEndian
import ShaderBytecode.Container.Basic

set_option autoImplicit false

/-! # Writing containers

The chunks are written one after another behind the table, each filled up with zeros so that the next
one begins at a multiple of four. The recorded length of a chunk leaves the filling out. -/

namespace ShaderBytecode

/-- A tag and the data to be stored under it. -/
structure Payload where
  tag : Tag
  data : List UInt8
  deriving DecidableEq, Repr

namespace Payload

/-- Data filled up with zeros to a multiple of four. -/
def paddedData (payload : Payload) : List UInt8 :=
  payload.data ++ List.replicate ((4 - payload.data.length % 4) % 4) 0

/-- The whole chunk. -/
def toBytes (payload : Payload) : List UInt8 :=
  payload.tag.toList ++ LittleEndian.encode 4 payload.data.length ++ payload.paddedData

theorem length_toBytes (payload : Payload) :
    payload.toBytes.length
      = 8 + (payload.data.length + (4 - payload.data.length % 4) % 4) := by
  simp only [toBytes, paddedData, Tag.toList, List.length_append, List.length_cons,
    List.length_nil, LittleEndian.length_encode, List.length_replicate]

end Payload

namespace Container

/-- Where chunks begin that follow each other from `offset` on. -/
def chunkOffsets (offset : Nat) : List Payload → List Nat
  | [] => []
  | payload :: rest => offset :: chunkOffsets (offset + payload.toBytes.length) rest

/-- What the digest covers: the reserved field, the length, the number of chunks, the table and the
    chunks. -/
def coveredBytes (payloads : List Payload) : List UInt8 :=
  let body := payloads.flatMap (·.toBytes)
  let tableEnd := Header.tableEnd payloads.length
  LittleEndian.encodeAll 4 [1, tableEnd + body.length, payloads.length]
    ++ LittleEndian.encodeAll 4 (chunkOffsets tableEnd payloads)
    ++ body

/-- A container with the given chunks, storing as its digest what `checksum` makes of the bytes
    after it. -/
def toBytesWith (checksum : List UInt8 → List UInt8) (payloads : List Payload) : List UInt8 :=
  let covered := coveredBytes payloads
  Tag.dxbc.toList ++ checksum covered ++ covered

/-- A container with the given chunks. -/
def toBytes (payloads : List Payload) : List UInt8 := toBytesWith digest payloads

/-- A container with the given chunks and zeros in place of the digest. -/
def toUnsealedBytes (payloads : List Payload) : List UInt8 :=
  toBytesWith (fun _ => List.replicate 16 0) payloads

/-- A container with the given chunks, unless its length does not fit into 32 bits. Filling the bytes
    in from front to back takes one conversion to 32 bits after another: of the number of chunks, of
    the offset and the length of each, and at last of the whole length, which is then put into the
    header as the digest is. None of these numbers is above the whole length and all conversions
    fail with the same error, so a single check stands for them. -/
def write (payloads : List Payload) : Except ContainerError (List UInt8) :=
  if digestStart + (coveredBytes payloads).length < UInt32.size then
    .ok (toBytes payloads)
  else
    .error .containerTooLarge

end Container

end ShaderBytecode
