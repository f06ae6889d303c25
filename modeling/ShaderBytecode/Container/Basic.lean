import ShaderBytecode.Container.Error
import ShaderBytecode.Digest.Basic

set_option autoImplicit false

/-! # Containers

A container has a header, a table of offsets and chunks of data with a tag each. The table gives the
order of the chunks; their places may be in any order and may overlap. Several chunks may have the
same tag, and whoever looks for one gets the first.

A container keeps its bytes and the offsets; the chunks are taken from the bytes when they are asked
for, and an offset at which no chunk lies gives none. -/

namespace ShaderBytecode

/-- The fixed part at the start of a container. -/
structure Header where
  magic : Tag
  /-- The stored digest of everything after it. -/
  checksum : List UInt8
  /-- A field of no meaning, in which compilers write 1. -/
  reserved : UInt32
  /-- The length of the container in bytes. -/
  totalSize : Nat
  chunkCount : Nat
  deriving DecidableEq, Repr

/-- The length of the header. -/
def Header.length : Nat := 32

/-- Where the table of a container with the given number of chunks ends. -/
def Header.tableEnd (chunkCount : Nat) : Nat := Header.length + 4 * chunkCount

/-- A piece of data with a tag. -/
structure Chunk where
  tag : Tag
  /-- Where the tag stands in the container. -/
  offset : Nat
  data : List UInt8
  deriving DecidableEq, Repr

/-- The `count` bytes from `start` on, if there are so many. -/
def slice? (bytes : List UInt8) (start count : Nat) : Option (List UInt8) :=
  if start + count ≤ bytes.length then some ((bytes.drop start).take count) else none

namespace Chunk

/-- The length of what stands before the data: the tag and the length of the data. -/
def headerLength : Nat := 8

/-- The chunk at `offset`, if all of it lies within the bytes. -/
def at? (bytes : List UInt8) (offset : Nat) : Option Chunk := do
  let head ← slice? bytes offset headerLength
  let tag ← Tag.ofList? head
  let data ← slice? bytes (offset + headerLength) (LittleEndian.decode (head.drop 4))
  return { tag, offset, data }

/-- The chunk in a dump of values. -/
def debugText (chunk : Chunk) : String :=
  let length := chunk.data.length
  "DxbcChunk \x7b fourcc: " ++ chunk.tag.debugText
    ++ s!", offset: {chunk.offset}, data_len: {length} " ++ "\x7d"

end Chunk

/-- A container that was read. -/
structure Container where
  /-- All its bytes. -/
  bytes : List UInt8
  header : Header
  /-- The table. -/
  offsets : List Nat
  deriving DecidableEq, Repr

namespace Container

/-- How many bytes at the start the digest does not cover: the magic tag and the digest itself. -/
def digestStart : Nat := 20

/-- The digest that the bytes of a container should store, if they are long enough to store one. -/
def digest? (bytes : List UInt8) : Option (List UInt8) :=
  if bytes.length < digestStart then none else some (digest (bytes.drop digestStart))

/-- Does the container store its own digest? -/
def checksumMatches (container : Container) : Bool :=
  digest? container.bytes == some container.header.checksum

/-! ## Looking up chunks -/

/-- The chunks in the order of the table. -/
def chunks (container : Container) : List Chunk :=
  container.offsets.filterMap (Chunk.at? container.bytes)

/-- The first chunk with the given tag. -/
def chunk? (container : Container) (tag : Tag) : Option Chunk :=
  container.chunks.find? (·.tag == tag)

/-- All chunks with the given tag. -/
def chunksWith (container : Container) (tag : Tag) : List Chunk :=
  container.chunks.filter (·.tag == tag)

/-- The chunk that holds the program, of shader model 5 if there is one, else of shader model 4. -/
def shaderChunk? (container : Container) : Option Chunk :=
  container.chunk? .shex <|> container.chunk? .shdr

/-! ## Summary -/

/-- The line of the summary for chunk number `index`. -/
def chunkLine (chunk : Chunk) (index : Nat) : String :=
  let number := padLeft '0' 2 (toString index)
  let length := chunk.data.length
  s!"\n  [{number}] {chunk.tag.text} @{chunk.offset} {length} bytes"

/-- The container at a glance: a line for the header and one for each chunk. -/
def summary (container : Container) : String :=
  let header := container.header
  s!"{header.magic.text} total_size={header.totalSize} chunk_count={header.chunkCount}"
    ++ String.join (container.chunks.zipIdx.map fun (chunk, index) => chunkLine chunk index)

end Container

end ShaderBytecode
