import ShaderBytecode.Bytes.Cursor
import ShaderBytecode.Container.Basic

set_option autoImplicit false

/-! # Reading containers

Nothing in the bytes is trusted. The checks run in a fixed order, from the whole to the parts: there
are enough bytes for a header, the digest is right, the magic tag is right, the declared length is the
length of the bytes, the table fits, and then each chunk in turn lies behind the table and within the
bytes. The first check that fails gives the error. -/

namespace ShaderBytecode

/-- What a reader of containers insists on. -/
structure ParseOptions where
  /-- Refuse a container that does not store its own digest. -/
  verifyChecksum : Bool := true
  /-- Refuse a container with more chunks. -/
  maxChunks : Nat := 4096
  deriving DecidableEq, Repr

namespace Header

/-- Read a header. -/
def read : ByteReader Header := do
  let magic ← ByteReader.tag
  let checksum ← ByteReader.take 16
  let reserved ← ByteReader.uint32
  let totalSize ← ByteReader.number 4
  let chunkCount ← ByteReader.number 4
  return { magic, checksum, reserved, totalSize, chunkCount }

end Header

namespace Chunk

/-- Check the place of the chunk at `offset`, number `index` of a table that ends at `tableEnd`. -/
def checkAt (bytes : List UInt8) (tableEnd index offset : Nat) : Except ContainerError Unit := do
  if offset < tableEnd then
    throw (.chunkInsideTable index offset tableEnd)
  let start := offset + headerLength
  if start > bytes.length then
    throw (.chunkHeaderOutside index offset bytes.length)
  let tag ← ByteReader.tag.runAt bytes offset
  let size ← (ByteReader.number 4).runAt bytes (offset + 4)
  if start + size > bytes.length then
    throw (.chunkDataOutside index tag start (start + size) bytes.length)

end Chunk

namespace Container

/-- Read the table and check the place of every chunk that it lists. -/
def parseTable (bytes : List UInt8) (count : Nat) : Except ContainerError (List Nat) :=
  (List.range count).mapM fun index => do
    let offset ← (ByteReader.number 4).runAt bytes (Header.length + 4 * index)
    Chunk.checkAt bytes (Header.tableEnd count) index offset
    return offset

/-- Check a header against the bytes that it begins, the digest left aside. -/
def checkHeader (maxChunks : Nat) (bytes : List UInt8) (header : Header) :
    Except ContainerError Unit := do
  if header.magic ≠ .dxbc then
    throw (.badMagic header.magic)
  if header.totalSize ≠ bytes.length then
    throw (.sizeMismatch header.totalSize bytes.length)
  if header.chunkCount > maxChunks then
    throw (.tooManyChunks header.chunkCount maxChunks)
  let tableEnd := Header.tableEnd header.chunkCount
  if tableEnd > bytes.length then
    throw (.tableOutside tableEnd bytes.length)

/-- Read a container. -/
def parseWith (options : ParseOptions) (bytes : List UInt8) :
    Except ContainerError Container := do
  if bytes.length < Header.length then
    throw (.headerTooShort bytes.length)
  let header ← Header.read.runAt bytes 0
  if options.verifyChecksum then
    let computed := digest (bytes.drop digestStart)
    if header.checksum ≠ computed then
      throw (.checksumMismatch header.checksum computed)
  checkHeader options.maxChunks bytes header
  return { bytes, header, offsets := (← parseTable bytes header.chunkCount) }

/-- Read a container with the usual options. -/
def parse (bytes : List UInt8) : Except ContainerError Container := parseWith {} bytes

/-- Read a container whether or not it stores its own digest. -/
def parseUnverified (bytes : List UInt8) : Except ContainerError Container :=
  parseWith { verifyChecksum := false } bytes

end Container

end ShaderBytecode
