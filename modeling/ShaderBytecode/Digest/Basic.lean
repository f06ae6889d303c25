import ShaderBytecode.Digest.Compression

set_option autoImplicit false

/-! # The digest of a container

A container is protected by a digest of everything after the digest itself. Whole blocks of 64 bytes
are compressed as they come. What is left is put into a last block together with the length, which is
stored twice: eight times the length in the first word, and twice the length plus one in the last.
Between them stand the remaining bytes and a marker; if they do not fit there, they get a block of
their own. -/

namespace ShaderBytecode

namespace Digest

/-- How long a block is. -/
def blockLength : Nat := 64

/-- Remaining bytes from this length on get a block of their own. -/
def tailLimit : Nat := 56

/-- A block of zeros. -/
def emptyBlock : List UInt8 := List.replicate blockLength 0

/-- Overwrite part of a block. -/
def put (offset : Nat) (bytes block : List UInt8) : List UInt8 :=
  block.take offset ++ bytes ++ block.drop (offset + bytes.length)

theorem length_put {offset : Nat} {bytes block : List UInt8}
    (h : offset + bytes.length ≤ block.length) : (put offset bytes block).length = block.length := by
  simp only [put, List.length_append, List.length_take, List.length_drop]
  omega

/-- The words that hold the length of the whole input, modulo `2 ^ 32`. -/
def lengthWords (length : Nat) (block : List UInt8) : List UInt8 :=
  put 60 (LittleEndian.encode 4 (2 * length + 1))
    (put 0 (LittleEndian.encode 4 (8 * length)) block)

/-- Remaining bytes and the marker after them. -/
def putTail (offset : Nat) (tail block : List UInt8) : List UInt8 :=
  put (offset + tail.length) [0x80] (put offset tail block)

/-- Work the first `count` blocks of `data` into a state. -/
def absorb : Nat → List UInt8 → DigestState → DigestState
  | 0, _, s => s
  | count + 1, data, s => absorb count (data.drop blockLength) (s.compress (data.take blockLength))

/-- Work the remaining bytes of an input of the given length into a state. -/
def finish (length : Nat) (tail : List UInt8) (s : DigestState) : DigestState :=
  if tail.length < tailLimit then
    s.compress (putTail 4 tail (lengthWords length emptyBlock))
  else
    (s.compress (putTail 0 tail emptyBlock)).compress (lengthWords length emptyBlock)

end Digest

/-- The digest of some bytes. -/
def digest (data : List UInt8) : List UInt8 :=
  let count := data.length / Digest.blockLength
  let tail := data.drop (count * Digest.blockLength)
  (Digest.finish data.length tail (Digest.absorb count data .initial)).toBytes

end ShaderBytecode
