import ShaderBytecode.Bytes.LittleEndian
import ShaderBytecode.Container.Error

set_option autoImplicit false

/-! # Reading bytes

A `ByteCursor` is a place in a buffer. A `ByteReader` reads from there; a read that fails leaves the
cursor where it was. Strings are read from any place of the buffer without moving the cursor. -/

namespace ShaderBytecode

/-- A place in a buffer. -/
structure ByteCursor where
  bytes : List UInt8
  position : Nat
  deriving DecidableEq, Repr

namespace ByteCursor

/-- The start of a buffer. -/
def start (bytes : List UInt8) : ByteCursor := ⟨bytes, 0⟩

/-- How many bytes lie after the cursor. -/
def remaining (c : ByteCursor) : Nat := c.bytes.length - c.position

end ByteCursor

/-- The string that starts at `offset` and ends before the next zero byte. -/
def stringAt (bytes : List UInt8) (offset : Nat) : Except ContainerError String :=
  if offset > bytes.length then
    .error (.stringOutside offset bytes.length)
  else
    let tail := bytes.drop offset
    if 0 ∈ tail then
      match String.fromUTF8? ⟨(tail.takeWhile (· ≠ 0)).toArray⟩ with
      | some s => .ok s
      | none => .error (.stringNotUtf8 offset)
    else
      .error (.stringUnterminated offset)

/-- A step that reads bytes. -/
abbrev ByteReader : Type → Type := EStateM ContainerError ByteCursor

namespace ByteReader

/-- Read `count` bytes. Positions are 64-bit numbers. -/
def take (count : Nat) : ByteReader (List UInt8) := do
  let c ← get
  if c.position + count ≥ UInt64.size then
    throw (.readTooLong count c.position)
  if c.position + count > c.bytes.length then
    throw (.readOutside count c.position c.bytes.length)
  set { c with position := c.position + count }
  return (c.bytes.drop c.position).take count

/-- Read a number of `count` bytes. -/
def number (count : Nat) : ByteReader Nat := return LittleEndian.decode (← take count)

def uint8 : ByteReader UInt8 := return UInt8.ofNat (← number 1)
def uint16 : ByteReader UInt16 := return UInt16.ofNat (← number 2)
def uint32 : ByteReader UInt32 := return UInt32.ofNat (← number 4)

/-- Read a tag. -/
def tag : ByteReader Tag := do
  let bytes ← take 4
  return ⟨bytes.getD 0 0, bytes.getD 1 0, bytes.getD 2 0, bytes.getD 3 0⟩

/-- Go to `offset`, which may be the end of the buffer but not beyond. -/
def seek (offset : Nat) : ByteReader Unit := do
  let c ← get
  if offset > c.bytes.length then
    throw (.seekOutside offset c.bytes.length)
  set { c with position := offset }

/-- Read the string at `offset` without moving. -/
def string (offset : Nat) : ByteReader String := do
  match stringAt (← get).bytes offset with
  | .ok s => return s
  | .error e => throw e

/-- Read the name at `offset` without moving; an error tells what was to be named. -/
def name (owner : NameOwner) (offset : Nat) : ByteReader String := do
  match stringAt (← get).bytes offset with
  | .ok s => return s
  | .error e => throw (.badName owner e)

/-- Read from a place in a buffer. -/
def runAt {α : Type} (reader : ByteReader α) (bytes : List UInt8) (offset : Nat) :
    Except ContainerError α :=
  match (seek offset >>= fun _ => reader).run (.start bytes) with
  | .ok a _ => .ok a
  | .error e _ => .error e

end ByteReader

end ShaderBytecode
