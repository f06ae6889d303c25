import Mathlib.Algebra.Group.Nat.Defs
import ShaderBytecode.Bytes.Cursor
import ShaderBytecode.Proofs.Steps

set_option autoImplicit false

/-! # What readers of bytes return

A number or a tag in a buffer is a function of the bytes and its place (`LittleEndian.wordAt`,
`Tag.at`), with no cursor and no failure. A reader of a record of fixed length returns such a
function of the bytes behind the cursor, provided that enough of them are left
(`ByteReader.Takes`). -/

namespace ShaderBytecode

/-- The number in the four bytes from `offset` on. -/
def LittleEndian.wordAt (bytes : List UInt8) (offset : Nat) : Nat :=
  decode ((bytes.drop offset).take 4)

/-- The tag in the four bytes from `offset` on. -/
def Tag.at (bytes : List UInt8) (offset : Nat) : Tag :=
  let tail := bytes.drop offset
  ⟨tail.getD 0 0, tail.getD 1 0, tail.getD 2 0, tail.getD 3 0⟩

theorem LittleEndian.wordAt_lt (bytes : List UInt8) (offset : Nat) :
    wordAt bytes offset < 2 ^ 32 := by
  have hlen : ((bytes.drop offset).take 4).length ≤ 4 := List.length_take_le _ _
  have hcapacity : ∀ n ≤ 4, capacity n ≤ 2 ^ 32 := by decide
  exact Nat.lt_of_lt_of_le (decode_lt _) (hcapacity _ hlen)

theorem LittleEndian.wordAt_drop (bytes : List UInt8) (start offset : Nat) :
    wordAt (bytes.drop start) offset = wordAt bytes (start + offset) := by
  rw [wordAt, wordAt, List.drop_drop]

theorem Tag.at_drop (bytes : List UInt8) (start offset : Nat) :
    Tag.at (bytes.drop start) offset = Tag.at bytes (start + offset) := by
  simp only [Tag.at, List.drop_drop]

/-! ## Numbers that were stored -/

namespace LittleEndian

/-- Only the lowest bytes of a number are stored. -/
theorem encode_mod (count n : Nat) : encode count (n % capacity count) = encode count n := by
  induction count generalizing n with
  | zero => rfl
  | succ count ih =>
      have hlow : UInt8.ofNat (n % capacity (count + 1)) = UInt8.ofNat n := by
        apply UInt8.toNat_inj.1
        rw [UInt8.toNat_ofNat', UInt8.toNat_ofNat', capacity]
        exact Nat.mod_mul_right_mod n 256 (capacity count)
      have hhigh : n % capacity (count + 1) / 256 = n / 256 % capacity count := by
        rw [capacity, Nat.mod_mul_right_div_self]
      rw [encode, encode, hlow, hhigh, ih]

theorem wordAt_append (front rest : List UInt8) (offset : Nat) :
    wordAt (front ++ rest) (front.length + offset) = wordAt rest offset := by
  rw [wordAt, ← List.drop_drop, List.drop_left, ← wordAt]

theorem wordAt_encode_append {n : Nat} (h : n < 2 ^ 32) (rest : List UInt8) :
    wordAt (encode 4 n ++ rest) 0 = n := by
  have hlen : (encode 4 n).length = 4 := length_encode 4 n
  rw [wordAt, List.drop_zero, List.take_left' hlen, decode_encode]
  exact Nat.mod_eq_of_lt h

/-- Every number of a stored sequence is found at its place. -/
theorem wordAt_encodeAll_append {ns : List Nat} (h : ∀ n ∈ ns, n < 2 ^ 32) (rest : List UInt8)
    {i : Nat} (hi : i < ns.length) : wordAt (encodeAll 4 ns ++ rest) (4 * i) = ns[i] := by
  induction ns generalizing i with
  | nil => cases hi
  | cons n ns ih =>
      obtain ⟨hn, hns⟩ := List.forall_mem_cons.1 h
      have hsplit : encodeAll 4 (n :: ns) ++ rest = encode 4 n ++ (encodeAll 4 ns ++ rest) := by
        rw [encodeAll, List.flatMap_cons, List.append_assoc, ← encodeAll]
      rw [hsplit]
      cases i with
      | zero => exact wordAt_encode_append hn _
      | succ i =>
          have hplace : 4 * (i + 1) = (encode 4 n).length + 4 * i := by
            rw [length_encode]
            omega
          rw [hplace, wordAt_append]
          exact ih hns (Nat.lt_of_succ_lt_succ hi)

end LittleEndian

/-! ## Readers of fixed length -/

namespace ByteReader

variable {α β : Type}

theorem run_seek {bytes : List UInt8} {offset position : Nat} (h : offset ≤ bytes.length) :
    (seek offset).run ⟨bytes, position⟩ = .ok () ⟨bytes, offset⟩ := by
  have hinside : ¬ offset > bytes.length := Nat.not_lt.2 h
  simp only [seek, EStateM.run_bind, EStateM.run_get, hinside, if_false]
  rfl

/-- The reader reads `count` bytes and returns a function of what lies behind the cursor. -/
def Takes (reader : ByteReader α) (count : Nat) (value : List UInt8 → α) : Prop :=
  ∀ bytes position, position + count ≤ bytes.length → position + count < UInt64.size →
    reader.run ⟨bytes, position⟩ = .ok (value (bytes.drop position)) ⟨bytes, position + count⟩

namespace Takes

theorem pure (a : α) : Takes (Pure.pure a) 0 fun _ => a := fun _ _ _ _ => rfl

theorem bind {reader : ByteReader α} {next : α → ByteReader β} {m n : Nat}
    {f : List UInt8 → α} {g : α → List UInt8 → β} (hreader : reader.Takes m f)
    (hnext : ∀ a, (next a).Takes n (g a)) :
    (reader >>= next).Takes (m + n) fun bytes => g (f bytes) (bytes.drop m) := by
  intro bytes position hlen hsize
  rw [EStateM.run_bind, hreader bytes position (by omega) (by omega)]
  have h := hnext (f (bytes.drop position)) bytes (position + m) (by omega) (by omega)
  rw [← List.drop_drop, Nat.add_assoc] at h
  exact h

theorem bind_pure {reader : ByteReader α} {n : Nat} {f : List UInt8 → α} (h : reader.Takes n f)
    (g : α → β) : (reader >>= fun a => Pure.pure (g a)).Takes n fun bytes => g (f bytes) :=
  h.bind fun a => .pure (g a)

/-- Reading from a place in a buffer needs no more than enough bytes behind it. -/
theorem runAt_eq {reader : ByteReader α} {n : Nat} {f : List UInt8 → α} (h : reader.Takes n f)
    {bytes : List UInt8} {offset : Nat} (hlen : offset + n ≤ bytes.length)
    (hsize : offset + n < UInt64.size) :
    reader.runAt bytes offset = .ok (f (bytes.drop offset)) := by
  rw [runAt, ByteCursor.start, EStateM.run_bind, run_seek (by omega)]
  dsimp only
  rw [h bytes offset hlen hsize]

end Takes

theorem takes_take (count : Nat) : (take count).Takes count (·.take count) := by
  intro bytes position hlen hsize
  have hshort : ¬ position + count ≥ UInt64.size := Nat.not_le.2 hsize
  have hinside : ¬ position + count > bytes.length := Nat.not_lt.2 hlen
  simp only [take, EStateM.run_bind, EStateM.run_get, hshort, hinside, if_false]
  rfl

theorem takes_number : (number 4).Takes 4 (LittleEndian.wordAt · 0) :=
  (takes_take 4).bind_pure LittleEndian.decode

theorem takes_uint32 : uint32.Takes 4 fun bytes => UInt32.ofNat (LittleEndian.wordAt bytes 0) :=
  takes_number.bind_pure UInt32.ofNat

theorem takes_tag : tag.Takes 4 (Tag.at · 0) := by
  have h := (takes_take 4).bind_pure fun bytes =>
    Tag.mk (bytes.getD 0 0) (bytes.getD 1 0) (bytes.getD 2 0) (bytes.getD 3 0)
  intro bytes position hlen hsize
  have hrun := h bytes position hlen hsize
  simpa [Tag.at, tag, List.getElem?_take] using hrun

/-- The number at a place in a buffer. -/
theorem runAt_number {bytes : List UInt8} {offset : Nat} (hlen : offset + 4 ≤ bytes.length)
    (hsize : offset + 4 < UInt64.size) :
    (number 4).runAt bytes offset = .ok (LittleEndian.wordAt bytes offset) := by
  rw [takes_number.runAt_eq hlen hsize, LittleEndian.wordAt_drop, Nat.add_zero]

/-- The tag at a place in a buffer. -/
theorem runAt_tag {bytes : List UInt8} {offset : Nat} (hlen : offset + 4 ≤ bytes.length)
    (hsize : offset + 4 < UInt64.size) : tag.runAt bytes offset = .ok (Tag.at bytes offset) := by
  rw [takes_tag.runAt_eq hlen hsize, Tag.at_drop, Nat.add_zero]

end ByteReader

end ShaderBytecode
