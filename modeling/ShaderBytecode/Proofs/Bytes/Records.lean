import Mathlib.Algebra.Group.Nat.Defs
import Mathlib.Data.List.Basic
import Mathlib.Data.List.Forall2
import ShaderBytecode.Proofs.Bytes.Reading

set_option autoImplicit false

/-! # Records that were stored

Bytes that hold a record at some place (`Holds`) are read there by the reader of such records: a
reader reads exactly the bytes of a value and returns the value (`ByteReader.Reads`), and readers
follow each other as their bytes do. A name is stored in UTF-8 with a zero behind it, so it can be
read back if it has no zero inside. -/

namespace ShaderBytecode

open LittleEndian (encode encodeAll)

/-! ## Bytes in their places -/

/-- The part stands at the offset. -/
def Holds (bytes : List UInt8) (offset : Nat) (part : List UInt8) : Prop :=
  ∃ front back, front.length = offset ∧ bytes = front ++ part ++ back

namespace Holds

variable {bytes part other : List UInt8} {offset : Nat}

theorem end_le (h : Holds bytes offset part) : offset + part.length ≤ bytes.length := by
  obtain ⟨front, back, rfl, rfl⟩ := h
  simp

theorem drop_eq (h : Holds bytes offset part) : ∃ back, bytes.drop offset = part ++ back := by
  obtain ⟨front, back, rfl, rfl⟩ := h
  exact ⟨back, by rw [List.append_assoc, List.drop_left]⟩

theorem of_drop_eq (hoffset : offset ≤ bytes.length)
    (h : ∃ back, bytes.drop offset = part ++ back) : Holds bytes offset part := by
  obtain ⟨back, hdrop⟩ := h
  refine ⟨bytes.take offset, back, List.length_take_of_le hoffset, ?_⟩
  rw [List.append_assoc, ← hdrop, List.take_append_drop]

theorem left (h : Holds bytes offset (part ++ other)) : Holds bytes offset part := by
  obtain ⟨front, back, hlength, rfl⟩ := h
  exact ⟨front, other ++ back, hlength, by simp only [List.append_assoc]⟩

theorem right (h : Holds bytes offset (part ++ other)) :
    Holds bytes (offset + part.length) other := by
  obtain ⟨front, back, rfl, rfl⟩ := h
  exact ⟨front ++ part, back, List.length_append, by simp only [List.append_assoc]⟩

theorem wordAt_eq {n : Nat} (h : Holds bytes offset (encode 4 n)) (hn : n < 2 ^ 32) :
    LittleEndian.wordAt bytes offset = n := by
  obtain ⟨back, hdrop⟩ := h.drop_eq
  rw [← Nat.add_zero offset, ← LittleEndian.wordAt_drop, hdrop,
    LittleEndian.wordAt_encode_append hn]

theorem of_prefix (h : Holds bytes offset part) (hpart : other <+: part) :
    Holds bytes offset other := by
  obtain ⟨rest, rfl⟩ := hpart
  exact h.left

end Holds

/-! ## Tables of records -/

/-- From the place on the bytes hold records of the given width, one for each item. -/
def HoldsRecords {α : Type} (bytes : List UInt8) (holds : α → Nat → Prop) (width : Nat) :
    List α → Nat → Prop
  | [], place => place ≤ bytes.length
  | item :: rest, place => holds item place ∧ HoldsRecords bytes holds width rest (place + width)

namespace HoldsRecords

variable {α : Type} {bytes : List UInt8} {holds : α → Nat → Prop} {width : Nat} {items : List α}
  {place : Nat}

theorem end_le (h : HoldsRecords bytes holds width items place) :
    place + items.length * width ≤ bytes.length := by
  induction items generalizing place with
  | nil =>
      rw [HoldsRecords] at h
      simpa using h
  | cons item rest ih =>
      have hrest := ih h.2
      rw [List.length_cons, Nat.succ_mul]
      omega

/-- What is so of every item whose record is held is so of the items by number, as a reader goes
    through the table. -/
theorem forall₂_range {R : Nat → α → Prop} (h : HoldsRecords bytes holds width items place)
    (hitem : ∀ item ∈ items, ∀ place, holds item place → R place item) :
    List.Forall₂ (fun number item => R (place + number * width) item)
      (List.range items.length) items := by
  induction items generalizing place with
  | nil => exact .nil
  | cons item rest ih =>
      rw [List.length_cons, List.range_succ_eq_map, List.forall₂_cons, List.forall₂_map_left_iff]
      obtain ⟨hfirst, hrest⟩ := List.forall_mem_cons.1 hitem
      refine ⟨by simpa using hfirst place h.1, (ih h.2 hrest).imp ?_⟩
      intro number item hnext
      have hplace : place + Nat.succ number * width = place + width + number * width := by
        rw [Nat.succ_mul]
        omega
      rw [hplace]
      exact hnext

theorem place_lt (h : HoldsRecords bytes holds width items place) (hsize : bytes.length < 2 ^ 32) :
    place < 2 ^ 32 :=
  Nat.lt_of_le_of_lt (Nat.le_of_add_right_le h.end_le) hsize

theorem length_lt (h : HoldsRecords bytes holds width items place) (hwidth : 0 < width)
    (hsize : bytes.length < 2 ^ 32) : items.length < 2 ^ 32 := by
  have hend := h.end_le
  have hmul := Nat.le_mul_of_pos_right items.length hwidth
  omega

end HoldsRecords

/-! ## Readers of stored values -/

namespace ByteReader

variable {α β : Type}

/-- The reader reads exactly the part and returns the value. -/
def Reads (reader : ByteReader α) (part : List UInt8) (a : α) : Prop :=
  ∀ bytes position, Holds bytes position part → bytes.length < UInt64.size →
    reader.run ⟨bytes, position⟩ = .ok a ⟨bytes, position + part.length⟩

namespace Reads

theorem pure (a : α) : Reads (Pure.pure a) [] a := fun _ _ _ _ => rfl

theorem bind {reader : ByteReader α} {next : α → ByteReader β} {part other : List UInt8} {a : α}
    {b : β} (hreader : reader.Reads part a) (hnext : (next a).Reads other b) :
    (reader >>= next).Reads (part ++ other) b := by
  intro bytes position hholds hsize
  rw [EStateM.run_bind, hreader bytes position hholds.left hsize]
  have hrun := hnext bytes _ hholds.right hsize
  rw [Nat.add_assoc, ← List.length_append] at hrun
  exact hrun

theorem bind_pure {reader : ByteReader α} {part : List UInt8} {a : α} (h : reader.Reads part a)
    (f : α → β) : (reader >>= fun a => Pure.pure (f a)).Reads part (f a) := by
  rw [← List.append_nil part]
  exact h.bind (pure (f a))

/-- Reading from a place where the part stands. -/
theorem runAt_eq {reader : ByteReader α} {part : List UInt8} {a : α} (h : reader.Reads part a)
    {bytes : List UInt8} {offset : Nat} (hholds : Holds bytes offset part)
    (hsize : bytes.length < 2 ^ 32) : reader.runAt bytes offset = .ok a := by
  have hle := hholds.end_le
  rw [runAt, ByteCursor.start, EStateM.run_bind, run_seek (by omega)]
  dsimp only
  rw [h bytes offset hholds (Nat.lt_trans hsize (by decide))]

end Reads

theorem reads_take (part : List UInt8) : (take part.length).Reads part part := by
  intro bytes position hholds hsize
  have hle := hholds.end_le
  obtain ⟨back, hdrop⟩ := hholds.drop_eq
  rw [takes_take part.length bytes position hle (by omega), hdrop]
  dsimp only
  rw [List.take_left]

theorem reads_number {n : Nat} (h : n < 2 ^ 32) : (number 4).Reads (encode 4 n) n := by
  have hread := (reads_take (encode 4 n)).bind_pure LittleEndian.decode
  have hvalue : n % LittleEndian.capacity 4 = n := Nat.mod_eq_of_lt h
  rw [LittleEndian.decode_encode, LittleEndian.length_encode, hvalue] at hread
  exact hread

theorem reads_uint32 (n : Nat) : uint32.Reads (encode 4 n) (UInt32.ofNat n) := by
  have hread := ((reads_take (encode 4 n)).bind_pure LittleEndian.decode).bind_pure UInt32.ofNat
  have hvalue : UInt32.ofNat (n % LittleEndian.capacity 4) = UInt32.ofNat n := by
    apply UInt32.toNat_inj.1
    rw [UInt32.toNat_ofNat', UInt32.toNat_ofNat']
    exact Nat.mod_mod n (2 ^ 32)
  rw [LittleEndian.decode_encode, LittleEndian.length_encode, hvalue] at hread
  exact hread

theorem reads_uint32_toNat (word : UInt32) : uint32.Reads (encode 4 word.toNat) word := by
  have hread := reads_uint32 word.toNat
  rw [UInt32.ofNat_toNat] at hread
  exact hread

theorem reads_uint16 (n : Nat) : uint16.Reads (encode 2 n) (UInt16.ofNat n) := by
  have hread := ((reads_take (encode 2 n)).bind_pure LittleEndian.decode).bind_pure UInt16.ofNat
  have hvalue : UInt16.ofNat (n % LittleEndian.capacity 2) = UInt16.ofNat n := by
    apply UInt16.toNat_inj.1
    rw [UInt16.toNat_ofNat', UInt16.toNat_ofNat']
    exact Nat.mod_mod n (2 ^ 16)
  rw [LittleEndian.decode_encode, LittleEndian.length_encode, hvalue] at hread
  exact hread

theorem reads_uint16_toNat (word : UInt16) : uint16.Reads (encode 2 word.toNat) word := by
  have hread := reads_uint16 word.toNat
  rw [UInt16.ofNat_toNat] at hread
  exact hread

theorem reads_uint8 (byte : UInt8) : uint8.Reads [byte] byte := by
  have hread := ((reads_take [byte]).bind_pure LittleEndian.decode).bind_pure UInt8.ofNat
  have hvalue : UInt8.ofNat (LittleEndian.decode [byte]) = byte := UInt8.ofNat_toNat
  rw [hvalue] at hread
  exact hread

end ByteReader

/-! ## Names -/

/-- The bytes of a stored name, with the zero that ends it. -/
def nameBytes (name : String) : List UInt8 := name.toUTF8.data.toList ++ [0]

/-- No character of the name is the zero that ends stored names. -/
def NulFree (name : String) : Prop := '\x00' ∉ name.toList

instance (name : String) : Decidable (NulFree name) := inferInstanceAs (Decidable (_ ∉ _))

theorem zero_notMem_utf8EncodeChar {c : Char} (h : c ≠ '\x00') : 0 ∉ String.utf8EncodeChar c := by
  have hpos : c.val.toNat ≠ 0 := fun hzero => h (Char.ext (UInt32.toNat_inj.1 hzero))
  intro hmem
  unfold String.utf8EncodeChar at hmem
  -- Every byte but that of a character below 128 has its highest bit set.
  dsimp only at hmem
  repeat' split at hmem
  all_goals
    simp only [List.mem_cons, List.not_mem_nil, or_false, ← UInt8.toNat_inj, UInt8.toNat_ofNat',
      UInt8.toNat_zero] at hmem
    omega

theorem toList_toUTF8 (name : String) :
    name.toUTF8.data.toList = name.toList.flatMap String.utf8EncodeChar := by
  rw [String.toUTF8, ← String.utf8Encode_toList, List.utf8Encode, List.data_toByteArray]

theorem nulFree_iff {name : String} : NulFree name ↔ 0 ∉ name.toUTF8.data.toList := by
  rw [toList_toUTF8, List.mem_flatMap]
  constructor
  · rintro h ⟨c, hc, hmem⟩
    refine zero_notMem_utf8EncodeChar ?_ hmem
    rintro rfl
    exact h hc
  · intro h hmem
    exact h ⟨'\x00', hmem, by decide⟩

theorem fromUTF8?_toUTF8 (name : String) : String.fromUTF8? name.toUTF8 = some name :=
  dif_pos name.isValidUTF8

theorem toUTF8_of_fromUTF8? {bytes : ByteArray} {name : String}
    (h : String.fromUTF8? bytes = some name) : name.toUTF8 = bytes := by
  unfold String.fromUTF8? at h
  split at h
  · obtain rfl := Option.some.inj h
    rfl
  · cases h

theorem takeWhile_ne_zero {front : List UInt8} (h : 0 ∉ front) (back : List UInt8) :
    (front ++ 0 :: back).takeWhile (· ≠ 0) = front := by
  have hall : ∀ b ∈ front, decide (b ≠ 0) = true := by
    intro b hb
    exact decide_eq_true fun heq => h (heq ▸ hb)
  rw [List.takeWhile_append_of_pos hall, List.takeWhile_cons_of_neg (by simp), List.append_nil]

/-- A string that is read is stored where it is read from, and has no zero inside, since the first
    one ends it. -/
theorem holds_of_stringAt {bytes : List UInt8} {offset : Nat} {name : String}
    (h : stringAt bytes offset = .ok name) :
    NulFree name ∧ Holds bytes offset (nameBytes name) := by
  unfold stringAt at h
  split at h
  · cases h
  · next hinside =>
      dsimp only at h
      split at h
      · next hzero =>
          obtain ⟨front, back, htail, hfront⟩ := List.eq_append_cons_of_mem hzero
          rw [htail, takeWhile_ne_zero hfront] at h
          split at h
          · next s hs =>
              obtain rfl := Except.ok.inj h
              have hbytes : s.toUTF8.data.toList = front := by rw [toUTF8_of_fromUTF8? hs]
              refine ⟨nulFree_iff.2 (hbytes ▸ hfront), .of_drop_eq (by omega) ⟨back, ?_⟩⟩
              rw [htail, nameBytes, hbytes, List.append_assoc, List.singleton_append]
          · cases h
      · cases h

theorem nulFree_of_stringAt {bytes : List UInt8} {offset : Nat} {name : String}
    (h : stringAt bytes offset = .ok name) : NulFree name := (holds_of_stringAt h).1

/-- A stored name is read. -/
theorem stringAt_of_holds {bytes : List UInt8} {offset : Nat} {name : String}
    (hname : NulFree name) (h : Holds bytes offset (nameBytes name)) :
    stringAt bytes offset = .ok name := by
  have hinside : ¬ offset > bytes.length := by
    have hle := h.end_le
    omega
  obtain ⟨back, hdrop⟩ := h.drop_eq
  have htail : bytes.drop offset = name.toUTF8.data.toList ++ 0 :: back := by
    rw [hdrop, nameBytes, List.append_assoc, List.singleton_append]
  have hzero : 0 ∈ bytes.drop offset := by
    rw [htail]
    exact List.mem_append_right _ List.mem_cons_self
  have htake : (bytes.drop offset).takeWhile (· ≠ 0) = name.toUTF8.data.toList := by
    rw [htail, takeWhile_ne_zero (nulFree_iff.1 hname)]
  unfold stringAt
  rw [if_neg hinside]
  dsimp only
  rw [if_pos hzero, htake, Array.toArray_toList]
  have hstring : String.fromUTF8? ⟨name.toUTF8.data⟩ = some name := fromUTF8?_toUTF8 name
  rw [hstring]

/-- Exactly the names that are stored at a place are read there. -/
theorem stringAt_eq_ok_iff {bytes : List UInt8} {offset : Nat} {name : String} :
    stringAt bytes offset = .ok name ↔ NulFree name ∧ Holds bytes offset (nameBytes name) :=
  ⟨holds_of_stringAt, fun h => stringAt_of_holds h.1 h.2⟩

end ShaderBytecode
