import Mathlib.Algebra.Group.Nat.Defs
import ShaderBytecode.Coded
import ShaderBytecode.Lanes
import ShaderBytecode.Token.BitRange

set_option autoImplicit false

/-! # Laws of bit ranges

Reading and writing a field are described bit by bit first (`bitAt_get`, `bitAt_set`); every law
about fields follows by comparing words bit by bit. A field reads back what was written to it, cut to
its width, and fields that share no bit do not see each other's writes. `BitRange.get_fill_of_mem`
puts the two together for a word that is filled field by field, which is how every token is made. -/

namespace ShaderBytecode

/-! ## Words bit by bit -/

/-- Bit `i` of a word, bit 0 being the least significant; `false` from bit 32 on. -/
def bitAt (word : UInt32) (i : Nat) : Bool := word.toBitVec.getLsbD i

theorem eq_of_bitAt {a b : UInt32} (h : ∀ i, i < 32 → bitAt a i = bitAt b i) : a = b := by
  apply UInt32.toBitVec_inj.1
  exact BitVec.eq_of_getLsbD_eq fun i hi => h i hi

theorem bitAt_eq_testBit (word : UInt32) (i : Nat) : bitAt word i = word.toNat.testBit i := rfl

theorem bitAt_and (a b : UInt32) (i : Nat) : bitAt (a &&& b) i = (bitAt a i && bitAt b i) := by
  simp [bitAt]

theorem bitAt_or (a b : UInt32) (i : Nat) : bitAt (a ||| b) i = (bitAt a i || bitAt b i) := by
  simp [bitAt]

theorem bitAt_xor (a b : UInt32) (i : Nat) : bitAt (a ^^^ b) i = (bitAt a i ^^ bitAt b i) := by
  simp [bitAt]

theorem bitAt_not (a : UInt32) {i : Nat} (h : i < 32) : bitAt (~~~a) i = !bitAt a i := by
  simp [bitAt, h]

theorem bitAt_shiftRight (a : UInt32) {n : Nat} (hn : n < 32) (i : Nat) :
    bitAt (a >>> UInt32.ofNat n) i = bitAt a (n + i) := by
  simp [bitAt, UInt32.toBitVec_shiftRight, Nat.mod_eq_of_lt hn]

theorem bitAt_shiftLeft (a : UInt32) {n i : Nat} (hn : n < 32) (hi : i < 32) :
    bitAt (a <<< UInt32.ofNat n) i = (decide (n ≤ i) && bitAt a (i - n)) := by
  by_cases h : n ≤ i
  · have hlt : ¬ i < n := by omega
    have hsub : i - n < 32 := by omega
    simp [bitAt, UInt32.toBitVec_shiftLeft, Nat.mod_eq_of_lt hn, hi, h, hlt, hsub]
  · have hlt : i < n := by omega
    simp [bitAt, UInt32.toBitVec_shiftLeft, Nat.mod_eq_of_lt hn, hi, h, hlt]

namespace BitRange

theorem lo_lt (r : BitRange) : r.lo < 32 := by
  have := r.lo_le_hi
  have := r.hi_le
  omega

theorem bitAt_valueMask (r : BitRange) (i : Nat) : bitAt r.valueMask i = decide (i < r.width) := by
  have hpos := r.width_pos
  have hle := r.width_le
  have hones : bitAt 0xFFFFFFFF (32 - r.width + i) = decide (32 - r.width + i < 32) := by
    rw [bitAt_eq_testBit]
    exact Nat.testBit_two_pow_sub_one 32 _
  rw [valueMask, bitAt_shiftRight _ (by omega), hones]
  simp only [decide_eq_decide]
  omega

theorem bitAt_fieldMask (r : BitRange) {i : Nat} (hi : i < 32) :
    bitAt r.fieldMask i = decide (r.lo ≤ i ∧ i ≤ r.hi) := by
  have hw := r.lo_add_width
  rw [fieldMask, bitAt_shiftLeft _ r.lo_lt hi, bitAt_valueMask]
  by_cases h : r.lo ≤ i <;> simp [h]
  omega

/-- The bits of a field are the bits of the word from `lo` on, and zeros above its width. -/
theorem bitAt_get (r : BitRange) (word : UInt32) (i : Nat) :
    bitAt (r.get word) i = (decide (i < r.width) && bitAt word (r.lo + i)) := by
  rw [get, bitAt_and, bitAt_shiftRight _ r.lo_lt, bitAt_valueMask, Bool.and_comm]

/-- Writing a field replaces the bits of the range and no other. -/
theorem bitAt_set (r : BitRange) (word value : UInt32) {i : Nat} (hi : i < 32) :
    bitAt (r.set word value) i
      = if r.lo ≤ i ∧ i ≤ r.hi then bitAt value (i - r.lo) else bitAt word i := by
  have hw := r.lo_add_width
  rw [set, bitAt_or, bitAt_and, bitAt_not _ hi, bitAt_fieldMask r hi, bitAt_shiftLeft _ r.lo_lt hi,
    bitAt_and, bitAt_valueMask]
  by_cases h : r.lo ≤ i ∧ i ≤ r.hi
  · have hin : i - r.lo < r.width := by omega
    simp [h, hin]
  · by_cases hlo : r.lo ≤ i
    · have hout : ¬ i - r.lo < r.width := by omega
      simp [h, hout]
    · simp [hlo]

/-! ## Values that fit -/

theorem toNat_valueMask (r : BitRange) : r.valueMask.toNat = 2 ^ r.width - 1 := by
  apply Nat.eq_of_testBit_eq
  intro i
  rw [← bitAt_eq_testBit, bitAt_valueMask, Nat.testBit_two_pow_sub_one]

theorem fits_iff_toNat_lt (r : BitRange) (value : UInt32) :
    r.fits value ↔ value.toNat < 2 ^ r.width := by
  have hpos : 0 < 2 ^ r.width := Nat.two_pow_pos _
  simp only [fits, decide_eq_true_eq, UInt32.le_iff_toNat_le, toNat_valueMask]
  omega

theorem and_valueMask_of_fits {r : BitRange} {value : UInt32} (h : r.fits value) :
    value &&& r.valueMask = value := by
  apply eq_of_bitAt
  intro i _
  rw [bitAt_and, bitAt_valueMask]
  by_cases hi : i < r.width
  · simp [hi]
  · have hpow : 2 ^ r.width ≤ 2 ^ i := Nat.pow_le_pow_right (by omega) (by omega)
    have hlt : value.toNat < 2 ^ i := Nat.lt_of_lt_of_le ((fits_iff_toNat_lt r value).1 h) hpow
    simp [hi, bitAt_eq_testBit, Nat.testBit_lt_two_pow hlt]

/-- What is read from a field fits the field. -/
theorem fits_get (r : BitRange) (word : UInt32) : r.fits (r.get word) := by
  simp only [fits, decide_eq_true_eq, UInt32.le_iff_toNat_le, get, UInt32.toNat_and]
  exact Nat.and_le_right

/-- The numbers of an enumeration fit a field if they all do, which can be computed. -/
theorem fits_code {α : Type} [Coded α] {r : BitRange}
    (h : (Coded.members (α := α)).all (fun a => r.fits (Coded.code a)) = true) (a : α) :
    r.fits (Coded.code a) := by
  have hmem : a ∈ Coded.members := List.mem_of_find?_eq_some (Coded.find?_code a)
  exact List.all_eq_true.1 h a hmem

/-! ## Independent fields -/

/-- Two ranges that share no bit. -/
def Disjoint (r s : BitRange) : Prop := r.hi < s.lo ∨ s.hi < r.lo

instance (r s : BitRange) : Decidable (r.Disjoint s) :=
  inferInstanceAs (Decidable (r.hi < s.lo ∨ s.hi < r.lo))

theorem Disjoint.symm {r s : BitRange} (h : r.Disjoint s) : s.Disjoint r := Or.symm h

/-- A field reads back what was written to it, cut to its width. -/
theorem get_set_self (r : BitRange) (word value : UInt32) :
    r.get (r.set word value) = value &&& r.valueMask := by
  have hw := r.lo_add_width
  have hhi := r.hi_le
  apply eq_of_bitAt
  intro i _
  rw [bitAt_get, bitAt_and, bitAt_valueMask]
  by_cases hi : i < r.width
  · have hin : r.lo ≤ r.lo + i ∧ r.lo + i ≤ r.hi := by omega
    rw [bitAt_set r word value (by omega), if_pos hin]
    simp [hi]
  · simp [hi]

/-- Writing a field leaves the fields it shares no bit with as they were. -/
theorem get_set_of_disjoint {r s : BitRange} (h : r.Disjoint s) (word value : UInt32) :
    s.get (r.set word value) = s.get word := by
  have hw := s.lo_add_width
  have hhi := s.hi_le
  apply eq_of_bitAt
  intro i _
  rw [bitAt_get, bitAt_get]
  by_cases hi : i < s.width
  · have hout : ¬ (r.lo ≤ s.lo + i ∧ s.lo + i ≤ r.hi) := by
      unfold Disjoint at h
      omega
    rw [bitAt_set r word value (by omega), if_neg hout]
  · simp [hi]

/-- A token that holds one field only reads that field back. -/
theorem get_place {r : BitRange} {value : UInt32} (h : r.fits value) :
    r.get (r.place value) = value := by
  rw [place, get_set_self, and_valueMask_of_fits h]

/-! ## Words put together with bitwise operations -/

theorem get_or (r : BitRange) (a b : UInt32) : r.get (a ||| b) = r.get a ||| r.get b := by
  apply eq_of_bitAt
  intro i _
  simp only [bitAt_get, bitAt_or, Bool.and_or_distrib_left]

theorem get_and (r : BitRange) (a b : UInt32) : r.get (a &&& b) = r.get a &&& r.get b := by
  apply eq_of_bitAt
  intro i _
  simp only [bitAt_get, bitAt_and]
  cases decide (i < r.width) <;> simp

/-- A number that fits a field at the low end of the word is what the field reads. -/
theorem get_of_fits {r : BitRange} {value : UInt32} (hlo : r.lo = 0) (h : r.fits value) :
    r.get value = value := by
  have hshift : value >>> UInt32.ofNat r.lo = value := by simp [hlo]
  rw [get, hshift, and_valueMask_of_fits h]

/-- A field that lies above every bit of a number reads zero. -/
theorem get_of_toNat_lt {r : BitRange} {value : UInt32} (h : value.toNat < 2 ^ r.lo) :
    r.get value = 0 := by
  apply eq_of_bitAt
  intro i _
  have hpow : 2 ^ r.lo ≤ 2 ^ (r.lo + i) := Nat.pow_le_pow_right (by omega) (by omega)
  have hbit : bitAt value (r.lo + i) = false := Nat.testBit_lt_two_pow (Nat.lt_of_lt_of_le h hpow)
  rw [bitAt_get, hbit, bitAt_eq_testBit]
  simp

/-! ## Words filled field by field -/

@[simp] theorem fill_nil (word : UInt32) : fill word [] = word := rfl

@[simp] theorem fill_cons (word value : UInt32) (r : BitRange)
    (fields : List (BitRange × UInt32)) :
    fill word ((r, value) :: fields) = fill (r.set word value) fields := rfl

/-- Fields that share no bit with a range do not change what the range reads. -/
theorem get_fill_of_disjoint {s : BitRange} {fields : List (BitRange × UInt32)}
    (h : ∀ field ∈ fields, field.1.Disjoint s) (word : UInt32) :
    s.get (fill word fields) = s.get word := by
  induction fields generalizing word with
  | nil => rfl
  | cons field fields ih =>
      obtain ⟨r, value⟩ := field
      rw [fill_cons, ih fun f hf => h f (List.mem_cons_of_mem _ hf)]
      exact get_set_of_disjoint (h _ List.mem_cons_self) _ _

/-- Of fields that share no bits, each reads back what was written to it. -/
theorem get_fill_of_mem {r : BitRange} {value : UInt32} {fields : List (BitRange × UInt32)}
    (hdis : (fields.map (·.1)).Pairwise Disjoint) (hmem : (r, value) ∈ fields)
    (hfits : r.fits value) (word : UInt32) : r.get (fill word fields) = value := by
  induction fields generalizing word with
  | nil => simp at hmem
  | cons field fields ih =>
      obtain ⟨s, other⟩ := field
      rw [List.map_cons, List.pairwise_cons] at hdis
      rw [fill_cons]
      rcases List.mem_cons.1 hmem with heq | hrest
      · obtain ⟨rfl, rfl⟩ := Prod.mk.injEq .. ▸ heq
        have hlater : ∀ f ∈ fields, f.1.Disjoint r := fun f hf =>
          (hdis.1 f.1 (List.mem_map_of_mem hf)).symm
        rw [get_fill_of_disjoint hlater, get_set_self, and_valueMask_of_fits hfits]
      · exact ih hdis.2 hrest _

/-- In each of the given fields the word holds the value given with it. -/
def Shows (word : UInt32) (fields : List (BitRange × UInt32)) : Prop :=
  ∀ field ∈ fields, field.1.get word = field.2

@[simp] theorem shows_nil (word : UInt32) : Shows word [] := by simp [Shows]

@[simp] theorem shows_cons {word value : UInt32} {r : BitRange}
    {fields : List (BitRange × UInt32)} :
    Shows word ((r, value) :: fields) ↔ r.get word = value ∧ Shows word fields := by
  simp [Shows]

@[simp] theorem shows_append {word : UInt32} {fields others : List (BitRange × UInt32)} :
    Shows word (fields ++ others) ↔ Shows word fields ∧ Shows word others := by
  simp only [Shows, List.forall_mem_append]

/-- A list of ranges is filled from its start. -/
theorem map_fst_zip (ranges : List BitRange) (values : List UInt32) :
    (ranges.zip values).map (·.1) = ranges.take values.length := by
  induction ranges generalizing values with
  | nil => simp
  | cons r ranges ih =>
      cases values with
      | nil => simp
      | cons value values => simpa using ih values

/-- A word shows as many fields of a list as there are values if they read as the values. -/
theorem shows_zip {word : UInt32} {ranges : List BitRange} {values : List UInt32}
    (h : values.length ≤ ranges.length) :
    Shows word (ranges.zip values) ↔ (ranges.take values.length).map (·.get word) = values := by
  induction values generalizing ranges with
  | nil => simp
  | cons value values ih =>
      cases ranges with
      | nil => simp at h
      | cons r ranges =>
          have hrest : values.length ≤ ranges.length := by simpa using h
          simp [ih hrest]

/-- A word shows four fields if they read as the four values. -/
theorem shows_zip_toList {word : UInt32} {fields : Lanes BitRange} {values : Lanes UInt32} :
    Shows word (fields.zip values).toList ↔ fields.map (·.get word) = values := by
  obtain ⟨x, y, z, w⟩ := values
  simp [Lanes.zip, Lanes.toList, Lanes.map]

/-- A word filled with values that fit shows them all, provided that no two fields share a bit. -/
theorem shows_fill {fields : List (BitRange × UInt32)}
    (hdis : (fields.map (·.1)).Pairwise Disjoint)
    (hfits : ∀ field ∈ fields, field.1.fits field.2) (word : UInt32) :
    Shows (fill word fields) fields := by
  rintro ⟨r, value⟩ hmem
  exact get_fill_of_mem hdis hmem (hfits _ hmem) word

/-- What a word shows fits. -/
theorem fits_of_shows {word : UInt32} {fields : List (BitRange × UInt32)} (h : Shows word fields) :
    ∀ field ∈ fields, field.1.fits field.2 := by
  intro field hmem
  rw [← h field hmem]
  exact fits_get _ _

/-- Writing a field does not change what the word shows elsewhere. -/
theorem Shows.set_of_disjoint {r : BitRange} {word : UInt32} {fields : List (BitRange × UInt32)}
    (h : Shows word fields) (hdis : ∀ field ∈ fields, r.Disjoint field.1) (value : UInt32) :
    Shows (r.set word value) fields := by
  intro field hmem
  rw [get_set_of_disjoint (hdis field hmem), h field hmem]

/-! ## Bits that are left open -/

/-- The bit belongs to the range. -/
def Covers (r : BitRange) (i : Nat) : Prop := r.lo ≤ i ∧ i ≤ r.hi

instance (r : BitRange) (i : Nat) : Decidable (r.Covers i) :=
  inferInstanceAs (Decidable (r.lo ≤ i ∧ i ≤ r.hi))

/-- A field is nothing but its bits. -/
theorem bitAt_eq_of_get_eq {r : BitRange} {a b : UInt32} (h : r.get a = r.get b) {i : Nat}
    (hi : r.Covers i) : bitAt a i = bitAt b i := by
  have hw := r.lo_add_width
  obtain ⟨hlo, hhi⟩ := hi
  have hbit := congrArg (bitAt · (i - r.lo)) h
  have hin : i - r.lo < r.width := by omega
  simpa [bitAt_get, hin, Nat.add_sub_cancel' hlo] using hbit

/-- The word with zeros for the bits of the given ranges. -/
def clear (ranges : List BitRange) (word : UInt32) : UInt32 := fill word (ranges.map (·, 0))

theorem bitAt_clear (ranges : List BitRange) (word : UInt32) {i : Nat} (hi : i < 32) :
    bitAt (clear ranges word) i = if ∃ r ∈ ranges, r.Covers i then false else bitAt word i := by
  induction ranges generalizing word with
  | nil => simp [clear]
  | cons r ranges ih =>
      have hcons : clear (r :: ranges) word = clear ranges (r.set word 0) := rfl
      rw [hcons, ih, bitAt_set _ _ _ hi]
      by_cases hr : r.lo ≤ i ∧ i ≤ r.hi
      · simp [Covers, hr, bitAt]
      · simp [Covers, hr]

/-- Words that show the same fields differ at most in the other bits. -/
theorem clear_eq_clear_of_shows {free : List BitRange} {fields : List (BitRange × UInt32)}
    (hall : ∀ i < 32, ∃ r ∈ fields.map (·.1) ++ free, r.Covers i)
    {a b : UInt32} (ha : Shows a fields) (hb : Shows b fields) : clear free a = clear free b := by
  apply eq_of_bitAt
  intro i hi
  rw [bitAt_clear _ _ hi, bitAt_clear _ _ hi]
  by_cases hfree : ∃ r ∈ free, r.Covers i
  · rw [if_pos hfree, if_pos hfree]
  · obtain ⟨r, hr, hcovers⟩ := hall i hi
    have hused := (List.mem_append.1 hr).resolve_right fun hr => hfree ⟨r, hr, hcovers⟩
    obtain ⟨field, hmem, rfl⟩ := List.mem_map.1 hused
    rw [if_neg hfree, if_neg hfree]
    exact bitAt_eq_of_get_eq ((ha field hmem).trans (hb field hmem).symm) hcovers

/-- A word that differs from one that shows the fields in other bits only shows them too. -/
theorem shows_of_clear_eq_clear {free : List BitRange} {fields : List (BitRange × UInt32)}
    (hdis : ∀ r ∈ fields.map (·.1), ∀ s ∈ free, r.Disjoint s) {a b : UInt32}
    (h : clear free a = clear free b) (hb : Shows b fields) : Shows a fields := by
  have hget : ∀ word, ∀ field ∈ fields, field.1.get (clear free word) = field.1.get word := by
    intro word field hmem
    refine get_fill_of_disjoint (fun zero hzero => ?_) word
    obtain ⟨s, hs, rfl⟩ := List.mem_map.1 hzero
    exact (hdis field.1 (List.mem_map_of_mem hmem) s hs).symm
  intro field hmem
  rw [← hget a field hmem, h, hget b field hmem, hb field hmem]

/-- Where nothing is written a word keeps its zeros. -/
theorem clear_fill_zero {free : List BitRange} {fields : List (BitRange × UInt32)}
    (hdis : ∀ r ∈ fields.map (·.1), ∀ s ∈ free, r.Disjoint s) :
    clear free (fill 0 fields) = fill 0 fields := by
  apply eq_of_bitAt
  intro i hi
  rw [bitAt_clear _ _ hi]
  by_cases hfree : ∃ s ∈ free, s.Covers i
  · obtain ⟨s, hs, hcovers⟩ := hfree
    have hget : s.get (fill 0 fields) = s.get 0 :=
      get_fill_of_disjoint (fun field hmem => hdis field.1 (List.mem_map_of_mem hmem) s hs) 0
    rw [if_pos ⟨s, hs, hcovers⟩, bitAt_eq_of_get_eq hget hcovers]
    simp [bitAt]
  · rw [if_neg hfree]

/-- A mask does not see what is written to bits that it leaves out. -/
theorem set_and_of_get_eq_zero {r : BitRange} {mask : UInt32} (h : r.get mask = 0)
    (word value : UInt32) : r.set word value &&& mask = word &&& mask := by
  have hzero : r.get mask = r.get 0 := by
    rw [h]
    simp [get]
  apply eq_of_bitAt
  intro i hi
  rw [bitAt_and, bitAt_and, bitAt_set _ _ _ hi]
  by_cases hcovers : r.lo ≤ i ∧ i ≤ r.hi
  · have hbit : bitAt mask i = bitAt 0 i := bitAt_eq_of_get_eq hzero hcovers
    have hfalse : bitAt 0 i = false := by simp [bitAt]
    rw [hbit, hfalse, Bool.and_false, Bool.and_false]
  · rw [if_neg hcovers]

end BitRange

end ShaderBytecode
