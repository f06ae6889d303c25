import Mathlib.Algebra.Group.Nat.Defs
import ShaderBytecode.Proofs.Token.BitRange
import ShaderBytecode.Token.Fields

set_option autoImplicit false

/-! # Bit ranges are independent, lossless fields

Writes to one field overwrite each other and writes to fields without a common bit commute. A field
keeps a value as far as it is wide, and no access shifts a word by its own width or more: with
shifts that stop there, every operation gives the same result. Bounds given at run time name a range
or fail, in a release build with an error and in a debug build at an assertion. -/

namespace ShaderBytecode

namespace BitRange

/-! ## Writing a field -/

/-- A field reads back what was written to it, modulo two to its width. -/
theorem toNat_get_set_self (r : BitRange) (word value : UInt32) :
    (r.get (r.set word value)).toNat = value.toNat % 2 ^ r.width := by
  rw [get_set_self, UInt32.toNat_and, toNat_valueMask, Nat.and_two_pow_sub_one_eq_mod]

/-- Writing to a field what it holds changes nothing. -/
theorem set_get_self (r : BitRange) (word : UInt32) : r.set word (r.get word) = word := by
  have hw := r.lo_add_width
  apply eq_of_bitAt
  intro i hi
  rw [bitAt_set _ _ _ hi]
  by_cases hin : r.lo ≤ i ∧ i ≤ r.hi
  · have hlt : i - r.lo < r.width := by omega
    rw [if_pos hin, bitAt_get, decide_eq_true hlt, Bool.true_and, Nat.add_sub_cancel' hin.1]
  · rw [if_neg hin]

/-- Of two writes to a field the second counts. -/
theorem set_set_self (r : BitRange) (word first second : UInt32) :
    r.set (r.set word first) second = r.set word second := by
  apply eq_of_bitAt
  intro i hi
  rw [bitAt_set _ _ _ hi, bitAt_set _ _ _ hi, bitAt_set _ _ _ hi]
  by_cases hin : r.lo ≤ i ∧ i ≤ r.hi
  · rw [if_pos hin, if_pos hin]
  · rw [if_neg hin, if_neg hin, if_neg hin]

/-- Ranges are disjoint if no bit belongs to both. -/
theorem disjoint_iff_covers {r s : BitRange} :
    r.Disjoint s ↔ ∀ i, r.Covers i → ¬ s.Covers i := by
  have hr := r.lo_le_hi
  have hs := s.lo_le_hi
  unfold Disjoint Covers
  constructor
  · intro h i hir his
    omega
  · intro h
    have hlow := h r.lo
    have hhigh := h s.lo
    omega

/-- Writes to fields that share no bit can change places. -/
theorem set_comm_of_disjoint {r s : BitRange} (h : r.Disjoint s) (word u v : UInt32) :
    s.set (r.set word u) v = r.set (s.set word v) u := by
  apply eq_of_bitAt
  intro i hi
  rw [bitAt_set _ _ _ hi, bitAt_set _ _ _ hi, bitAt_set _ _ _ hi, bitAt_set _ _ _ hi]
  by_cases hr : r.lo ≤ i ∧ i ≤ r.hi
  · have hs : ¬ (s.lo ≤ i ∧ i ≤ s.hi) := disjoint_iff_covers.1 h i hr
    rw [if_neg hs, if_pos hr, if_pos hr]
  · rw [if_neg hr, if_neg hr]

/-- The values that fit are those a word of that field alone gives back. -/
theorem fits_iff_get_place (r : BitRange) (value : UInt32) :
    r.fits value ↔ r.get (r.place value) = value := by
  constructor
  · exact get_place
  · intro h
    rw [← h]
    exact fits_get r _

/-! ## Shifts that stop at the width of the word -/

/-- The word moved down, if the amount is below its width. -/
def shiftRight? (word : UInt32) (amount : Nat) : Option UInt32 :=
  if amount < 32 then some (word >>> UInt32.ofNat amount) else none

/-- The word moved up, if the amount is below its width. -/
def shiftLeft? (word : UInt32) (amount : Nat) : Option UInt32 :=
  if amount < 32 then some (word <<< UInt32.ofNat amount) else none

theorem shiftRight?_eq {amount : Nat} (h : amount < 32) (word : UInt32) :
    shiftRight? word amount = some (word >>> UInt32.ofNat amount) := if_pos h

theorem shiftLeft?_eq {amount : Nat} (h : amount < 32) (word : UInt32) :
    shiftLeft? word amount = some (word <<< UInt32.ofNat amount) := if_pos h

/-- `valueMask` with a checked shift. -/
def valueMask? (r : BitRange) : Option UInt32 := shiftRight? 0xFFFFFFFF (32 - r.width)

/-- `fieldMask` with checked shifts. -/
def fieldMask? (r : BitRange) : Option UInt32 := do shiftLeft? (← r.valueMask?) r.lo

/-- `get` with checked shifts. -/
def get? (r : BitRange) (word : UInt32) : Option UInt32 :=
  return (← shiftRight? word r.lo) &&& (← r.valueMask?)

/-- `set` with checked shifts. -/
def set? (r : BitRange) (word value : UInt32) : Option UInt32 := do
  let kept := word &&& ~~~(← r.fieldMask?)
  return kept ||| (← shiftLeft? (value &&& (← r.valueMask?)) r.lo)

theorem sub_width_lt (r : BitRange) : 32 - r.width < 32 := by
  have hpos := r.width_pos
  omega

theorem valueMask?_eq (r : BitRange) : r.valueMask? = some r.valueMask :=
  shiftRight?_eq r.sub_width_lt _

theorem fieldMask?_eq (r : BitRange) : r.fieldMask? = some r.fieldMask := by
  rw [fieldMask?, valueMask?_eq]
  exact shiftLeft?_eq r.lo_lt _

theorem get?_eq (r : BitRange) (word : UInt32) : r.get? word = some (r.get word) := by
  rw [get?, valueMask?_eq, shiftRight?_eq r.lo_lt]
  rfl

theorem set?_eq (r : BitRange) (word value : UInt32) :
    r.set? word value = some (r.set word value) := by
  have hshift := shiftLeft?_eq r.lo_lt (value &&& r.valueMask)
  simp only [set?, fieldMask?_eq, valueMask?_eq, Option.bind_eq_bind, Option.bind_some, hshift]
  rfl

/-! ## Bounds given at run time -/

section

variable {build : Build} {lo hi : Nat} {fault : BitFault}

theorem ofBounds_self (r : BitRange) : ofBounds r.lo r.hi = .ok r := ofBounds_eq_ok_iff.2 ⟨rfl, rfl⟩

theorem ofBounds_eq_error (h : ¬ (lo ≤ hi ∧ hi ≤ 31)) :
    ofBounds lo hi = .error ⟨lo, hi⟩ := dif_neg h

theorem assertedRange_self (build : Build) (r : BitRange) :
    assertedRange build r.lo r.hi = .ok r := by
  simp only [assertedRange, ofBounds_self, Except.isOk, Except.toBool, Build.debugAssert_true]
  rfl

/-- A release build has no assertion in the way of the error. -/
theorem assertedRange_release (h : ¬ (lo ≤ hi ∧ hi ≤ 31)) :
    assertedRange .release lo hi = .error (.badRange ⟨lo, hi⟩) := by
  simp only [assertedRange, ofBounds_eq_error h, Build.debugAssert_release]
  rfl

/-- A debug build does not get as far as the error. -/
theorem assertedRange_debug (h : ¬ (lo ≤ hi ∧ hi ≤ 31)) :
    assertedRange .debug lo hi = .error (.stopped s!"invalid bit range [{lo}, {hi}]") := by
  simp only [assertedRange, ofBounds_eq_error h, Except.isOk, Except.toBool,
    Build.debugAssert_debug_false]
  rfl

theorem getBits_self (build : Build) (r : BitRange) (word : UInt32) :
    getBits build word r.lo r.hi = .ok (r.get word) := by
  rw [getBits, assertedRange_self]
  rfl

theorem getBits_eq_error (h : assertedRange build lo hi = .error fault) (word : UInt32) :
    getBits build word lo hi = .error fault := by
  rw [getBits, h]
  rfl

/-- Writing in place is computing the word and storing it, or leaving the word alone. -/
theorem run_assignBits (build : Build) (lo hi : Nat) (word value : UInt32) :
    (assignBits build lo hi value).run word
      = match setBits build word lo hi value with
        | .ok written => .ok () written
        | .error fault => .error fault word := by
  have hrun : (assignBits build lo hi value).run word
      = EStateM.run (do
          let written ← MonadExcept.ofExcept (setBits build word lo hi value)
          MonadStateOf.set written) word := rfl
  rw [hrun]
  cases setBits build word lo hi value <;> rfl

theorem run_assignBits_self (build : Build) (r : BitRange) (word value : UInt32) :
    (assignBits build r.lo r.hi value).run word = .ok () (r.set word value) := by
  rw [run_assignBits, setBits, assertedRange_self]
  rfl

theorem run_assignBits_eq_error (h : assertedRange build lo hi = .error fault)
    (word value : UInt32) :
    (assignBits build lo hi value).run word = .error fault word := by
  rw [run_assignBits, setBits, h]
  rfl

end

/-! ## The laws of fields -/

/-- **Fields are lossless and independent.** A bit range reads back what was written to it, modulo
    two to its width; writing back what it holds changes nothing; the last write counts; ranges
    without a common bit do not see each other's writes, which commute; a value fits if a word of
    the field alone gives it back; and the shifts, by `lo` and by `32 - width`, never reach the
    width of the word. Reads and writes with the bounds of a range at run time are those of the
    range in every build. Bounds that name no range leave the word as it was: a release build
    refuses them with an error, and a debug build stops at the assertion before it. -/
theorem independent_lossless (r s : BitRange) (word u v : UInt32) :
    (r.get (r.set word v)).toNat = v.toNat % 2 ^ r.width ∧
    r.set word (r.get word) = word ∧
    r.set (r.set word u) v = r.set word v ∧
    ((∀ i, r.Covers i → ¬ s.Covers i) →
      s.get (r.set word v) = s.get word ∧
      s.set (r.set word u) v = r.set (s.set word v) u) ∧
    (r.fits v ↔ r.get (r.place v) = v) ∧
    (r.lo < 32 ∧ 32 - r.width < 32 ∧
      r.valueMask? = some r.valueMask ∧ r.fieldMask? = some r.fieldMask ∧
      r.get? word = some (r.get word) ∧ r.set? word v = some (r.set word v)) ∧
    (∀ build, getBits build word r.lo r.hi = .ok (r.get word) ∧
      (assignBits build r.lo r.hi v).run word = .ok () (r.set word v)) ∧
    ∀ lo hi, ¬ (lo ≤ hi ∧ hi ≤ 31) →
      (getBits .release word lo hi = .error (.badRange ⟨lo, hi⟩) ∧
        (assignBits .release lo hi v).run word = .error (.badRange ⟨lo, hi⟩) word) ∧
      (getBits .debug word lo hi = .error (.stopped s!"invalid bit range [{lo}, {hi}]") ∧
        (assignBits .debug lo hi v).run word
          = .error (.stopped s!"invalid bit range [{lo}, {hi}]") word) := by
  refine ⟨toNat_get_set_self r word v, set_get_self r word, set_set_self r word u v, ?_,
    fits_iff_get_place r v, ?_, ?_, ?_⟩
  · intro hshare
    have hdis := disjoint_iff_covers.2 hshare
    exact ⟨get_set_of_disjoint hdis word v, set_comm_of_disjoint hdis word u v⟩
  · exact ⟨r.lo_lt, r.sub_width_lt, valueMask?_eq r, fieldMask?_eq r, get?_eq r word,
      set?_eq r word v⟩
  · intro build
    exact ⟨getBits_self build r word, run_assignBits_self build r word v⟩
  · intro lo hi hbad
    have hrefused := assertedRange_release hbad
    have hstopped := assertedRange_debug hbad
    exact ⟨⟨getBits_eq_error hrefused word, run_assignBits_eq_error hrefused word v⟩,
      getBits_eq_error hstopped word, run_assignBits_eq_error hstopped word v⟩

end BitRange

/-- The top bit of an opcode token does not see the length beside it. Bit 32 is refused by a release
    build and stops a debug build. -/
theorem extended_length_independent :
    (∀ i, OpcodeToken.length.Covers i → ¬ OpcodeToken.extended.Covers i) ∧
    OpcodeToken.extended.get (OpcodeToken.length.set 0x80000000 127) = 1 ∧
    ¬ (31 ≤ 32 ∧ 32 ≤ 31) ∧
    (BitRange.assignBits .release 31 32 127).run 0x80000000
      = .error (.badRange ⟨31, 32⟩) 0x80000000 ∧
    (BitRange.assignBits .debug 31 32 127).run 0x80000000
      = .error (.stopped "invalid bit range [31, 32]") 0x80000000 := by
  have hshare : ∀ i, OpcodeToken.length.Covers i → ¬ OpcodeToken.extended.Covers i :=
    BitRange.disjoint_iff_covers.1 (by decide)
  have hbad : ¬ (31 ≤ 32 ∧ 32 ≤ 31) := by decide
  obtain ⟨-, -, -, hother, -, -, -, hbounds⟩ :=
    BitRange.independent_lossless OpcodeToken.length OpcodeToken.extended 0x80000000 0 127
  have hread : OpcodeToken.extended.get 0x80000000 = 1 := by decide
  obtain ⟨⟨-, hrefused⟩, -, hstopped⟩ := hbounds 31 32 hbad
  exact ⟨hshare, (hother hshare).1.trans hread, hbad, hrefused, hstopped⟩

end ShaderBytecode
