import ShaderBytecode.Tag

set_option autoImplicit false

/-! # Tags are told apart by their text

A tag prints byte by byte, and since a backslash prints as itself, the text of an escape is also the
text of four bytes that print as themselves. So bytes cannot be read back from their text in
general. Tags can, since they are short: where one tag has an escape and the other spells it out,
the second needs all of its four bytes for that and has none left for what follows the escape in the
first. -/

namespace ShaderBytecode

/-! ## Digits -/

theorem digitChar_inj {m n : Nat} (hm : m < 16) (hn : n < 16)
    (h : Nat.digitChar m = Nat.digitChar n) : m = n := by
  have hall : ∀ m < 16, ∀ n < 16, Nat.digitChar m = Nat.digitChar n → m = n := by decide
  exact hall m hm n hn h

theorem digitChar_ne_backslash : ∀ n < 16, Nat.digitChar n ≠ '\\' := by decide

theorem hexByte_inj {b c : UInt8} (h : hexByte b = hexByte c) : b = c := by
  have hb := b.toNat_lt
  have hc := c.toNat_lt
  simp only [hexByte, List.cons.injEq, and_true] at h
  obtain ⟨hhigh, hlow⟩ := h
  have hhigh := digitChar_inj (by omega) (by omega) hhigh
  have hlow := digitChar_inj (by omega) (by omega) hlow
  apply UInt8.toNat_inj.1
  omega

namespace Tag

/-! ## Texts of bytes -/

/-- The byte prints as itself. -/
def Plain (b : UInt8) : Prop := 0x20 ≤ b ∧ b ≤ 0x7E

instance (b : UInt8) : Decidable (Plain b) := inferInstanceAs (Decidable (_ ∧ _))

theorem byteText_of_plain {b : UInt8} (h : Plain b) : byteText b = [Char.ofUInt8 b] := if_pos h

theorem byteText_of_not_plain {b : UInt8} (h : ¬ Plain b) :
    byteText b = '\\' :: 'x' :: hexByte b := if_neg h

theorem byteText_ne_nil (b : UInt8) : byteText b ≠ [] := by
  by_cases h : Plain b
  · simp [byteText_of_plain h]
  · simp [byteText_of_not_plain h]

/-- A text that begins with another character than a backslash begins with a byte that prints as
    itself. -/
theorem exists_of_flatMap_eq_cons {bytes : List UInt8} {d : Char} {rest : List Char}
    (h : bytes.flatMap byteText = d :: rest) (hd : d ≠ '\\') :
    ∃ b tail, bytes = b :: tail ∧ tail.flatMap byteText = rest := by
  cases bytes with
  | nil => cases h
  | cons b tail =>
      rw [List.flatMap_cons] at h
      by_cases hb : Plain b
      · rw [byteText_of_plain hb] at h
        exact ⟨b, tail, rfl, (List.cons.inj h).2⟩
      · rw [byteText_of_not_plain hb] at h
        exact absurd (List.cons.inj h).1.symm hd

/-- Bytes that spell out an escape do not print like as many bytes that have the escape itself, if
    there are no more than four. -/
theorem flatMap_byteText_ne {b c : UInt8} {bs cs : List UInt8} (hb : ¬ Plain b) (hc : Plain c)
    (hlength : bs.length = cs.length) (hshort : cs.length ≤ 3) :
    (b :: bs).flatMap byteText ≠ (c :: cs).flatMap byteText := by
  intro h
  have hb256 := b.toNat_lt
  simp only [List.flatMap_cons, byteText_of_not_plain hb, byteText_of_plain hc, hexByte,
    List.cons_append, List.nil_append, List.cons.injEq] at h
  obtain ⟨-, hspelled⟩ := h
  -- Behind the backslash stand an `x` and two digits, each of them the text of one byte.
  obtain ⟨_, cs₁, rfl, hdigits⟩ := exists_of_flatMap_eq_cons hspelled.symm (by decide)
  obtain ⟨_, cs₂, rfl, hlow⟩ :=
    exists_of_flatMap_eq_cons hdigits (digitChar_ne_backslash _ (by omega))
  obtain ⟨_, cs₃, rfl, hrest⟩ :=
    exists_of_flatMap_eq_cons hlow (digitChar_ne_backslash _ (by omega))
  -- These bytes are the last, so nothing follows the escape either.
  obtain rfl : cs₃ = [] := by
    simp only [List.length_cons] at hshort
    exact List.eq_nil_of_length_eq_zero (by omega)
  cases bs with
  | nil => cases hlength
  | cons b' bs =>
      rw [List.flatMap_nil, List.flatMap_cons] at hrest
      exact byteText_ne_nil b' (List.append_eq_nil_iff.1 hrest.symm).1

/-- As many bytes are the same if they print alike and there are no more than four. -/
theorem flatMap_byteText_inj {bs cs : List UInt8} (hlength : bs.length = cs.length)
    (hshort : cs.length ≤ 4) (h : bs.flatMap byteText = cs.flatMap byteText) : bs = cs := by
  induction bs generalizing cs with
  | nil => exact (List.eq_nil_of_length_eq_zero hlength.symm).symm
  | cons b bs ih =>
      cases cs with
      | nil => cases hlength
      | cons c cs =>
          have hlength : bs.length = cs.length := Nat.succ.inj hlength
          have hshort : cs.length ≤ 3 := Nat.le_of_succ_le_succ hshort
          have hrest := ih hlength (Nat.le_succ_of_le hshort)
          by_cases hb : Plain b
          · by_cases hc : Plain c
            · rw [List.flatMap_cons, List.flatMap_cons, byteText_of_plain hb,
                byteText_of_plain hc] at h
              obtain ⟨hchar, htail⟩ := List.cons.inj h
              rw [UInt8.toUInt32_inj.1 (congrArg Char.val hchar), hrest htail]
            · exact absurd h.symm (flatMap_byteText_ne hc hb hlength.symm (hlength ▸ hshort))
          · by_cases hc : Plain c
            · exact absurd h (flatMap_byteText_ne hb hc hlength hshort)
            · rw [List.flatMap_cons, List.flatMap_cons, byteText_of_not_plain hb,
                byteText_of_not_plain hc] at h
              obtain ⟨hdigits, htail⟩ := List.append_inj (List.cons.inj (List.cons.inj h).2).2 rfl
              rw [hexByte_inj hdigits, hrest htail]

/-- Among five bytes an escape that is spelled out can change places with a real one. -/
example : ([0, 0x5C, 0x78, 0x30, 0x30] : List UInt8).flatMap byteText
    = ([0x5C, 0x78, 0x30, 0x30, 0] : List UInt8).flatMap byteText := by decide

/-! ## Texts of tags -/

theorem toList_inj {x y : Tag} (h : x.toList = y.toList) : x = y := by
  cases x
  cases y
  simpa [toList] using h

theorem text_inj {x y : Tag} (h : x.text = y.text) : x = y :=
  toList_inj (flatMap_byteText_inj rfl (Nat.le_refl 4) (String.ofList_inj.1 h))

/-- The text of every escape is also that of a tag that has none. -/
theorem exists_chars_eq_byteText {b : UInt8} (h : ¬ Plain b) :
    ∃ z : Tag, (∀ c ∈ z.toList, Plain c) ∧ z.chars = byteText b := by
  have hdigit : ∀ n < 16, Plain (Nat.digitChar n).toUInt8
      ∧ byteText (Nat.digitChar n).toUInt8 = [Nat.digitChar n] := by decide
  have hb := b.toNat_lt
  obtain ⟨hhigh, hhighText⟩ := hdigit (b.toNat / 16) (by omega)
  obtain ⟨hlow, hlowText⟩ := hdigit (b.toNat % 16) (by omega)
  refine ⟨⟨0x5C, 0x78, (Nat.digitChar (b.toNat / 16)).toUInt8,
    (Nat.digitChar (b.toNat % 16)).toUInt8⟩, ?_, ?_⟩
  · simp only [toList, List.forall_mem_cons]
    exact ⟨by decide, by decide, hhigh, hlow, nofun⟩
  · have hfront : byteText 0x5C = ['\\'] ∧ byteText 0x78 = ['x'] := by decide
    simp [chars, toList, hfront, hhighText, hlowText, byteText_of_not_plain h, hexByte]

/-- **Distinct tags never print alike**, neither as text nor in a dump of values, although the text
    of every escape can also be spelled out by bytes that print as themselves. -/
theorem text_tells_tags_apart (x y : Tag) :
    (x.text = y.text ↔ x = y) ∧ (x.debugText = y.debugText ↔ x = y)
      ∧ ∀ b, ¬ Plain b → ∃ z : Tag, (∀ c ∈ z.toList, Plain c) ∧ z.chars = byteText b := by
  have htext : x.text = y.text ↔ x = y := ⟨text_inj, congrArg text⟩
  refine ⟨htext, ?_, fun b => exists_chars_eq_byteText⟩
  rw [← htext, debugText, debugText, String.append_left_inj, String.append_right_inj]

end Tag

end ShaderBytecode
