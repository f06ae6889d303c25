import ShaderBytecode.Operand.Encoder
import ShaderBytecode.Proofs.Steps
import ShaderBytecode.Token.Cursor

set_option autoImplicit false

/-! # What decoders accept

The tokens that a value can be written with are described by a relation between values and token
sequences, which mentions no decoder. `Decoder.Reads d Form` says that the decoder `d` accepts
exactly that relation: it returns `a` and stops at a later cursor if and only if the tokens between
the two cursors are a form of `a`. Both directions are in it. From right to left, every form is read
back and nothing behind it is touched; from left to right, nothing else is accepted, and neither the
position nor the tokens behind the form have a say in a success.

A decoder made of others reads what its parts read one after another (`Decoder.Reads.bind`). The
position that a decoder notes for its error messages drops out (`Decoder.Reads.position_bind`). -/

namespace ShaderBytecode

namespace TokenCursor

/-- The cursor `c'` stands right behind the tokens `ts` that follow the cursor `c`. -/
structure Advances (c : TokenCursor) (ts : List UInt32) (c' : TokenCursor) : Prop where
  rest : c.rest = ts ++ c'.rest
  position : c'.position = c.position + ts.length

theorem advances_nil_iff {c c' : TokenCursor} : c.Advances [] c' ↔ c' = c := by
  constructor
  · intro h
    obtain ⟨p, rest⟩ := c
    obtain ⟨p', rest'⟩ := c'
    simpa using And.intro h.position h.rest.symm
  · rintro rfl
    exact ⟨rfl, rfl⟩

theorem Advances.append {c c₁ c₂ : TokenCursor} {ts us : List UInt32} (h₁ : c.Advances ts c₁)
    (h₂ : c₁.Advances us c₂) : c.Advances (ts ++ us) c₂ where
  rest := by rw [h₁.rest, h₂.rest, List.append_assoc]
  position := by rw [h₂.position, h₁.position, List.length_append, Nat.add_assoc]

/-- To pass two token sequences is to pass the first and then the second. -/
theorem advances_append_iff {c c₂ : TokenCursor} {ts us : List UInt32} :
    c.Advances (ts ++ us) c₂ ↔ ∃ c₁, c.Advances ts c₁ ∧ c₁.Advances us c₂ := by
  constructor
  · intro h
    refine ⟨⟨c.position + ts.length, us ++ c₂.rest⟩, ⟨?_, rfl⟩, ⟨rfl, ?_⟩⟩
    · rw [h.rest, List.append_assoc]
    · rw [h.position, List.length_append, Nat.add_assoc]
  · rintro ⟨c₁, h₁, h₂⟩
    exact h₁.append h₂

@[simp] theorem rest_ofTokens (tokens : List UInt32) (p : Nat) :
    (ofTokens tokens p).rest = tokens.drop p := rfl

theorem position_ofTokens {tokens : List UInt32} {p : Nat} (hp : p ≤ tokens.length) :
    (ofTokens tokens p).position = p := Nat.min_eq_left hp

/-- In a token list a cursor passes the tokens that lie there. -/
theorem advances_ofTokens_iff {tokens ts : List UInt32} {p : Nat} {c : TokenCursor}
    (hp : p ≤ tokens.length) : (ofTokens tokens p).Advances ts c ↔
      (tokens.drop p).take ts.length = ts ∧ c = ofTokens tokens (p + ts.length) := by
  have hstart := position_ofTokens hp
  constructor
  · intro h
    have hdrop : tokens.drop p = ts ++ c.rest := h.rest
    have hrest : tokens.drop (p + ts.length) = c.rest := by
      rw [← List.drop_drop, hdrop, List.drop_left]
    have hlen : p + ts.length ≤ tokens.length := by
      have := congrArg List.length hdrop
      rw [List.length_drop, List.length_append] at this
      omega
    refine ⟨by rw [hdrop, List.take_left], ?_⟩
    rw [ofTokens, Nat.min_eq_left hlen, hrest, ← hstart, ← h.position]
  · rintro ⟨hts, rfl⟩
    have hlen : p + ts.length ≤ tokens.length := by
      have := congrArg List.length hts
      rw [List.length_take, List.length_drop] at this
      omega
    refine ⟨?_, ?_⟩
    · rw [rest_ofTokens, rest_ofTokens, ← List.drop_drop,
        ← List.take_append_drop ts.length (tokens.drop p), hts, List.drop_left]
    · rw [hstart, position_ofTokens hlen]

/-- A cursor that passes a token stands in front of the end. -/
theorem Advances.lt_length {tokens ts : List UInt32} {p : Nat} {t : UInt32} {c : TokenCursor}
    (h : (ofTokens tokens p).Advances (t :: ts) c) : p < tokens.length := by
  have hdrop : tokens.drop p = t :: ts ++ c.rest := h.rest
  have := congrArg List.length hdrop
  rw [List.length_drop, List.cons_append, List.length_cons] at this
  omega

/-- Another first token is passed like the one that it stands in for. -/
theorem Advances.set {tokens ts : List UInt32} {p : Nat} {t : UInt32} {c : TokenCursor}
    (h : (ofTokens tokens p).Advances (t :: ts) c) (u : UInt32) :
    (ofTokens (tokens.set p u) p).Advances (u :: ts) c where
  rest := by
    have hdrop : tokens.drop p = t :: (ts ++ c.rest) := h.rest
    rw [rest_ofTokens, List.drop_set, if_neg (Nat.lt_irrefl p), Nat.sub_self, hdrop,
      List.set_cons_zero, List.cons_append]
  position := by
    rw [h.position, ofTokens, ofTokens, List.length_set, List.length_cons, List.length_cons]

/-- Tokens in the middle of a list are passed from their start to their end. -/
theorem advances_ofTokens_append (before ts after : List UInt32) :
    (ofTokens (before ++ ts ++ after) before.length).Advances ts
      (ofTokens (before ++ ts ++ after) (before.length + ts.length)) := by
  rw [advances_ofTokens_iff (by simp)]
  simp [List.append_assoc]

end TokenCursor

namespace Decoder

variable {α β : Type}

/-! ## Steps -/

@[simp] theorem run_position (c : TokenCursor) : position.run c = .ok c.position c := rfl

@[simp] theorem run_failAt (p : Nat) (fault : DecodeFault) (c : TokenCursor) :
    (failAt p fault : Decoder α).run c = .error ⟨p, fault⟩ c := rfl

/-! ## Accepting a relation -/

/-- The decoder accepts exactly the token sequences that `Form` gives to a value. -/
def Reads (d : Decoder α) (Form : α → List UInt32 → Prop) : Prop :=
  ∀ c a c', d.run c = .ok a c' ↔ ∃ ts, c.Advances ts c' ∧ Form a ts

namespace Reads

variable {d : Decoder α} {F G : α → List UInt32 → Prop}

theorem congr (h : d.Reads F) (hFG : ∀ a ts, F a ts ↔ G a ts) : d.Reads G := by
  intro c a c'
  rw [h c a c']
  simp only [hFG]

theorem pure (a : α) : (Pure.pure a : Decoder α).Reads fun b ts => b = a ∧ ts = [] := by
  intro c b c'
  rw [EStateM.run_pure]
  constructor
  · intro h
    obtain ⟨rfl, rfl⟩ := EStateM.Result.ok.inj h
    exact ⟨[], TokenCursor.advances_nil_iff.2 rfl, rfl, rfl⟩
  · rintro ⟨ts, hadv, rfl, rfl⟩
    rw [TokenCursor.advances_nil_iff.1 hadv]

theorem failAt (p : Nat) (fault : DecodeFault) :
    (Decoder.failAt p fault : Decoder α).Reads fun _ _ => False := by
  intro c a c'
  simp

/-- A failure reads nothing, whatever comes behind it. -/
theorem failAt_bind (p : Nat) (fault : DecodeFault) (f : α → Decoder β) :
    (Decoder.failAt p fault >>= f).Reads fun _ _ => False := by
  intro c b c'
  rw [EStateM.run_bind, run_failAt]
  simp

/-- One decoder after another reads one form after another. -/
theorem bind {f : α → Decoder β} {H : α → β → List UInt32 → Prop} (hd : d.Reads F)
    (hf : ∀ a, (f a).Reads (H a)) :
    (d >>= f).Reads fun b ts => ∃ a us vs, F a us ∧ H a b vs ∧ ts = us ++ vs := by
  intro c b c₂
  rw [run_bind_eq_ok]
  constructor
  · rintro ⟨a, c₁, h₁, h₂⟩
    obtain ⟨us, hus, hF⟩ := (hd _ _ _).1 h₁
    obtain ⟨vs, hvs, hH⟩ := (hf a _ _ _).1 h₂
    exact ⟨us ++ vs, hus.append hvs, a, us, vs, hF, hH, rfl⟩
  · rintro ⟨ts, hts, a, us, vs, hF, hH, rfl⟩
    obtain ⟨c₁, hus, hvs⟩ := TokenCursor.advances_append_iff.1 hts
    exact ⟨a, c₁, (hd _ _ _).2 ⟨us, hus, hF⟩, (hf a _ _ _).2 ⟨vs, hvs, hH⟩⟩

/-- A function of what was read has the same forms. -/
theorem bind_pure (hd : d.Reads F) (g : α → β) :
    (d >>= fun a => Pure.pure (g a)).Reads fun b ts => ∃ a, F a ts ∧ b = g a := by
  refine (hd.bind fun a => Reads.pure (g a)).congr fun b ts => ?_
  constructor
  · rintro ⟨a, us, _, hF, ⟨rfl, rfl⟩, rfl⟩
    exact ⟨a, by simpa using hF, rfl⟩
  · rintro ⟨a, hF, rfl⟩
    exact ⟨a, ts, [], hF, ⟨rfl, rfl⟩, by simp⟩

/-- A position that is noted only for error messages has no part in what is read. -/
theorem position_bind {f : Nat → Decoder α} (hf : ∀ p, (f p).Reads F) :
    (position >>= f).Reads F := by
  intro c a c'
  rw [EStateM.run_bind, run_position]
  exact hf c.position c a c'

/-- A check that fails when `p` holds, and a decoder that goes on when it does not. -/
theorem guard {e : Decoder α} {p : Prop} [Decidable p] {q : Nat} {fault : DecodeFault}
    {f : β → Decoder α} (he : e.Reads F) :
    (if p then Decoder.failAt q fault >>= f else e).Reads fun a ts => ¬ p ∧ F a ts := by
  by_cases h : p
  · rw [if_pos h]
    exact (failAt_bind q fault f).congr fun a ts => by simp [h]
  · rw [if_neg h]
    exact he.congr fun a ts => by simp [h]

end Reads

/-! ## Tokens -/

theorem reads_token : token.Reads fun t ts => ts = [t] := by
  intro c t c'
  obtain ⟨p, rest⟩ := c
  obtain ⟨p', rest'⟩ := c'
  cases rest with
  | nil =>
      constructor
      · intro h
        cases h
      · rintro ⟨ts, hadv, rfl⟩
        cases hadv.rest
  | cons u rest =>
      have hrun : token.run ⟨p, u :: rest⟩ = .ok u ⟨p + 1, rest⟩ := rfl
      rw [hrun]
      constructor
      · intro h
        obtain ⟨rfl, hc⟩ := EStateM.Result.ok.inj h
        obtain ⟨rfl, rfl⟩ := TokenCursor.mk.inj hc
        exact ⟨[u], ⟨rfl, rfl⟩, rfl⟩
      · rintro ⟨ts, hadv, rfl⟩
        obtain ⟨rfl, rfl⟩ := List.cons.inj hadv.rest
        have hp : p' = p + 1 := hadv.position
        rw [hp]

/-- The halves of a 64-bit value, put together again. -/
theorem toUInt64_or_shiftLeft (v : UInt64) :
    v.toUInt32.toUInt64 ||| ((v >>> 32).toUInt32.toUInt64 <<< 32) = v := by
  apply UInt64.toBitVec_inj.1
  apply BitVec.eq_of_getLsbD_eq
  intro i hi
  rw [UInt64.toBitVec_or, UInt64.toBitVec_shiftLeft, UInt32.toBitVec_toUInt64,
    UInt32.toBitVec_toUInt64, UInt64.toBitVec_toUInt32, UInt64.toBitVec_toUInt32,
    UInt64.toBitVec_shiftRight]
  -- The lower half holds the bits below 32, the upper half, moved down and up again, the others.
  by_cases h : i < 32
  · simp [hi, h, -BitVec.setWidth_setWidth]
  · have hback : 32 + (i - 32) = i := by omega
    have hsub : i - 32 < 32 := by omega
    simp [hi, h, hback, hsub, -BitVec.setWidth_setWidth]

theorem toUInt32_or_shiftLeft (low high : UInt32) :
    (low.toUInt64 ||| (high.toUInt64 <<< 32)).toUInt32 = low := by
  apply UInt32.toBitVec_inj.1
  apply BitVec.eq_of_getLsbD_eq
  intro i hi
  simp [hi]

theorem toUInt32_or_shiftLeft_shiftRight (low high : UInt32) :
    ((low.toUInt64 ||| (high.toUInt64 <<< 32)) >>> 32).toUInt32 = high := by
  apply UInt32.toBitVec_inj.1
  apply BitVec.eq_of_getLsbD_eq
  intro i hi
  have hlt : 32 + i < 64 := by omega
  have hlt' : i < 64 := by omega
  simp [hi, hlt, hlt']

theorem reads_doubleToken : doubleToken.Reads fun v ts => ts = doubleTokens v := by
  intro c v c'
  obtain ⟨p, rest⟩ := c
  obtain ⟨p', rest'⟩ := c'
  -- What is left may hold no token, one token or enough of them; only the last can succeed.
  have short : ∀ ts : List UInt32, ts.length < 2 → ts ≠ doubleTokens v ++ rest' := by
    rintro ts hts rfl
    have htwo : (doubleTokens v).length = 2 := rfl
    rw [List.length_append] at hts
    omega
  match rest with
  | [] =>
      constructor
      · intro h
        cases h
      · rintro ⟨ts, hadv, rfl⟩
        exact absurd hadv.rest (short _ (by simp))
  | [low] =>
      constructor
      · intro h
        cases h
      · rintro ⟨ts, hadv, rfl⟩
        exact absurd hadv.rest (short _ (by simp))
  | low :: high :: rest =>
      have hrun : doubleToken.run ⟨p, low :: high :: rest⟩
          = .ok (low.toUInt64 ||| (high.toUInt64 <<< 32)) ⟨p + 2, rest⟩ := rfl
      rw [hrun]
      constructor
      · intro h
        obtain ⟨rfl, hc⟩ := EStateM.Result.ok.inj h
        obtain ⟨rfl, rfl⟩ := TokenCursor.mk.inj hc
        refine ⟨[low, high], ⟨rfl, rfl⟩, ?_⟩
        simp only [doubleTokens, toUInt32_or_shiftLeft, toUInt32_or_shiftLeft_shiftRight]
      · rintro ⟨ts, hadv, rfl⟩
        obtain ⟨rfl, hrest⟩ := List.cons.inj hadv.rest
        obtain ⟨rfl, rfl⟩ := List.cons.inj hrest
        have hp : p' = p + 2 := hadv.position
        rw [hp, toUInt64_or_shiftLeft]

/-- Reading as many values as asked for, each in its one form. -/
theorem reads_times {d : Decoder α} {form : α → List UInt32} (hd : d.Reads fun a ts => ts = form a)
    (n : Nat) : (times n d).Reads fun as ts => as.length = n ∧ ts = as.flatMap form := by
  induction n with
  | zero =>
      refine (Reads.pure []).congr fun as ts => ?_
      constructor
      · rintro ⟨rfl, rfl⟩
        exact ⟨rfl, rfl⟩
      · rintro ⟨hlen, rfl⟩
        obtain rfl := List.eq_nil_of_length_eq_zero hlen
        exact ⟨rfl, rfl⟩
  | succ n ih =>
      refine (hd.bind fun a => ih.bind_pure (a :: ·)).congr fun as ts => ?_
      constructor
      · rintro ⟨a, us, vs, rfl, ⟨as', ⟨hlen, rfl⟩, rfl⟩, rfl⟩
        exact ⟨by rw [List.length_cons, hlen], by simp⟩
      · rintro ⟨hlen, rfl⟩
        obtain ⟨a, as, rfl⟩ := List.exists_cons_of_length_eq_add_one hlen
        exact ⟨a, _, _, rfl, ⟨as, ⟨by simpa using hlen, rfl⟩, rfl⟩, by simp⟩

end Decoder

end ShaderBytecode
