import ShaderBytecode.Proofs.Token.Reading

set_option autoImplicit false

/-! # Reading stays inside the stream

Wherever a decoder ends, with a value or with an error, its cursor has passed tokens that were there,
and what an error points at lies between the place from which faults are reported and the cursor
(`Decoder.Within`). Want of tokens is noticed at the cursor itself, and the error tells how many are
left. What a program declares as its length is no decoder's concern.

A decoder that was handed the place of an earlier token reports faults there, so it is bounded only
if it is run from that place or behind it (`Decoder.Bounded`). A position that is noted on the way is
such a place for what comes after it (`Decoder.Bounded.position_bind`). -/

namespace ShaderBytecode

/-- The fault is one of the stream as a whole: tokens are wanting, or more or fewer are declared
    than there can be. -/
inductive DecodeFault.OfStream : DecodeFault → Prop
  | unexpectedEnd (wanted remaining : Nat) : OfStream (.unexpectedEnd wanted remaining)
  | badDeclaredLength (declared available : Nat) : OfStream (.badDeclaredLength declared available)

/-- The fault is one of a token that was read. -/
def DecodeFault.OfToken (fault : DecodeFault) : Prop := ¬ fault.OfStream

namespace Decoder

variable {α β : Type}

/-- The outcome of reading from `c` on is where it may be, if faults are reported from `start` on. -/
def Within (start : Nat) (c : TokenCursor) : EStateM.Result DecodeError TokenCursor α → Prop
  | .ok _ c' => ∃ ts, c.Advances ts c'
  | .error e c' => (∃ ts, c.Advances ts c') ∧ start ≤ e.position ∧ e.position ≤ c'.position
      ∧ (∀ wanted remaining, e.fault = .unexpectedEnd wanted remaining →
          e.position = c'.position ∧ remaining = c'.remaining ∧ remaining < wanted)
      ∧ ∀ declared available, e.fault ≠ .badDeclaredLength declared available

/-- What is read from a later place is within what is read from here. -/
theorem Within.of_advances {start : Nat} {c c₁ : TokenCursor} {ts : List UInt32}
    {outcome : EStateM.Result DecodeError TokenCursor α} (h : Within start c₁ outcome)
    (hadv : c.Advances ts c₁) : Within start c outcome := by
  cases outcome with
  | ok a c' =>
      obtain ⟨us, hus⟩ := h
      exact ⟨ts ++ us, hadv.append hus⟩
  | error e c' =>
      obtain ⟨⟨us, hus⟩, hbounds⟩ := h
      exact ⟨⟨ts ++ us, hadv.append hus⟩, hbounds⟩

/-- Faults that are reported from some place on are reported from any earlier place on. -/
theorem Within.mono {start p : Nat} {c : TokenCursor}
    {outcome : EStateM.Result DecodeError TokenCursor α} (h : Within p c outcome)
    (hle : start ≤ p) : Within start c outcome := by
  cases outcome with
  | ok a c' => exact h
  | error e c' =>
      obtain ⟨hadv, hfrom, hbounds⟩ := h
      exact ⟨hadv, Nat.le_trans hle hfrom, hbounds⟩

/-- Want of tokens is told with what is left. -/
theorem within_failShort {start : Nat} {c : TokenCursor} (hc : start ≤ c.position) {wanted : Nat}
    (hwanted : c.remaining < wanted) : Within start c ((failShort wanted : Decoder α).run c) := by
  refine ⟨⟨[], TokenCursor.advances_nil_iff.2 rfl⟩, hc, Nat.le_refl c.position, ?_, nofun⟩
  intro _ _ h
  obtain ⟨rfl, rfl⟩ := DecodeFault.unexpectedEnd.inj h
  exact ⟨rfl, rfl, hwanted⟩

/-- Run from `start` or behind it, the decoder stays inside the stream. -/
def Bounded (start : Nat) (d : Decoder α) : Prop :=
  ∀ c : TokenCursor, start ≤ c.position → Within start c (d.run c)

namespace Bounded

variable {start : Nat} {d : Decoder α}

theorem pure (a : α) : Bounded start (Pure.pure a : Decoder α) :=
  fun _ _ => ⟨[], TokenCursor.advances_nil_iff.2 rfl⟩

theorem failAt {fault : DecodeFault} (hfault : fault.OfToken) :
    Bounded start (Decoder.failAt start fault : Decoder α) := by
  intro c hc
  refine ⟨⟨[], TokenCursor.advances_nil_iff.2 rfl⟩, Nat.le_refl start, hc, ?_, ?_⟩
  · rintro wanted remaining rfl
    exact absurd (.unexpectedEnd wanted remaining) hfault
  · rintro declared available rfl
    exact hfault (.badDeclaredLength declared available)

theorem bind {f : α → Decoder β} (hd : Bounded start d) (hf : ∀ a, Bounded start (f a)) :
    Bounded start (d >>= f) := by
  intro c hc
  have hfirst := hd c hc
  rw [EStateM.run_bind]
  cases hrun : d.run c with
  | ok a c₁ =>
      rw [hrun] at hfirst
      obtain ⟨ts, hadv⟩ := hfirst
      have hc₁ : start ≤ c₁.position := by
        rw [hadv.position]
        exact Nat.le_add_right_of_le hc
      exact (hf a c₁ hc₁).of_advances hadv
  | error e c₁ =>
      rw [hrun] at hfirst
      exact hfirst

theorem position : Bounded start Decoder.position :=
  fun _ _ => ⟨[], TokenCursor.advances_nil_iff.2 rfl⟩

/-- Behind a position that is noted faults may be reported there. -/
theorem position_bind {f : Nat → Decoder α} (hf : ∀ p, Bounded p (f p)) :
    Bounded start (Decoder.position >>= f) := by
  intro c hc
  rw [EStateM.run_bind, run_position]
  exact (hf c.position c (Nat.le_refl c.position)).mono hc

/-- A refusal of a token, and if there is none, the decoder goes on. -/
theorem guard {C : Prop} [Decidable C] {fault : DecodeFault} {f : β → Decoder α}
    (hfault : fault.OfToken) (hd : Bounded start d) :
    Bounded start (if C then Decoder.failAt start fault >>= f else d) := by
  by_cases hC : C
  · rw [if_pos hC]
    intro c hc
    exact failAt hfault c hc
  · rw [if_neg hC]
    exact hd

theorem token : Bounded start Decoder.token := by
  intro c hc
  obtain ⟨p, rest⟩ := c
  cases rest with
  | nil => exact within_failShort hc Nat.zero_lt_one
  | cons t rest => exact ⟨[t], rfl, rfl⟩

theorem doubleToken : Bounded start Decoder.doubleToken := by
  intro c hc
  obtain ⟨p, rest⟩ := c
  match rest with
  | [] => exact within_failShort hc Nat.zero_lt_two
  | [low] => exact within_failShort hc Nat.one_lt_two
  | low :: high :: rest => exact ⟨[low, high], rfl, rfl⟩

theorem times (hd : Bounded start d) (n : Nat) : Bounded start (Decoder.times n d) := by
  induction n with
  | zero => exact pure []
  | succ n ih => exact hd.bind fun a => ih.bind fun as => pure (a :: as)

/-- No decoder complains of a declared length. -/
theorem fault_ne_badDeclaredLength (hd : Bounded 0 d) {c c' : TokenCursor} {e : DecodeError}
    (h : d.run c = .error e c') (declared available : Nat) :
    e.fault ≠ .badDeclaredLength declared available := by
  have hwithin := hd c (Nat.zero_le _)
  rw [h] at hwithin
  obtain ⟨-, -, -, -, hframe⟩ := hwithin
  exact hframe declared available

end Bounded

/-! ## In a token list -/

/-- The outcome of reading from token `p` on lies inside the tokens: the cursor stands at a token
    from `p` on or at the end, and an error points at one between `p` and the cursor. Want of tokens
    is told at the cursor, with the number of tokens from there to the end. -/
def StaysInside (tokens : List UInt32) (p : Nat) :
    EStateM.Result DecodeError TokenCursor α → Prop
  | .ok _ c => ∃ q, p ≤ q ∧ q ≤ tokens.length ∧ c = .ofTokens tokens q
  | .error e c => ∃ q, p ≤ q ∧ q ≤ tokens.length ∧ c = .ofTokens tokens q
      ∧ p ≤ e.position ∧ e.position ≤ q
      ∧ ∀ wanted remaining, e.fault = .unexpectedEnd wanted remaining →
          e.position = q ∧ e.position + remaining = tokens.length ∧ remaining < wanted

theorem Bounded.staysInside {d : Decoder α} {tokens : List UInt32} {p : Nat} (hd : Bounded p d)
    (hp : p ≤ tokens.length) : StaysInside tokens p (d.run (.ofTokens tokens p)) := by
  have hstart := TokenCursor.position_ofTokens hp
  have hwithin := hd (.ofTokens tokens p) (Nat.le_of_eq hstart.symm)
  -- A cursor that has passed tokens of the list stands in the list.
  have hplace : ∀ ts c, (TokenCursor.ofTokens tokens p).Advances ts c →
      p ≤ p + ts.length ∧ p + ts.length ≤ tokens.length ∧ c = .ofTokens tokens (p + ts.length) := by
    intro ts c hadv
    obtain ⟨hts, hc⟩ := (TokenCursor.advances_ofTokens_iff hp).1 hadv
    have hlen := congrArg List.length hts
    rw [List.length_take, List.length_drop] at hlen
    exact ⟨Nat.le_add_right _ _, by omega, hc⟩
  cases hrun : d.run (.ofTokens tokens p) with
  | ok a c =>
      rw [hrun] at hwithin
      obtain ⟨ts, hadv⟩ := hwithin
      exact ⟨_, hplace ts c hadv⟩
  | error e c =>
      rw [hrun] at hwithin
      obtain ⟨⟨ts, hadv⟩, hfrom, hto, hshort, -⟩ := hwithin
      obtain ⟨hle, hend, rfl⟩ := hplace ts c hadv
      rw [TokenCursor.position_ofTokens hend] at hto hshort
      refine ⟨_, hle, hend, rfl, hfrom, hto, fun wanted remaining h => ?_⟩
      obtain ⟨hat, hleft, hlt⟩ := hshort wanted remaining h
      have hall := TokenCursor.position_add_remaining_ofTokens tokens (p + ts.length)
      rw [TokenCursor.position_ofTokens hend, ← hleft, ← hat] at hall
      exact ⟨hat, hall, hlt⟩

end Decoder

end ShaderBytecode
