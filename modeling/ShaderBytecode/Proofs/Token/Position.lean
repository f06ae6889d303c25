import ShaderBytecode.Token.Cursor

set_option autoImplicit false

/-! # Reading from another place

Nothing that a decoder reads depends on how many tokens lie before it: started further on, it reads
the same, ends as much further on, and notices the same fault, as much further on
(`Decoder.Moved`). The positions that a decoder notes for its error messages move along with it, so
decoders that are handed such a position come in pairs, one for each place. -/

namespace ShaderBytecode

/-- The same tokens behind `k` more tokens. -/
def TokenCursor.moved (k : Nat) (c : TokenCursor) : TokenCursor :=
  { c with position := c.position + k }

/-- The same fault, noticed `k` tokens further on. -/
def DecodeError.moved (k : Nat) (e : DecodeError) : DecodeError :=
  { e with position := e.position + k }

namespace Decoder

variable {α β : Type}

/-- The same outcome `k` tokens further on. -/
def movedResult (k : Nat) :
    EStateM.Result DecodeError TokenCursor α → EStateM.Result DecodeError TokenCursor α
  | .ok a c => .ok a (c.moved k)
  | .error e c => .error (e.moved k) (c.moved k)

/-- What the first decoder does at any place, the second does `k` tokens further on. -/
def Moved (k : Nat) (d d' : Decoder α) : Prop :=
  ∀ c, d'.run (c.moved k) = movedResult k (d.run c)

namespace Moved

variable {k : Nat}

theorem pure (a : α) : Moved k (Pure.pure a) (Pure.pure a) := fun _ => rfl

theorem failAt (p : Nat) (fault : DecodeFault) :
    Moved k (Decoder.failAt p fault : Decoder α) (Decoder.failAt (p + k) fault) := fun _ => rfl

theorem bind {d d' : Decoder α} {f f' : α → Decoder β} (hd : Moved k d d')
    (hf : ∀ a, Moved k (f a) (f' a)) : Moved k (d >>= f) (d' >>= f') := by
  intro c
  rw [EStateM.run_bind, EStateM.run_bind, hd c]
  cases d.run c with
  | ok a c₁ => exact hf a c₁
  | error e c₁ => rfl

/-- A position that is noted is noted `k` tokens further on. -/
theorem position_bind {f f' : Nat → Decoder α} (hf : ∀ p, Moved k (f p) (f' (p + k))) :
    Moved k (position >>= f) (position >>= f') := fun c => hf c.position c

/-- What is seen of the state is the same but for the position. -/
theorem get_bind {f f' : TokenCursor → Decoder α} (hf : ∀ c, Moved k (f c) (f' (c.moved k))) :
    Moved k (get >>= f) (get >>= f') := fun c => hf c c

/-- A refusal is made at both places, and if there is none, the decoders go on. -/
theorem guard {C : Prop} [Decidable C] {p : Nat} {fault : DecodeFault} {f f' : β → Decoder α}
    {d d' : Decoder α} (hd : Moved k d d') :
    Moved k (if C then Decoder.failAt p fault >>= f else d)
      (if C then Decoder.failAt (p + k) fault >>= f' else d') := by
  by_cases hC : C
  · simp only [hC, if_true]
    intro c
    rfl
  · simp only [hC, if_false]
    exact hd

theorem token : Moved k Decoder.token Decoder.token := by
  intro c
  obtain ⟨p, rest⟩ := c
  cases rest with
  | nil => rfl
  | cons t rest =>
      show EStateM.Result.ok t (TokenCursor.mk (p + k + 1) rest)
        = .ok t (TokenCursor.mk (p + 1 + k) rest)
      rw [Nat.add_right_comm]

theorem doubleToken : Moved k Decoder.doubleToken Decoder.doubleToken := by
  intro c
  obtain ⟨p, rest⟩ := c
  match rest with
  | [] => rfl
  | [low] => rfl
  | low :: high :: rest =>
      show EStateM.Result.ok _ (TokenCursor.mk (p + k + 2) rest)
        = .ok _ (TokenCursor.mk (p + 2 + k) rest)
      rw [Nat.add_right_comm]

theorem times {d d' : Decoder α} (hd : Moved k d d') (n : Nat) :
    Moved k (Decoder.times n d) (Decoder.times n d') := by
  induction n with
  | zero => exact pure []
  | succ n ih => exact hd.bind fun a => ih.bind fun as => pure (a :: as)

end Moved

end Decoder

end ShaderBytecode
