import Mathlib.Data.List.Forall2

set_option autoImplicit false

/-! # Steps that can fail

Readers, writers and builders are made of steps that can fail, with a state (`EStateM`) or without
(`Except`). What a sequence of steps does is opened by these few lemmas and never by unfolding the
monad. Which errors a sequence can give is known from its steps in any of the monads
(`OnlyFails`). -/

namespace ShaderBytecode

section Except

variable {ε ε' α β : Type}

/-- Two steps of which one can fail succeed together. -/
theorem bind_eq_ok_iff {x : Except ε α} {f : α → Except ε β} {b : β} :
    (x >>= f) = .ok b ↔ ∃ a, x = .ok a ∧ f a = .ok b := by
  cases x <;> simp [bind, Except.bind]

theorem map_eq_ok_iff {x : Except ε α} {f : α → β} {b : β} :
    x.map f = .ok b ↔ ∃ a, x = .ok a ∧ f a = b := by
  cases x <;> simp [Except.map]

theorem mapError_eq_ok_iff {x : Except ε α} {f : ε → ε'} {a : α} :
    x.mapError f = .ok a ↔ x = .ok a := by
  cases x <;> simp [Except.mapError]

/-- Steps that can fail succeed on a list if each of them does. -/
theorem mapM_eq_ok_iff {f : α → Except ε β} {as : List α} {bs : List β} :
    as.mapM f = .ok bs ↔ List.Forall₂ (fun a b => f a = .ok b) as bs := by
  induction as generalizing bs with
  | nil => simp [pure, Except.pure, eq_comm]
  | cons a as ih =>
      rw [List.mapM_cons, List.forall₂_cons_left_iff]
      simp only [bind_eq_ok_iff, ih]
      constructor
      · rintro ⟨b, hb, bs, hbs, h⟩
        obtain rfl := Except.ok.inj h
        exact ⟨b, bs, hb, hbs, rfl⟩
      · rintro ⟨b, bs, hb, hbs, rfl⟩
        exact ⟨b, hb, bs, hbs, rfl⟩

/-- If steps succeed on a list, each of its members has a result, and there are no others. -/
theorem exists_of_mapM_eq_ok {f : α → Except ε β} {as : List α} {bs : List β}
    (h : as.mapM f = .ok bs) :
    (∀ a ∈ as, ∃ b ∈ bs, f a = .ok b) ∧ ∀ b ∈ bs, ∃ a ∈ as, f a = .ok b := by
  rw [mapM_eq_ok_iff] at h
  induction h with
  | nil => simp
  | cons hb _ ih =>
      constructor
      · exact List.forall_mem_cons.2 ⟨⟨_, List.mem_cons_self, hb⟩, fun a ha =>
          (ih.1 a ha).imp fun b h => ⟨List.mem_cons_of_mem _ h.1, h.2⟩⟩
      · exact List.forall_mem_cons.2 ⟨⟨_, List.mem_cons_self, hb⟩, fun b hb =>
          (ih.2 b hb).imp fun a h => ⟨List.mem_cons_of_mem _ h.1, h.2⟩⟩

end Except

/-- With a state, the second of two steps starts where the first ended. -/
theorem run_bind_eq_ok {ε σ α β : Type} {step : EStateM ε σ α} {next : α → EStateM ε σ β} {b : β}
    {s s' : σ} : (step >>= next).run s = .ok b s' ↔
      ∃ a s₁, step.run s = .ok a s₁ ∧ (next a).run s₁ = .ok b s' := by
  rw [EStateM.run_bind]
  cases h : step.run s with
  | ok a s₁ =>
      constructor
      · intro hnext
        exact ⟨a, s₁, rfl, hnext⟩
      · rintro ⟨a', s₁', heq, hnext⟩
        obtain ⟨rfl, rfl⟩ := EStateM.Result.ok.inj heq
        exact hnext
  | error e s₁ => simp

/-! ## Which errors a step can give -/

/-- A monad whose steps can fail, with or without a state. -/
class Failing (ε : outParam Type) (m : Type → Type) [Monad m] [MonadExceptOf ε m] where
  /-- The step can fail with the error. -/
  fails {α : Type} : m α → ε → Prop
  not_fails_pure {α : Type} (a : α) (e : ε) : ¬ fails (pure a) e
  eq_of_fails_throw {α : Type} {e e' : ε} : fails (throw e : m α) e' → e' = e
  fails_of_fails_bind {α β : Type} {x : m α} {f : α → m β} {e : ε} :
    fails (x >>= f) e → fails x e ∨ ∃ a, fails (f a) e

instance {ε : Type} : Failing ε (Except ε) where
  fails x e := x = .error e
  not_fails_pure a e := nofun
  eq_of_fails_throw h := (Except.error.inj h).symm
  fails_of_fails_bind {_ _ x _ _} h := by
    cases x with
    | ok a => exact .inr ⟨a, h⟩
    | error e =>
        cases h
        exact .inl rfl

instance {ε σ : Type} : Failing ε (EStateM ε σ) where
  fails x e := ∃ s s', x.run s = .error e s'
  not_fails_pure a e := nofun
  eq_of_fails_throw := by
    rintro α e e' ⟨s, s', h⟩
    cases h
    rfl
  fails_of_fails_bind := by
    rintro α β x f e ⟨s, s', h⟩
    rw [EStateM.run_bind] at h
    cases hrun : x.run s with
    | ok a s₁ =>
        rw [hrun] at h
        exact .inr ⟨a, s₁, s', h⟩
    | error e₁ s₁ =>
        rw [hrun] at h
        cases h
        exact .inl ⟨s, s', hrun⟩

instance {ε σ : Type} : Failing ε (StateT σ (Except ε)) where
  fails x e := ∃ s, x.run s = .error e
  not_fails_pure a e := nofun
  eq_of_fails_throw := by
    rintro α e e' ⟨s, h⟩
    cases h
    rfl
  fails_of_fails_bind := by
    rintro α β x f e ⟨s, h⟩
    rw [StateT.run_bind] at h
    cases hrun : x.run s with
    | ok a =>
        rw [hrun] at h
        exact .inr ⟨a.1, a.2, h⟩
    | error e₁ =>
        rw [hrun] at h
        cases h
        exact .inl ⟨s, hrun⟩

/-- All errors that the step can give have the property. -/
def OnlyFails {ε : Type} {m : Type → Type} [Monad m] [MonadExceptOf ε m] [Failing ε m] {α : Type}
    (P : ε → Prop) (x : m α) : Prop :=
  ∀ e, Failing.fails x e → P e

namespace OnlyFails

section

variable {ε : Type} {m : Type → Type} [Monad m] [MonadExceptOf ε m] [Failing ε m] {α β : Type}
  {P : ε → Prop}

theorem pure (a : α) : OnlyFails P (Pure.pure a : m α) :=
  fun e h => absurd h (Failing.not_fails_pure a e)

theorem throw {e : ε} (h : P e) : OnlyFails P (throw e : m α) :=
  fun _ he => Failing.eq_of_fails_throw he ▸ h

theorem bind {x : m α} {f : α → m β} (hx : OnlyFails P x) (hf : ∀ a, OnlyFails P (f a)) :
    OnlyFails P (x >>= f) := by
  intro e h
  rcases Failing.fails_of_fails_bind h with h | ⟨a, h⟩
  · exact hx e h
  · exact hf a e h

/-- A refusal before a step adds its own error. -/
theorem refuse {C : Prop} [Decidable C] {e : ε} {next : m α} (he : P e) (hnext : OnlyFails P next) :
    OnlyFails P (if C then (MonadExcept.throw e >>= fun _ : PUnit => next) else next) := by
  split
  · exact (throw he).bind fun _ => hnext
  · exact hnext

theorem mapM [LawfulMonad m] {f : α → m β} (h : ∀ a, OnlyFails P (f a)) (as : List α) :
    OnlyFails P (as.mapM f) := by
  induction as with
  | nil => exact pure []
  | cons a as ih =>
      rw [List.mapM_cons]
      exact (h a).bind fun b => ih.bind fun bs => pure (b :: bs)

theorem foldlM {f : β → α → m β} (h : ∀ b a, OnlyFails P (f b a)) (as : List α) (b : β) :
    OnlyFails P (as.foldlM f b) := by
  induction as generalizing b with
  | nil => exact pure b
  | cons a as ih =>
      rw [List.foldlM_cons]
      exact (h b a).bind fun b => ih b

end

/-- A step without a state can be made one of those with a state. -/
theorem lift {ε σ α : Type} {P : ε → Prop} {x : Except ε α} (h : OnlyFails P x) :
    OnlyFails P (liftM x : StateT σ (Except ε) α) := by
  rintro e ⟨s, hrun⟩
  cases x with
  | ok a => cases hrun
  | error e₁ =>
      cases hrun
      exact h e rfl

/-- An error can be told in other words. -/
theorem mapError {ε ε' α : Type} {P : ε → Prop} {Q : ε' → Prop} {f : ε → ε'} {x : Except ε α}
    (h : OnlyFails P x) (hf : ∀ e, P e → Q (f e)) : OnlyFails Q (x.mapError f) := by
  intro e he
  cases x with
  | ok a => cases he
  | error e₁ =>
      cases he
      exact hf e₁ (h e₁ rfl)

end OnlyFails

end ShaderBytecode
