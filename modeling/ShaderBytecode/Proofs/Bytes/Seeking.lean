import ShaderBytecode.Proofs.Bytes.Reading
import ShaderBytecode.Proofs.Steps

set_option autoImplicit false

/-! # Readers that can start anywhere

A reader that goes to a place first does the same wherever the cursor stands: it returns its value
(`ByteReader.Finds`) or it fails (`ByteReader.Misses`). So a table can be read record by record with
no regard to where the record before it left the cursor. No reader changes the bytes
(`ByteReader.Keeps`), and what it returns can have a property whatever the bytes are
(`ByteReader.Yields`). -/

namespace ShaderBytecode

namespace ByteReader

variable {α β : Type} {bytes : List UInt8}

/-- Wherever the cursor stands in the bytes, the reader returns the value. -/
def Finds (reader : ByteReader α) (bytes : List UInt8) (a : α) : Prop :=
  ∀ position, ∃ position', reader.run ⟨bytes, position⟩ = .ok a ⟨bytes, position'⟩

/-- Wherever the cursor stands in the bytes, the reader fails. -/
def Misses (reader : ByteReader α) (bytes : List UInt8) : Prop :=
  ∀ position, ∃ e c, reader.run ⟨bytes, position⟩ = .error e c

/-- The reader does not change the bytes that it reads. -/
def Keeps (reader : ByteReader α) : Prop :=
  ∀ c a c', reader.run c = .ok a c' → c'.bytes = c.bytes

/-- Whatever the reader returns has the property. -/
def Yields (reader : ByteReader α) (P : α → Prop) : Prop :=
  ∀ c a c', reader.run c = .ok a c' → P a

namespace Finds

theorem pure (a : α) : Finds (Pure.pure a) bytes a := fun position => ⟨position, rfl⟩

theorem bind {reader : ByteReader α} {next : α → ByteReader β} {a : α} {b : β}
    (hreader : reader.Finds bytes a) (hnext : (next a).Finds bytes b) :
    (reader >>= next).Finds bytes b := by
  intro position
  obtain ⟨position₁, hfirst⟩ := hreader position
  obtain ⟨position₂, hsecond⟩ := hnext position₁
  refine ⟨position₂, ?_⟩
  rw [EStateM.run_bind, hfirst]
  exact hsecond

theorem mapM {f : α → ByteReader β} {as : List α} {bs : List β}
    (h : List.Forall₂ (fun a b => (f a).Finds bytes b) as bs) : (as.mapM f).Finds bytes bs := by
  induction h with
  | nil => exact pure []
  | @cons a b as bs hb _ ih =>
      rw [List.mapM_cons]
      exact hb.bind (ih.bind (pure (b :: bs)))

/-- What is read from a place of the bytes is found from anywhere by going to that place first. -/
theorem seek_bind {reader : ByteReader α} {offset : Nat} {a : α} (hoffset : offset ≤ bytes.length)
    (h : ∃ position, reader.run ⟨bytes, offset⟩ = .ok a ⟨bytes, position⟩) :
    (seek offset >>= fun _ => reader).Finds bytes a := by
  intro start
  obtain ⟨position, hrun⟩ := h
  refine ⟨position, ?_⟩
  rw [EStateM.run_bind, run_seek hoffset]
  exact hrun

theorem runAt_eq {reader : ByteReader α} {a : α} (h : reader.Finds bytes a) {offset : Nat}
    (hoffset : offset ≤ bytes.length) : reader.runAt bytes offset = .ok a := by
  obtain ⟨position, hrun⟩ := h offset
  rw [runAt, ByteCursor.start, EStateM.run_bind, run_seek hoffset]
  dsimp only
  rw [hrun]

end Finds

theorem Misses.exists_error {reader : ByteReader α} (h : reader.Misses bytes) {offset : Nat}
    (hoffset : offset ≤ bytes.length) : ∃ e, reader.runAt bytes offset = .error e := by
  obtain ⟨e, c, hrun⟩ := h offset
  refine ⟨e, ?_⟩
  rw [runAt, ByteCursor.start, EStateM.run_bind, run_seek hoffset]
  dsimp only
  rw [hrun]

namespace Keeps

theorem pure (a : α) : Keeps (Pure.pure a) := by
  intro c a' c' h
  obtain ⟨-, rfl⟩ := EStateM.Result.ok.inj h
  rfl

theorem throw (e : ContainerError) : Keeps (MonadExcept.throw e : ByteReader α) := nofun

theorem bind {reader : ByteReader α} {next : α → ByteReader β} (hreader : reader.Keeps)
    (hnext : ∀ a, (next a).Keeps) : (reader >>= next).Keeps := by
  intro c b c' h
  obtain ⟨a, c₁, hfirst, hsecond⟩ := run_bind_eq_ok.1 h
  rw [hnext a c₁ b c' hsecond, hreader c a c₁ hfirst]

theorem refuse {C : Prop} [Decidable C] {e : ContainerError} {next : ByteReader α}
    (h : next.Keeps) :
    Keeps (if C then (MonadExcept.throw e >>= fun _ : PUnit => next) else next) := by
  split
  · exact (throw e).bind fun _ => h
  · exact h

end Keeps

namespace Yields

variable {P : α → Prop} {Q : β → Prop}

theorem pure {a : α} (h : P a) : Yields (Pure.pure a) P := by
  intro c a' c' hrun
  obtain ⟨rfl, -⟩ := EStateM.Result.ok.inj hrun
  exact h

theorem bind {reader : ByteReader α} {next : α → ByteReader β} (hreader : reader.Yields P)
    (hnext : ∀ a, P a → (next a).Yields Q) : (reader >>= next).Yields Q := by
  intro c b c' h
  obtain ⟨a, c₁, hfirst, hsecond⟩ := run_bind_eq_ok.1 h
  exact hnext a (hreader c a c₁ hfirst) c₁ b c' hsecond

/-- The last of two steps can decide alone. -/
theorem after {reader : ByteReader α} {next : α → ByteReader β} (hnext : ∀ a, (next a).Yields Q) :
    (reader >>= next).Yields Q :=
  bind (P := fun _ => True) (fun _ _ _ _ => trivial) fun a _ => hnext a

theorem refuse {C : Prop} [Decidable C] {e : ContainerError} {next : ByteReader α}
    (h : next.Yields P) :
    Yields (if C then (MonadExcept.throw e >>= fun _ : PUnit => next) else next) P := by
  split
  · exact after fun _ => h
  · exact h

theorem mapM {f : α → ByteReader β} (h : ∀ a, (f a).Yields Q) (as : List α) :
    (as.mapM f).Yields fun bs => ∀ b ∈ bs, Q b := by
  induction as with
  | nil => exact pure (by simp)
  | cons a as ih =>
      rw [List.mapM_cons]
      exact (h a).bind fun b hb => ih.bind fun bs hbs => pure (List.forall_mem_cons.2 ⟨hb, hbs⟩)

theorem of_runAt {reader : ByteReader α} (h : reader.Yields P) {offset : Nat} {a : α}
    (hrun : reader.runAt bytes offset = .ok a) : P a := by
  unfold runAt at hrun
  split at hrun
  · next a' c hok =>
      obtain rfl := Except.ok.inj hrun
      exact after (fun _ => h) _ _ _ hok
  · cases hrun

end Yields

theorem keeps_take (count : Nat) : (take count).Keeps := by
  intro c a c' h
  simp only [take, EStateM.run_bind, EStateM.run_get] at h
  split at h
  · cases h
  · split at h
    · cases h
    · cases h
      rfl

theorem keeps_number (count : Nat) : (number count).Keeps :=
  (keeps_take count).bind fun _ => .pure _

theorem keeps_uint8 : uint8.Keeps := (keeps_number 1).bind fun _ => .pure _

theorem keeps_uint16 : uint16.Keeps := (keeps_number 2).bind fun _ => .pure _

theorem keeps_uint32 : uint32.Keeps := (keeps_number 4).bind fun _ => .pure _

theorem keeps_seek (offset : Nat) : (seek offset).Keeps := by
  intro c a c' h
  simp only [seek, EStateM.run_bind, EStateM.run_get] at h
  split at h
  · cases h
  · cases h
    rfl

theorem run_name {owner : NameOwner} {offset position : Nat} {s : String}
    (h : stringAt bytes offset = .ok s) :
    (name owner offset).run ⟨bytes, position⟩ = .ok s ⟨bytes, position⟩ := by
  simp only [name, EStateM.run_bind, EStateM.run_get, h]
  rfl

theorem keeps_name (owner : NameOwner) (offset : Nat) : (name owner offset).Keeps := by
  intro c a c' h
  simp only [name, EStateM.run_bind, EStateM.run_get] at h
  split at h
  · cases h
    rfl
  · cases h

/-- A step for each item of a list fails if one of them does, whatever the ones before it leave
    behind. -/
theorem Misses.mapM {f : α → ByteReader β} {as : List α} (hkeeps : ∀ a, (f a).Keeps) {a : α}
    (ha : a ∈ as) (h : (f a).Misses bytes) : (as.mapM f).Misses bytes := by
  induction as with
  | nil => cases ha
  | cons first rest ih =>
      intro position
      rw [List.mapM_cons, EStateM.run_bind]
      cases hfirst : (f first).run ⟨bytes, position⟩ with
      | error e c => exact ⟨e, c, rfl⟩
      | ok b c =>
          have hc : c = ⟨bytes, c.position⟩ :=
            congrArg (ByteCursor.mk · c.position) (hkeeps first _ b c hfirst)
          rcases List.mem_cons.1 ha with rfl | hrest
          · obtain ⟨e, c', hmiss⟩ := h position
            cases hfirst.symm.trans hmiss
          · obtain ⟨e, c', hmiss⟩ := ih hrest c.position
            refine ⟨e, c', ?_⟩
            dsimp only
            rw [EStateM.run_bind, hc, hmiss]

end ByteReader

end ShaderBytecode
