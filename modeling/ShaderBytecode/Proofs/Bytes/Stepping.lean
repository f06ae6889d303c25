import Mathlib.Algebra.Group.Nat.Defs
import ShaderBytecode.Proofs.Bytes.Records

set_option autoImplicit false

/-! # Reading step by step

A buffer is read step by step: numbers, tags and bytes one behind the other, strings from anywhere,
and a fork goes on from another place. A step that fails does not end the sequence, since it leaves
the cursor where it was.

At the cursor an item is read exactly if its bytes are there, and then the cursor moves behind them
(`ByteReader.Consumes`). So whatever the steps are, the cursor stays in the buffer
(`ByteCursor.Inside`), and all that is returned between two forks, one behind the other, is the
part of the buffer that the cursor passed over (`ByteCursor.Passes`). -/

namespace ShaderBytecode

open LittleEndian (encode)

/-! ## Steps as values -/

namespace ByteReader

/-- What can be read at the cursor. -/
inductive Item where
  | uint8 | uint16 | uint32 | tag | checksum
  | bytes (count : Nat)
  deriving DecidableEq, Repr

/-- One step of reading with its arguments. -/
inductive Step where
  | read (item : Item)
  | string (offset : Nat)
  | fork (offset : Nat)
  deriving DecidableEq, Repr

/-- What a step returns. -/
inductive Answer where
  | uint8 (value : UInt8)
  | uint16 (value : UInt16)
  | uint32 (value : UInt32)
  | tag (value : Tag)
  | bytes (value : List UInt8)
  | string (value : String)
  | forked
  deriving DecidableEq, Repr

/-- The bytes of what was read at the cursor, those of a number in little-endian order. -/
def Answer.stored : Answer → List UInt8
  | .uint8 value => encode 1 value.toNat
  | .uint16 value => encode 2 value.toNat
  | .uint32 value => encode 4 value.toNat
  | .tag value => value.toList
  | .bytes value => value
  | .string _ | .forked => []

/-- How many bytes an item takes up. -/
def Item.length : Item → Nat
  | .uint8 => 1
  | .uint16 => 2
  | .uint32 | .tag => 4
  | .checksum => 16
  | .bytes count => count

/-- Read an item. -/
def Item.read : Item → ByteReader Answer
  | .uint8 => return .uint8 (← ByteReader.uint8)
  | .uint16 => return .uint16 (← ByteReader.uint16)
  | .uint32 => return .uint32 (← ByteReader.uint32)
  | .tag => return .tag (← ByteReader.tag)
  | .checksum => return .bytes (← ByteReader.take 16)
  | .bytes count => return .bytes (← ByteReader.take count)

/-- Perform a step. -/
def Step.perform : Step → ByteReader Answer
  | .read item => item.read
  | .string offset => return .string (← ByteReader.string offset)
  | .fork offset => do
      ByteReader.seek offset
      return .forked

end ByteReader

namespace ByteCursor

open ByteReader (Step)

/-- The cursor after a step, whether or not the step succeeded. -/
def after (c : ByteCursor) (step : Step) : ByteCursor :=
  match step.perform.run c with
  | .ok _ c' => c'
  | .error _ c' => c'

/-- The cursor after several steps. Steps that fail do not end the sequence. -/
def afterAll (c : ByteCursor) (steps : List Step) : ByteCursor := steps.foldl after c

/-- The bytes that a step returns, if it succeeds. -/
def returned (c : ByteCursor) (step : Step) : List UInt8 :=
  match step.perform.run c with
  | .ok answer _ => answer.stored
  | .error _ _ => []

/-- The bytes that several steps return, one behind the other. -/
def returnedAll : ByteCursor → List Step → List UInt8
  | _, [] => []
  | c, step :: steps => c.returned step ++ (c.after step).returnedAll steps

end ByteCursor

/-! ## Reading an item -/

namespace ByteReader

variable {α β : Type}

/-- The reader reads `count` bytes at the cursor if there are so many; `stored` gives them back from
    what is returned. Else it fails and the cursor stays. -/
def Consumes (reader : ByteReader α) (count : Nat) (stored : α → List UInt8) : Prop :=
  ∀ bytes position, bytes.length < UInt64.size →
    (position + count ≤ bytes.length →
      ∃ a, reader.run ⟨bytes, position⟩ = .ok a ⟨bytes, position + count⟩
        ∧ stored a = (bytes.drop position).take count)
    ∧ (bytes.length < position + count →
      ∃ e, reader.run ⟨bytes, position⟩ = .error e ⟨bytes, position⟩)

theorem consumes_take (count : Nat) : (take count).Consumes count id := by
  intro bytes position hsize
  refine ⟨fun henough => ?_, fun hshort => ?_⟩
  · exact ⟨_, takes_take count bytes position henough (by omega), rfl⟩
  · have houtside : position + count > bytes.length := hshort
    simp only [take, EStateM.run_bind, EStateM.run_get, houtside, if_true]
    by_cases hlong : position + count ≥ UInt64.size
    · exact ⟨.readTooLong count position, by rw [if_pos hlong]; rfl⟩
    · exact ⟨.readOutside count position bytes.length, by rw [if_neg hlong]; rfl⟩

/-- Also a function of what is read can give the bytes back. -/
theorem Consumes.bind_pure {reader : ByteReader α} {count : Nat} {stored : α → List UInt8}
    (h : reader.Consumes count stored) {f : α → β} {stored' : β → List UInt8}
    (hf : ∀ a, (stored a).length = count → stored' (f a) = stored a) :
    (reader >>= fun a => pure (f a)).Consumes count stored' := by
  intro bytes position hsize
  obtain ⟨hread, hfail⟩ := h bytes position hsize
  refine ⟨fun henough => ?_, fun hshort => ?_⟩
  · obtain ⟨a, hrun, hstored⟩ := hread henough
    have hlength : (stored a).length = count := by
      rw [hstored]
      exact List.length_take_of_le (by rw [List.length_drop]; omega)
    refine ⟨f a, ?_, (hf a hlength).trans hstored⟩
    rw [EStateM.run_bind, hrun]
    rfl
  · obtain ⟨e, hrun⟩ := hfail hshort
    refine ⟨e, ?_⟩
    rw [EStateM.run_bind, hrun]

theorem consumes_number (count : Nat) : (number count).Consumes count (encode count) :=
  (consumes_take count).bind_pure fun bytes hlength => by
    subst hlength
    exact LittleEndian.encode_decode bytes

/-- A word that holds the lowest bytes of a number holds all that were read. -/
theorem consumes_word (count : Nat) (ofNat : Nat → α) (toNat : α → Nat)
    (h : ∀ n, toNat (ofNat n) = n % LittleEndian.capacity count) :
    (number count >>= fun n => pure (ofNat n)).Consumes count (encode count <| toNat ·) :=
  (consumes_number count).bind_pure fun n _ => by
    rw [h]
    exact LittleEndian.encode_mod count n

theorem consumes_tag : tag.Consumes 4 Tag.toList :=
  (consumes_take 4).bind_pure fun bytes hlength => by
    match bytes, hlength with
    | [_, _, _, _], _ => rfl

theorem consumes_read (item : Item) : item.read.Consumes item.length Answer.stored := by
  cases item with
  | uint8 =>
      have hword := consumes_word 1 UInt8.ofNat UInt8.toNat fun _ => UInt8.toNat_ofNat'
      exact hword.bind_pure fun _ _ => rfl
  | uint16 =>
      have hword := consumes_word 2 UInt16.ofNat UInt16.toNat fun _ => UInt16.toNat_ofNat'
      exact hword.bind_pure fun _ _ => rfl
  | uint32 =>
      have hword := consumes_word 4 UInt32.ofNat UInt32.toNat fun _ => UInt32.toNat_ofNat'
      exact hword.bind_pure fun _ _ => rfl
  | tag => exact consumes_tag.bind_pure fun _ _ => rfl
  | checksum => exact (consumes_take 16).bind_pure fun _ _ => rfl
  | bytes count => exact (consumes_take count).bind_pure fun _ _ => rfl

/-! ## The other steps -/

/-- A string is read without the cursor. -/
theorem run_string (c : ByteCursor) (offset : Nat) :
    (∃ s, (string offset).run c = .ok s c ∧ stringAt c.bytes offset = .ok s)
      ∨ ∃ e, (string offset).run c = .error e c ∧ stringAt c.bytes offset = .error e := by
  simp only [string, EStateM.run_bind, EStateM.run_get]
  cases h : stringAt c.bytes offset with
  | ok s => exact .inl ⟨s, rfl, rfl⟩
  | error e => exact .inr ⟨e, rfl, rfl⟩

theorem run_string_eq_ok_iff {c : ByteCursor} {offset : Nat} {s : String} :
    (string offset).run c = .ok s c ↔ stringAt c.bytes offset = .ok s := by
  rcases run_string c offset with ⟨s', hrun, hat⟩ | ⟨e, hrun, hat⟩
  · simp [hrun, hat]
  · simp [hrun, hat]

theorem run_seek_of_lt {bytes : List UInt8} {offset position : Nat} (h : bytes.length < offset) :
    (seek offset).run ⟨bytes, position⟩
      = .error (.seekOutside offset bytes.length) ⟨bytes, position⟩ := by
  have houtside : offset > bytes.length := h
  simp only [seek, EStateM.run_bind, EStateM.run_get, houtside, if_true]
  rfl

end ByteReader

/-! ## Where the cursor goes -/

namespace ByteCursor

open ByteReader (Item Step)

variable {bytes : List UInt8} {c c' : ByteCursor}

/-- The cursor stands in the bytes or at their end, and their places are 64-bit numbers. -/
structure Inside (bytes : List UInt8) (c : ByteCursor) : Prop where
  bytes_eq : c.bytes = bytes
  le : c.position ≤ bytes.length
  size : bytes.length < UInt64.size

theorem inside_start (hsize : bytes.length < UInt64.size) : Inside bytes (.start bytes) :=
  ⟨rfl, Nat.zero_le _, hsize⟩

/-- The cursor `c'` stands behind the part, which `c` stands in front of. -/
structure Passes (c : ByteCursor) (part : List UInt8) (c' : ByteCursor) : Prop where
  bytes_eq : c'.bytes = c.bytes
  rest : c.bytes.drop c.position = part ++ c'.bytes.drop c'.position
  position : c'.position = c.position + part.length

namespace Passes

variable {part other : List UInt8}

theorem refl (c : ByteCursor) : c.Passes [] c := ⟨rfl, rfl, rfl⟩

theorem append {c₁ : ByteCursor} (h : c.Passes part c₁) (hnext : c₁.Passes other c') :
    c.Passes (part ++ other) c' where
  bytes_eq := hnext.bytes_eq.trans h.bytes_eq
  rest := by rw [h.rest, hnext.rest, List.append_assoc]
  position := by rw [hnext.position, h.position, List.length_append, Nat.add_assoc]

theorem inside (h : c.Passes part c') (hc : c.Inside bytes) : c'.Inside bytes where
  bytes_eq := h.bytes_eq.trans hc.bytes_eq
  le := by
    have hlength := congrArg List.length h.rest
    have hposition := h.position
    have hle := hc.le
    rw [List.length_append, List.length_drop, hc.bytes_eq] at hlength
    omega
  size := hc.size

theorem eq_extract (h : c.Passes part c') : part = c.bytes.extract c.position c'.position := by
  have hlength : c'.position - c.position = part.length := by
    rw [h.position, Nat.add_sub_cancel_left]
  rw [List.extract_eq_take_drop, h.rest, hlength, List.take_left]

end Passes

/-- What a step can do: it fails and the cursor stays, or it is a fork and the cursor goes to
    another place of the bytes, or the cursor passes over what the step returns. -/
theorem Inside.step_cases (hc : c.Inside bytes) (step : Step) :
    (∃ e, step.perform.run c = .error e c)
      ∨ (∃ offset, step = .fork offset ∧ offset ≤ bytes.length
        ∧ step.perform.run c = .ok .forked ⟨bytes, offset⟩)
      ∨ ∃ answer c', step.perform.run c = .ok answer c' ∧ c.Passes answer.stored c' := by
  obtain ⟨bytes, position⟩ := c
  obtain ⟨rfl, hle, hsize⟩ := hc
  cases step with
  | read item =>
      obtain ⟨hread, hfail⟩ := ByteReader.consumes_read item bytes position hsize
      by_cases henough : position + item.length ≤ bytes.length
      · obtain ⟨answer, hrun, hstored⟩ := hread henough
        refine .inr (.inr ⟨answer, _, hrun, rfl, ?_, ?_⟩)
        · rw [hstored, ← List.drop_drop, List.take_append_drop]
        · rw [hstored, List.length_take_of_le (by rw [List.length_drop]; omega)]
      · exact .inl (hfail (by omega))
  | string offset =>
      rcases ByteReader.run_string ⟨bytes, position⟩ offset with ⟨s, hrun, -⟩ | ⟨e, hrun, -⟩
      · refine .inr (.inr ⟨.string s, _, ?_, .refl _⟩)
        rw [Step.perform, EStateM.run_bind, hrun]
        rfl
      · refine .inl ⟨e, ?_⟩
        rw [Step.perform, EStateM.run_bind, hrun]
  | fork offset =>
      by_cases hoffset : offset ≤ bytes.length
      · refine .inr (.inl ⟨offset, rfl, hoffset, ?_⟩)
        rw [Step.perform, EStateM.run_bind, ByteReader.run_seek hoffset]
        rfl
      · refine .inl ⟨.seekOutside offset bytes.length, ?_⟩
        rw [Step.perform, EStateM.run_bind, ByteReader.run_seek_of_lt (by omega)]

theorem Inside.eq_of_error (hc : c.Inside bytes) {step : Step} {e : ContainerError}
    (h : step.perform.run c = .error e c') : c' = c := by
  rcases hc.step_cases step with ⟨_, hrun⟩ | ⟨_, -, -, hrun⟩ | ⟨_, _, hrun, -⟩
  · cases hrun.symm.trans h
    rfl
  · cases hrun.symm.trans h
  · cases hrun.symm.trans h

theorem Inside.after (hc : c.Inside bytes) (step : Step) : (c.after step).Inside bytes := by
  unfold ByteCursor.after
  rcases hc.step_cases step with ⟨_, hrun⟩ | ⟨_, -, hle, hrun⟩ | ⟨_, _, hrun, hpasses⟩
  · rw [hrun]
    exact hc
  · rw [hrun]
    exact ⟨rfl, hle, hc.size⟩
  · rw [hrun]
    exact hpasses.inside hc

theorem Inside.afterAll (hc : c.Inside bytes) (steps : List Step) :
    (c.afterAll steps).Inside bytes := by
  induction steps generalizing c with
  | nil => exact hc
  | cons step steps ih => exact ih (hc.after step)

/-- An item is read exactly if its bytes are left, and the cursor advances by as many. -/
theorem Inside.run_read (hc : c.Inside bytes) (item : Item) :
    ((∃ answer c', (Step.read item).perform.run c = .ok answer c') ↔ item.length ≤ c.remaining)
      ∧ ∀ answer c', (Step.read item).perform.run c = .ok answer c' →
        c' = ⟨bytes, c.position + item.length⟩ := by
  obtain ⟨bytes, position⟩ := c
  obtain ⟨rfl, hle, hsize⟩ := hc
  obtain ⟨hread, hfail⟩ := ByteReader.consumes_read item bytes position hsize
  rw [Step.perform, remaining]
  dsimp only at hle ⊢
  by_cases henough : position + item.length ≤ bytes.length
  · obtain ⟨answer, hrun, -⟩ := hread henough
    refine ⟨⟨fun _ => by omega, fun _ => ⟨_, _, hrun⟩⟩, ?_⟩
    intro _ _ h
    exact (EStateM.Result.ok.inj (h.symm.trans hrun)).2
  · obtain ⟨e, hrun⟩ := hfail (by omega)
    refine ⟨⟨?_, fun _ => by omega⟩, ?_⟩
    · rintro ⟨_, _, h⟩
      cases h.symm.trans hrun
    · intro _ _ h
      cases h.symm.trans hrun

theorem after_string (c : ByteCursor) (offset : Nat) : c.after (.string offset) = c := by
  unfold ByteCursor.after
  rw [Step.perform, EStateM.run_bind]
  rcases ByteReader.run_string c offset with ⟨s, hrun, -⟩ | ⟨e, hrun, -⟩
  · rw [hrun]
    rfl
  · rw [hrun]

theorem Inside.after_fork (hc : c.Inside bytes) (offset : Nat) :
    c.after (.fork offset) = if offset ≤ bytes.length then ⟨bytes, offset⟩ else c := by
  obtain ⟨bytes, position⟩ := c
  obtain ⟨rfl, -, -⟩ := hc
  unfold ByteCursor.after
  rw [Step.perform, EStateM.run_bind]
  by_cases hoffset : offset ≤ bytes.length
  · rw [ByteReader.run_seek hoffset, if_pos hoffset]
    rfl
  · rw [ByteReader.run_seek_of_lt (by omega), if_neg hoffset]

/-- Unless it is a fork that succeeds, a step passes over what it returns. -/
theorem Inside.passes_after (hc : c.Inside bytes) {step : Step}
    (hstep : ∀ offset, step = .fork offset → bytes.length < offset) :
    c.Passes (c.returned step) (c.after step) := by
  unfold returned ByteCursor.after
  rcases hc.step_cases step with ⟨_, hrun⟩ | ⟨offset, hfork, hle, -⟩ | ⟨_, _, hrun, hpasses⟩
  · rw [hrun]
    exact .refl c
  · exact absurd hle (Nat.not_le.2 (hstep offset hfork))
  · rw [hrun]
    exact hpasses

/-- Steps without such a fork pass over what they return. -/
theorem Inside.passes_afterAll (hc : c.Inside bytes) {steps : List Step}
    (hsteps : ∀ offset, .fork offset ∈ steps → bytes.length < offset) :
    c.Passes (c.returnedAll steps) (c.afterAll steps) := by
  induction steps generalizing c with
  | nil => exact .refl c
  | cons step steps ih =>
      have hfirst : c.Passes (c.returned step) (c.after step) :=
        hc.passes_after fun offset heq => hsteps offset (heq ▸ List.mem_cons_self)
      exact hfirst.append (ih (hc.after step) fun offset hmem =>
        hsteps offset (List.mem_cons_of_mem _ hmem))

/-- **A reader of bytes is a faithful cursor** of every buffer whose places are 64-bit numbers.
    Whatever the steps before, the cursor is in the buffer. A step that fails leaves it where it
    was, and so does the reading of a string. An item is read exactly if its bytes are left, and the
    cursor advances by as many; a fork goes to its place if there is one. All that is returned by
    steps without a fork that succeeds is the part of the buffer from where the cursor was to where
    it is. A string is read exactly if its bytes, none of them zero, stand in their place with a
    zero behind them. -/
theorem faithful_afterAll (bytes : List UInt8) (hsize : bytes.length < UInt64.size)
    (before : List Step) :
    let c := (start bytes).afterAll before
    c.bytes = bytes ∧ c.position ≤ bytes.length
      ∧ (∀ (step : Step) e c', step.perform.run c = .error e c' → c' = c)
      ∧ (∀ offset, c.after (.string offset) = c)
      ∧ (∀ item : Item,
        ((∃ answer c', (Step.read item).perform.run c = .ok answer c') ↔ item.length ≤ c.remaining)
          ∧ ∀ answer c', (Step.read item).perform.run c = .ok answer c' →
            c' = ⟨bytes, c.position + item.length⟩)
      ∧ (∀ offset, c.after (.fork offset) = if offset ≤ bytes.length then ⟨bytes, offset⟩ else c)
      ∧ (∀ steps, (∀ offset, .fork offset ∈ steps → bytes.length < offset) →
        c.position ≤ (c.afterAll steps).position
          ∧ c.returnedAll steps = bytes.extract c.position (c.afterAll steps).position)
      ∧ ∀ offset s, (ByteReader.string offset).run c = .ok s c
        ↔ 0 ∉ s.toUTF8.data.toList ∧ Holds bytes offset (s.toUTF8.data.toList ++ [0]) := by
  intro c
  have hc : c.Inside bytes := (inside_start hsize).afterAll before
  refine ⟨hc.bytes_eq, hc.le, fun step e c' => hc.eq_of_error, after_string c, hc.run_read,
    hc.after_fork, ?_, ?_⟩
  · intro steps hsteps
    have hpasses := hc.passes_afterAll hsteps
    refine ⟨Nat.le.intro hpasses.position.symm, ?_⟩
    rw [hpasses.eq_extract, hc.bytes_eq]
  · intro offset s
    rw [ByteReader.run_string_eq_ok_iff, hc.bytes_eq, stringAt_eq_ok_iff, nulFree_iff, nameBytes]

/-- A read whose end is beyond all 64-bit numbers and a fork behind the end change nothing, and what
    is read after them comes from where the cursor was left. -/
theorem faithful_afterAll_overflow :
    let bytes : List UInt8 := [7, 2, 1, 0x41, 0xC3, 0xA9, 0]
    let c := (start bytes).afterAll [.read .uint8, .read (.bytes (UInt64.size - 1)), .fork 8]
    let steps : List Step := [.read .uint16, .string 3, .read .checksum, .fork 9, .read (.bytes 3)]
    bytes.length < UInt64.size ∧ c = ⟨bytes, 1⟩ ∧ (∀ offset, .fork offset ∈ steps → 7 < offset)
      ∧ c.returnedAll steps = bytes.extract 1 6 ∧ (ByteReader.string 3).run c = .ok "Aé" c := by
  intro bytes c steps
  have hsize : bytes.length < UInt64.size := by decide
  have hc : c = ⟨bytes, 1⟩ := by decide
  have hforks : ∀ offset, .fork offset ∈ steps → 7 < offset := by
    intro offset hmem
    obtain rfl : offset = 9 := by simpa [steps] using hmem
    decide
  obtain ⟨-, -, -, -, -, -, hpassed, hstring⟩ := faithful_afterAll bytes hsize
    [.read .uint8, .read (.bytes (UInt64.size - 1)), .fork 8]
  have hreturned := (hpassed steps hforks).2.trans (by decide : _ = bytes.extract 1 6)
  have hread := (hstring 3 "Aé").2 ⟨by decide, [7, 2, 1], [], rfl, by decide⟩
  exact ⟨hsize, hc, hforks, hreturned, hread⟩

end ByteCursor

end ShaderBytecode
