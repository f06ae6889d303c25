import Mathlib.Algebra.Group.Nat.Defs
import ShaderBytecode.Proofs.Resources.Unlimited

set_option autoImplicit false

/-! # What the limit on types refuses

Reading with the limit differs from reading without it in one way: it gives up when more types were
read than the limit allows. So on whatever the unlimited reader accepts, the number of types in the
result decides, and nothing else; where the unlimited reader fails, reading with the limit fails
too, perhaps earlier (`ResourceTable.Limits`). The relation is kept by sequences of steps, each of which
costs as many types as its result has, so it passes from the types to the table. -/

namespace ShaderBytecode

namespace ResourceTable

/-- The error of a table that expands to more types than its length allows. -/
def tooManyTypes (length : Nat) : ContainerError := .typeGraphTooLarge (typeLimit length) length

/-- The reader is the other one with the limit: it returns the same value if the limit bears the
    value's cost, and gives up if not; and it fails where the other one fails. -/
structure Limits {α : Type} (length : Nat) (reader : TypeReader α)
    (unlimited : Except ContainerError α) (cost : α → Nat) : Prop where
  of_ok {a : α} : unlimited = .ok a → ∀ left, reader.run left
    = if cost a ≤ left then .ok (a, left - cost a) else .error (tooManyTypes length)
  of_error {e : ContainerError} : unlimited = .error e → ∀ left,
    reader.run left = .error e ∨ reader.run left = .error (tooManyTypes length)

namespace Limits

variable {α β γ : Type} {length : Nat}

theorem pure (a : α) : Limits length (Pure.pure a) (Pure.pure a) fun _ => 0 where
  of_ok h left := by
    obtain rfl := Except.ok.inj h
    rw [if_pos (Nat.zero_le left)]
    rfl
  of_error h := nomatch h

theorem throw (e : ContainerError) (cost : α → Nat) :
    Limits length (MonadExcept.throw e) (MonadExcept.throw e) cost where
  of_ok h := nomatch h
  of_error h _ := .inl (Except.error.inj h ▸ rfl)

/-- A step that reads no types is the same with the limit and without. -/
theorem lift_bind {step : Except ContainerError α} {next : α → TypeReader β}
    {unlimited : α → Except ContainerError β} {cost : β → Nat}
    (h : ∀ a, Limits length (next a) (unlimited a) cost) :
    Limits length ((liftM step : TypeReader α) >>= next) (step >>= unlimited) cost := by
  cases step with
  | ok a => exact h a
  | error e => exact throw e cost

/-- A refusal is the same with the limit and without. -/
theorem refuse {C : Prop} [Decidable C] {e : ContainerError} {next : TypeReader α}
    {unlimited : Except ContainerError α} {cost : α → Nat} (h : Limits length next unlimited cost) :
    Limits length (if C then (MonadExcept.throw e >>= fun _ : PUnit => next) else next)
      (if C then (MonadExcept.throw e >>= fun _ : PUnit => unlimited) else unlimited) cost := by
  split
  · exact throw e cost
  · exact h

/-- What two steps cost adds up. -/
theorem bind {reader : TypeReader α} {unlimited : Except ContainerError α}
    {next : α → TypeReader β} {unlimitedNext : α → Except ContainerError β} {m : α → Nat}
    {n total : β → Nat} (h : Limits length reader unlimited m)
    (hnext : ∀ a, Limits length (next a) (unlimitedNext a) n)
    (htotal : ∀ a b, unlimitedNext a = .ok b → total b = m a + n b) :
    Limits length (reader >>= next) (unlimited >>= unlimitedNext) total where
  of_ok {b} hb left := by
    obtain ⟨a, ha, hb⟩ := bind_eq_ok_iff.1 hb
    rw [StateT.run_bind, h.of_ok ha, htotal a b hb]
    by_cases hfirst : m a ≤ left
    · rw [if_pos hfirst]
      show (next a).run (left - m a) = _
      rw [(hnext a).of_ok hb, Nat.sub_sub]
      by_cases hsecond : n b ≤ left - m a
      · rw [if_pos hsecond, if_pos (by omega)]
      · rw [if_neg hsecond, if_neg (by omega)]
    · rw [if_neg hfirst, if_neg (by omega)]
      rfl
  of_error {e} he left := by
    rw [StateT.run_bind]
    cases hfirst : unlimited with
    | error e' =>
        rw [hfirst] at he
        obtain rfl := Except.error.inj he
        rcases h.of_error hfirst left with hrun | hrun <;> rw [hrun]
        · exact .inl rfl
        · exact .inr rfl
    | ok a =>
        rw [hfirst] at he
        rw [h.of_ok hfirst]
        split
        · exact (hnext a).of_error he _
        · exact .inr rfl

/-- The types of a list's members are counted one after another. -/
theorem mapM {f : α → TypeReader β} {unlimited : α → Except ContainerError β} {parts : β → List γ}
    (h : ∀ a, Limits length (f a) (unlimited a) fun b => (parts b).length) (as : List α) :
    Limits length (as.mapM f) (as.mapM unlimited) fun bs => (bs.flatMap parts).length := by
  induction as with
  | nil =>
      refine ⟨fun {bs} hbs left => ?_, fun he => nomatch he⟩
      obtain rfl := Except.ok.inj hbs
      exact (pure ([] : List β)).of_ok rfl left
  | cons a as ih =>
      rw [List.mapM_cons, List.mapM_cons]
      refine (h a).bind (n := fun bs => (bs.tail.flatMap parts).length) (fun b => ?_) ?_
      · refine ih.bind (n := fun _ => 0) (fun bs => pure (b :: bs)) fun bs all hall => ?_
        obtain rfl := Except.ok.inj hall
        rfl
      · intro b all hall
        obtain ⟨bs, -, hall⟩ := bind_eq_ok_iff.1 hall
        obtain rfl := Except.ok.inj hall
        rw [List.tail_cons, List.flatMap_cons, List.length_append]

/-- Counting a type adds one to what follows, and is all that reading without a limit leaves out. -/
theorem count_bind {next : TypeReader α} {unlimited : Except ContainerError α}
    {cost total : α → Nat} (h : Limits length next unlimited cost)
    (htotal : ∀ a, unlimited = .ok a → total a = cost a + 1) :
    Limits length (countType length >>= fun _ => next) unlimited total := by
  have hzero : (countType length >>= fun _ => next).run 0 = .error (tooManyTypes length) := rfl
  have hsucc (left : Nat) : (countType length >>= fun _ => next).run (left + 1) = next.run left :=
    rfl
  constructor
  · intro a ha left
    rw [htotal a ha]
    cases left with
    | zero => rw [hzero, if_neg (by omega)]
    | succ left =>
        rw [hsucc, h.of_ok ha, Nat.add_sub_add_right]
        simp only [Nat.add_le_add_iff_right]
  · intro e he left
    cases left with
    | zero => exact .inr hzero
    | succ left =>
        rw [hsucc]
        exact h.of_error he left

end Limits

/-! ## Types -/

theorem length_parts (type : ResourceType) :
    type.parts.length = (type.members.flatMap (·.type.parts)).length + 1 := by
  cases type
  rw [ResourceType.parts, TypeMember.partsOf_eq_flatMap, List.length_cons, ResourceType.members]

/-- One member of a structure, as it is read for each number of the table. -/
theorem limits_readMember {bytes : List UInt8} {levels : Nat}
    (htype : ∀ offset, Limits bytes.length (readType bytes levels offset)
      (Unlimited.readType bytes levels offset) (·.parts.length)) (place : Nat) :
    Limits bytes.length (do
      let record ← readMemberRecord.runAt bytes place
      let name ← nameAt bytes .structMember record.nameOffset
      return TypeMember.mk name record.offset (← readType bytes levels record.typeOffset))
      (Unlimited.readMember (Unlimited.readType bytes levels) bytes place)
      (·.type.parts.length) := by
  refine .lift_bind fun record => .lift_bind fun name => ?_
  refine (htype _).bind (fun type => .pure _) fun type member h => ?_
  obtain rfl := Except.ok.inj h
  rfl

theorem limits_readType (bytes : List UInt8) (levels offset : Nat) :
    Limits bytes.length (readType bytes levels offset) (Unlimited.readType bytes levels offset)
      (·.parts.length) := by
  induction levels generalizing offset with
  | zero => exact .throw _ _
  | succ levels ih =>
      rw [readType, Unlimited.readType]
      refine .count_bind (.refuse (.lift_bind fun record => .lift_bind fun _ => ?_))
        fun type _ => length_parts type
      refine (Limits.mapM (fun number => limits_readMember ih _) _).bind (fun members => .pure _) ?_
      intro members type h
      obtain rfl := Except.ok.inj h
      rfl

/-! ## Variables, buffers and the whole table -/

theorem limits_readVariable (bytes : List UInt8) (place : Nat) :
    Limits bytes.length (readVariable bytes place) (Unlimited.readVariable bytes place)
      (·.type.parts.length) := by
  refine .lift_bind fun record => .lift_bind fun name => ?_
  refine (limits_readType _ _ _).bind (fun type => .pure _) fun type v h => ?_
  obtain rfl := Except.ok.inj h
  rfl

theorem limits_readBuffer (bytes : List UInt8) (variableLength place : Nat) :
    Limits bytes.length (readBuffer bytes variableLength place)
      (Unlimited.readBuffer bytes variableLength place)
      fun buffer => (buffer.vars.flatMap (·.type.parts)).length := by
  refine .lift_bind fun record => .lift_bind fun _ => ?_
  refine (Limits.mapM (fun number => limits_readVariable _ _) _).bind
    (fun vars => .lift_bind fun name => .pure _) fun vars buffer h => ?_
  obtain ⟨name, -, h⟩ := bind_eq_ok_iff.1 h
  obtain rfl := Except.ok.inj h
  rfl

theorem limits_readBuffers (bytes : List UInt8) (header : TableHeader) :
    Limits bytes.length (readBuffers bytes header) (Unlimited.readBuffers bytes header)
      fun buffers => (buffers.flatMap fun buffer => buffer.vars.flatMap (·.type.parts)).length :=
  .mapM (fun _ => limits_readBuffer _ _ _) _

theorem typeCount_eq (table : ResourceTable) : table.typeCount
    = (table.buffers.flatMap fun buffer => buffer.vars.flatMap (·.type.parts)).length := by
  simp only [typeCount, types, List.flatMap_assoc, List.flatMap_map]

/-- Parse the payload of a resource chunk as a step that counts types. -/
def parseCounting (bytes : List UInt8) : TypeReader ResourceTable := do
  if bytes.length < headerLength then
    throw (.resourceHeaderTooShort bytes.length)
  let header ← readHeader.runAt bytes 0
  let creator ← nameAt bytes .creator header.creatorOffset
  checkRecords bytes .constantBuffer header.bufferOffset header.bufferCount bufferLength
  let buffers ← readBuffers bytes header
  checkRecords bytes .binding header.bindingOffset header.bindingCount bindingLength
  let bindings ← show Except ContainerError _ from (List.range header.bindingCount).mapM
    fun number => readBinding bytes (header.bindingOffset + number * bindingLength)
  return ⟨header.major, header.minor, header.programType, header.flags, creator, buffers, bindings⟩

/-- To parse is to count from the limit on. -/
theorem parse_eq_run' (bytes : List UInt8) :
    parse bytes = (parseCounting bytes).run' (typeLimit bytes.length) := by
  have hlift {α β : Type} (x : Except ContainerError α) (next : α → TypeReader β) (left : Nat) :
      ((liftM x : TypeReader α) >>= next).run' left = x >>= fun a => (next a).run' left := by
    cases x <;> rfl
  have hbind {α β : Type} (reader : TypeReader α) (next : α → TypeReader β) (left : Nat) :
      (reader >>= next).run' left = reader.run left >>= fun a => (next a.1).run' a.2 := by
    rw [StateT.run'_eq, StateT.run_bind, map_bind]
    rfl
  unfold parse parseCounting
  split
  · rfl
  · simp only [hlift, hbind (readBuffers _ _)]
    rfl

theorem limits_parseCounting (bytes : List UInt8) :
    Limits bytes.length (parseCounting bytes) (Unlimited.parse bytes) typeCount := by
  refine .refuse (.lift_bind fun header => .lift_bind fun creator => .lift_bind fun _ => ?_)
  refine (limits_readBuffers _ _).bind
    (fun buffers => .lift_bind fun _ => .lift_bind fun bindings => .pure _) ?_
  intro buffers table h
  obtain ⟨_, -, h⟩ := bind_eq_ok_iff.1 h
  obtain ⟨bindings, -, h⟩ := bind_eq_ok_iff.1 h
  obtain rfl := Except.ok.inj h
  exact typeCount_eq _

/-- What parsing with the limit makes of a table that is read without it. -/
theorem parse_of_unlimited {bytes : List UInt8} {table : ResourceTable}
    (h : Unlimited.parse bytes = .ok table) :
    parse bytes = if table.typeCount ≤ typeLimit bytes.length then .ok table
      else .error (tooManyTypes bytes.length) := by
  rw [parse_eq_run', StateT.run'_eq, (limits_parseCounting bytes).of_ok h]
  split <;> rfl

/-- Where nothing is read without the limit, nothing is read with it. -/
theorem parse_of_unlimited_error {bytes : List UInt8} {e : ContainerError}
    (h : Unlimited.parse bytes = .error e) :
    parse bytes = .error e ∨ parse bytes = .error (tooManyTypes bytes.length) := by
  rw [parse_eq_run', StateT.run'_eq]
  rcases (limits_parseCounting bytes).of_error h (typeLimit bytes.length) with hrun | hrun
  · exact .inl (by rw [hrun]; rfl)
  · exact .inr (by rw [hrun]; rfl)

/-- A table that is parsed is read without the limit too, and meets it. -/
theorem unlimited_of_parse {bytes : List UInt8} {table : ResourceTable}
    (h : parse bytes = .ok table) :
    Unlimited.parse bytes = .ok table ∧ table.typeCount ≤ typeLimit bytes.length := by
  cases hunlimited : Unlimited.parse bytes with
  | ok unlimited =>
      rw [parse_of_unlimited hunlimited] at h
      split at h
      · next hcount =>
          obtain rfl := Except.ok.inj h
          exact ⟨rfl, hcount⟩
      · cases h
  | error e =>
      rcases parse_of_unlimited_error hunlimited with hparse | hparse <;> cases hparse.symm.trans h

/-- **The limit on types refuses exactly the tables that expand too far.** A table that is read
    without the limit is parsed to the same if the trees of its variables have no more types than
    there are groups of four bytes, and refused for its number of types if they have more; what is
    not read without the limit is not parsed. So of whatever is parsed the trees are small and no
    deeper than eight levels, all structures in them have the members that they declare, and no
    variable has a type that leads to a member of itself. -/
theorem parse_refuses_oversized (bytes : List UInt8) :
    (∀ table, Unlimited.parse bytes = .ok table →
        (table.typeCount ≤ bytes.length / 4 → parse bytes = .ok table)
          ∧ (bytes.length / 4 < table.typeCount → ∃ e, parse bytes = .error e
            ∧ e.category = .chunk ∧ e = .typeGraphTooLarge (bytes.length / 4) bytes.length))
      ∧ (∀ e, Unlimited.parse bytes = .error e → ∃ e', parse bytes = .error e')
      ∧ (∀ table, parse bytes = .ok table → table.typeCount ≤ bytes.length / 4
        ∧ ∀ type ∈ table.types, type.levels ≤ 8
          ∧ ∀ part ∈ type.parts, part.members.length = part.memberCount.toNat)
      ∧ ∀ offset, IsVariableType bytes offset → Endless bytes offset →
        ∃ e, parse bytes = .error e := by
  refine ⟨fun table h => ⟨fun hcount => ?_, fun hcount => ?_⟩, fun e h => ?_, fun table h => ?_, ?_⟩
  · exact (parse_of_unlimited h).trans (if_pos hcount)
  · exact ⟨_, (parse_of_unlimited h).trans (if_neg (Nat.not_le.2 hcount)), rfl, rfl⟩
  · rcases parse_of_unlimited_error h with hparse | hparse <;> exact ⟨_, hparse⟩
  · obtain ⟨hunlimited, hcount⟩ := unlimited_of_parse h
    refine ⟨hcount, fun type htype => ?_⟩
    obtain ⟨offset, hread⟩ := Unlimited.exists_readType_of_mem_types hunlimited htype
    exact Unlimited.bounded_of_readType hread
  · intro offset hvariable hendless
    cases h : parse bytes with
    | error e => exact ⟨e, rfl⟩
    | ok table =>
        obtain ⟨hunlimited, -⟩ := unlimited_of_parse h
        obtain ⟨type, hread⟩ := Unlimited.exists_readType_of_isVariableType hunlimited hvariable
        exact absurd hendless (Unlimited.not_endless_of_readType hread)

end ResourceTable

end ShaderBytecode
