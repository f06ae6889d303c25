import ShaderBytecode.Builder.Call

set_option autoImplicit false

/-! # What a failed step of building leaves behind

A step that fails appends nothing and reserves nothing. The operands that passed before one was
refused have been noted, though, so the builder may end up declaring more temporary registers than
if the step had not been tried (`ProgramBuilder.eq_noteAll_of_error`).

That nothing else can be seen of a failed step rests on a relation between builders that differ at
most in which of the registers below `tempCount` were mentioned (`ProgramBuilder.Alike`). Every step
respects it: it gives the same result on both and leads to two builders that are alike again. -/

namespace ShaderBytecode

namespace ProgramBuilder

/-! ## Builders that cannot be told apart -/

/-- The result of a step. -/
def outcome (b : ProgramBuilder) (call : Call) : Except EmitError (Option UInt32) :=
  match call.perform.run b with
  | .ok result _ => .ok result
  | .error e _ => .error e

/-- The results of several steps, of which some may fail. -/
def outcomes : ProgramBuilder → List Call → List (Except EmitError (Option UInt32))
  | _, [] => []
  | b, call :: calls => b.outcome call :: (b.after call).outcomes calls

/-- Whatever is done with the two builders, all results and all that can be seen of them afterwards
    are the same. -/
def Indistinguishable (b b' : ProgramBuilder) : Prop :=
  ∀ calls, b.outcomes calls = b'.outcomes calls
    ∧ (b.afterAll calls).instructions = (b'.afterAll calls).instructions
    ∧ (b.afterAll calls).tempCount = (b'.afterAll calls).tempCount
    ∧ (b.afterAll calls).program = (b'.afterAll calls).program
    ∧ (b.afterAll calls).finish = (b'.afterAll calls).finish

/-- The builders have recorded and reserved the same and use as many registers. -/
structure Alike (b b' : ProgramBuilder) : Prop where
  stage : b.stage = b'.stage
  model : b.model = b'.model
  instructions : b.instructions = b'.instructions
  reserved : b.reserved = b'.reserved
  tempCount : b.tempCount = b'.tempCount

theorem Alike.program {b b' : ProgramBuilder} (h : b.Alike b') : b.program = b'.program := by
  unfold ProgramBuilder.program withTemps
  rw [h.stage, h.model, h.instructions, h.tempCount]

/-- On builders that are alike the step ends in the same way and in builders that are alike. -/
def Respects {α : Type} (step : Building α) : Prop :=
  ∀ b b', b.Alike b' →
    (∃ a c c', step.run b = .ok a c ∧ step.run b' = .ok a c' ∧ c.Alike c')
      ∨ ∃ e c c', step.run b = .error e c ∧ step.run b' = .error e c' ∧ c.Alike c'

namespace Respects

variable {α β : Type}

theorem pure (a : α) : Respects (Pure.pure a : Building α) :=
  fun b b' h => .inl ⟨a, b, b', rfl, rfl, h⟩

theorem throw (e : EmitError) : Respects (MonadExcept.throw e : Building α) :=
  fun b b' h => .inr ⟨e, b, b', rfl, rfl, h⟩

theorem of_modify {f : ProgramBuilder → ProgramBuilder}
    (hf : ∀ b b', b.Alike b' → (f b).Alike (f b')) : Respects (modify f : Building Unit) :=
  fun b b' h => .inl ⟨(), f b, f b', rfl, rfl, hf b b' h⟩

theorem bind {step : Building α} {next : α → Building β} (hs : Respects step)
    (hn : ∀ a, Respects (next a)) : Respects (step >>= next) := by
  intro b b' h
  rw [EStateM.run_bind, EStateM.run_bind]
  rcases hs b b' h with ⟨a, c, c', hrun, hrun', hc⟩ | ⟨e, c, c', hrun, hrun', hc⟩
  · rw [hrun, hrun']
    exact hn a c c' hc
  · -- The first step fails on both builders with one error, and the second is never tried.
    rw [hrun, hrun']
    exact .inr ⟨e, c, c', rfl, rfl, hc⟩

/-- A step may look at the builder if what follows is the same on builders that are alike. -/
theorem get_bind {next : ProgramBuilder → Building α}
    (hsame : ∀ b b', b.Alike b' → next b = next b') (hn : ∀ s, Respects (next s)) :
    Respects (get >>= next) := by
  intro b b' h
  have hget : ∀ s : ProgramBuilder, EStateM.run (get >>= next) s = (next s).run s := fun s => rfl
  rw [hget, hget, hsame b b' h]
  exact hn b' b b' h

end Respects

/-! ## Every step respects the relation -/

/-- The builder after a register below `bound` was mentioned. -/
def noteTemps (b : ProgramBuilder) (bound : Nat) : ProgramBuilder :=
  { b with mentioned := max b.mentioned bound }

theorem Alike.noteTemps {b b' : ProgramBuilder} (h : b.Alike b') (bound : Nat) :
    (b.noteTemps bound).Alike (b'.noteTemps bound) := by
  have htemps : max b.reserved b.mentioned = max b'.reserved b'.mentioned := h.tempCount
  refine ⟨h.stage, h.model, h.instructions, h.reserved, ?_⟩
  show max b.reserved (max b.mentioned bound) = max b'.reserved (max b'.mentioned bound)
  omega

/-- Reserving more registers hides more of the mentioned ones. -/
theorem Alike.reserve {b b' : ProgramBuilder} (h : b.Alike b') {count : Nat}
    (hcount : b.reserved ≤ count) :
    Alike { b with reserved := count } { b' with reserved := count } := by
  have htemps : max b.reserved b.mentioned = max b'.reserved b'.mentioned := h.tempCount
  have hreserved := h.reserved
  refine ⟨h.stage, h.model, h.instructions, rfl, ?_⟩
  show max count b.mentioned = max count b'.mentioned
  omega

theorem respects_record (inst : Instruction) : Respects (record inst) :=
  .of_modify fun b b' h => ⟨h.stage, h.model, by rw [h.instructions], h.reserved, h.tempCount⟩

theorem respects_mention (op : Operand) : Respects (mention op) := by
  unfold mention
  split
  · split
    · exact .throw _
    · next index =>
        dsimp only
        split
        · exact .bind (.throw _) fun _ => .of_modify fun b b' h => h.noteTemps _
        · exact .of_modify fun b b' h => h.noteTemps _
  · exact .pure _

theorem respects_mentionDestination (op : Operand) : Respects (mentionDestination op) := by
  unfold mentionDestination
  split
  · exact respects_mention op
  · exact respects_mention op
  · exact .throw _

theorem run_allocTemp (b : ProgramBuilder) : allocTemp.run b =
    if b.reserved ≥ maxTemps then .error (.tempOutOfRange (UInt32.ofNat b.reserved)) b
    else .ok (UInt32.ofNat b.reserved) { b with reserved := b.reserved + 1 } := by
  unfold allocTemp
  rw [EStateM.run_bind, EStateM.run_get]
  dsimp only
  split <;> rfl

theorem respects_allocTemp : Respects allocTemp := by
  intro b b' h
  rw [run_allocTemp, run_allocTemp, ← h.reserved]
  split
  · exact .inr ⟨_, b, b', rfl, rfl, h⟩
  · exact .inl ⟨_, _, _, rfl, rfl, h.reserve (Nat.le_succ _)⟩

theorem respects_dclTemps (count : UInt32) : Respects (dclTemps count) := by
  have hreserve : Respects (modify fun b => { b with reserved := max b.reserved count.toNat }) := by
    refine .of_modify fun b b' h => ?_
    rw [← h.reserved]
    exact h.reserve (Nat.le_max_left _ _)
  unfold dclTemps
  dsimp only
  split
  · exact .bind (.throw _) fun _ => hreserve
  · exact hreserve

theorem declaredResource?_of_alike {b b' : ProgramBuilder} (h : b.Alike b') (slot : UInt32) :
    b.declaredResource? slot = b'.declaredResource? slot := by
  unfold declaredResource?
  rw [h.instructions]

theorem respects_sampleL (dst coord : Operand) (texture sampler : UInt32) (lod : Operand) :
    Respects (sampleL dst coord texture sampler lod) := by
  unfold sampleL
  refine .get_bind (fun b b' h => by rw [declaredResource?_of_alike h]) fun s => ?_
  split
  · exact .throw _
  · exact .bind (respects_mentionDestination dst) fun _ => .bind (respects_mention coord) fun _ =>
      .bind (respects_mention lod) fun _ => respects_record _

/-- Every step ends in the same way on builders that are alike. -/
theorem respects_perform (call : Call) : Respects call.perform := by
  have unnumbered : ∀ {step : Building Unit}, Respects step → Respects (Call.unnumbered step) :=
    fun h => .bind h fun _ => .pure none
  cases call with
  | allocTemp => exact .bind respects_allocTemp fun index => .pure (some index)
  | dclTemps count => exact unnumbered (respects_dclTemps count)
  | mov dst src =>
      exact unnumbered (.bind (respects_mentionDestination dst) fun _ =>
        .bind (respects_mention src) fun _ => respects_record _)
  | add dst a b | mul dst a b =>
      exact unnumbered (.bind (respects_mentionDestination dst) fun _ =>
        .bind (respects_mention a) fun _ => .bind (respects_mention b) fun _ => respects_record _)
  | mad dst a b c =>
      exact unnumbered (.bind (respects_mentionDestination dst) fun _ =>
        .bind (respects_mention a) fun _ => .bind (respects_mention b) fun _ =>
          .bind (respects_mention c) fun _ => respects_record _)
  | sampleL dst coord texture sampler lod =>
      exact unnumbered (respects_sampleL dst coord texture sampler lod)
  | _ => exact unnumbered (respects_record _)

theorem Alike.after {b b' : ProgramBuilder} (h : b.Alike b') (call : Call) :
    b.outcome call = b'.outcome call ∧ (b.after call).Alike (b'.after call) := by
  unfold outcome ProgramBuilder.after
  rcases respects_perform call b b' h with ⟨a, c, c', hrun, hrun', hc⟩ | ⟨e, c, c', hrun, hrun', hc⟩
  · rw [hrun, hrun']
    exact ⟨rfl, hc⟩
  · rw [hrun, hrun']
    exact ⟨rfl, hc⟩

/-- After any steps builders that were alike are alike, and the results were the same. -/
theorem Alike.afterAll {b b' : ProgramBuilder} (h : b.Alike b') (calls : List Call) :
    b.outcomes calls = b'.outcomes calls ∧ (b.afterAll calls).Alike (b'.afterAll calls) := by
  induction calls generalizing b b' with
  | nil => exact ⟨rfl, h⟩
  | cons call calls ih =>
      obtain ⟨houtcome, hafter⟩ := h.after call
      obtain ⟨houtcomes, hafterAll⟩ := ih hafter
      refine ⟨?_, hafterAll⟩
      rw [outcomes, outcomes, houtcome, houtcomes]

/-- Builders that are alike cannot be told apart. -/
theorem Alike.indistinguishable {b b' : ProgramBuilder} (h : b.Alike b') :
    b.Indistinguishable b' := by
  intro calls
  obtain ⟨houtcomes, hafter⟩ := h.afterAll calls
  refine ⟨houtcomes, hafter.instructions, hafter.tempCount, hafter.program, ?_⟩
  unfold finish
  rw [hafter.program]

/-! ## What a failed step has changed -/

/-- How many temporary registers there must be for an operand. -/
def tempsFor (op : Operand) : Nat :=
  if op.kind = .temp then (op.registerIndex?.map (·.toNat + 1)).getD 0 else 0

/-- Can the operand be used? A temporary register needs a number below the limit. -/
def usable (op : Operand) : Bool :=
  op.kind ≠ .temp || op.registerIndex?.any (·.toNat < maxTemps)

/-- Can the operand be written to? -/
def writable (op : Operand) : Bool := (op.kind = .temp || op.kind = .output) && usable op

/-- The builder after operands were mentioned. -/
def noteAll (b : ProgramBuilder) (ops : List Operand) : ProgramBuilder :=
  ops.foldl (fun b op => b.noteTemps (tempsFor op)) b

/-- The operands that are noted before the first is refused. -/
def acceptedOf (dst : Operand) (srcs : List Operand) : List Operand :=
  if writable dst then dst :: srcs.takeWhile usable else []

/-- The operands that a step notes before it stops at one that it refuses. -/
def accepted (b : ProgramBuilder) : Call → List Operand
  | .mov dst src => acceptedOf dst [src]
  | .add dst a c | .mul dst a c => acceptedOf dst [a, c]
  | .mad dst a c d => acceptedOf dst [a, c, d]
  | .sampleL dst coord texture _ lod =>
      if (b.declaredResource? texture).isSome then acceptedOf dst [coord, lod] else []
  | _ => []

/-- Why an operand cannot be used. -/
def refusal (op : Operand) : EmitError :=
  match op.registerIndex? with
  | none => .badOperand .tempIndex
  | some index => .tempOutOfRange index

theorem run_mention (op : Operand) (b : ProgramBuilder) : (mention op).run b =
    if usable op then .ok () (b.noteTemps (tempsFor op)) else .error (refusal op) b := by
  unfold mention usable tempsFor refusal
  by_cases hkind : op.kind = .temp
  · rw [if_pos hkind]
    cases hindex : op.registerIndex? with
    | none => simp [hkind]
    | some index =>
        by_cases hlarge : index.toNat ≥ maxTemps
        · have hlt : ¬ index.toNat < maxTemps := Nat.not_lt.2 hlarge
          simp [hkind, hlarge, hlt]
        · have hlt : index.toNat < maxTemps := Nat.not_le.1 hlarge
          simp [hkind, hlarge, hlt]
          rfl
  · rw [if_neg hkind]
    simp [hkind, noteTemps]

theorem run_mentionDestination (op : Operand) (b : ProgramBuilder) :
    (mentionDestination op).run b = if writable op then .ok () (b.noteTemps (tempsFor op))
      else .error (if op.kind = .temp then refusal op else .badDestination op.kind) b := by
  unfold mentionDestination
  split
  · next hkind => rw [run_mention, writable, hkind]; rfl
  · next hkind =>
      have : usable op = true := by simp [usable, hkind]
      rw [run_mention, writable, hkind]
      simp [this]
  · next htemp houtput =>
      have htemp' : op.kind ≠ .temp := htemp
      have houtput' : op.kind ≠ .output := houtput
      simp [writable, htemp', houtput']

/-- Note the operands one after another. -/
def mentionAll : List Operand → Building Unit
  | [] => return ()
  | op :: ops => do
      mention op
      mentionAll ops

/-- The form of every step that appends a computation. -/
def compute (dst : Operand) (srcs : List Operand) (inst : Instruction) : Building Unit := do
  mentionDestination dst
  mentionAll srcs
  record inst

theorem mov_eq (dst src : Operand) : mov dst src = compute dst [src] (.mov dst src) := by
  simp only [mov, compute, mentionAll, bind_assoc, pure_bind]

theorem compute_pair (dst a b : Operand) (inst : Instruction) : compute dst [a, b] inst = (do
    mentionDestination dst
    mention a
    mention b
    record inst) := by
  simp only [compute, mentionAll, bind_assoc, pure_bind]

theorem add_eq (dst a b : Operand) : add dst a b = compute dst [a, b] (.add dst a b) := by
  rw [compute_pair, add]

theorem mul_eq (dst a b : Operand) : mul dst a b = compute dst [a, b] (.mul dst a b) := by
  rw [compute_pair, mul]

theorem mad_eq (dst a b c : Operand) : mad dst a b c = compute dst [a, b, c] (.mad dst a b c) := by
  simp only [mad, compute, mentionAll, bind_assoc, pure_bind]

/-- After a check a step fails because the check did, which changes nothing, or in what follows. -/
theorem error_of_check_bind {α : Type} {check : Building Unit} {next : Building α} {p : Bool}
    {b c b' : ProgramBuilder} {e e' : EmitError}
    (hcheck : check.run b = if p then .ok () c else .error e' b)
    (h : (check >>= fun _ => next).run b = .error e b') :
    (p = true ∧ next.run c = .error e b') ∨ (p = false ∧ b' = b) := by
  rw [EStateM.run_bind, hcheck] at h
  cases p with
  | true => exact .inl ⟨rfl, h⟩
  | false => exact .inr ⟨rfl, (EStateM.Result.error.inj h).2.symm⟩

/-- If what follows never fails, the failure came before. -/
theorem error_of_bind {α β : Type} {step : Building α} {next : α → Building β}
    (hnext : ∀ a c, ∃ r d, (next a).run c = .ok r d) {b b' : ProgramBuilder} {e : EmitError}
    (h : (step >>= next).run b = .error e b') : step.run b = .error e b' := by
  rw [EStateM.run_bind] at h
  cases hstep : step.run b with
  | ok a c =>
      obtain ⟨r, d, hrun⟩ := hnext a c
      rw [hstep] at h
      cases hrun.symm.trans h
  | error e' c =>
      rw [hstep] at h
      obtain ⟨rfl, rfl⟩ := EStateM.Result.error.inj h
      rfl

theorem eq_noteAll_of_mentionAll {ops : List Operand} {b b' : ProgramBuilder} {e : EmitError}
    (h : (mentionAll ops).run b = .error e b') : b' = b.noteAll (ops.takeWhile usable) := by
  induction ops generalizing b with
  | nil => cases h
  | cons op ops ih =>
      rcases error_of_check_bind (run_mention op b) h with ⟨husable, h⟩ | ⟨husable, rfl⟩
      · rw [List.takeWhile_cons_of_pos husable]
        exact ih h
      · rw [List.takeWhile_cons_of_neg (by simp [husable])]
        rfl

/-- A computation that fails has noted the operands before the one that it refused, and nothing
    else. -/
theorem eq_noteAll_of_compute {dst : Operand} {srcs : List Operand} {inst : Instruction}
    {b b' : ProgramBuilder} {e : EmitError} (h : (compute dst srcs inst).run b = .error e b') :
    b' = b.noteAll (acceptedOf dst srcs) := by
  unfold acceptedOf
  rcases error_of_check_bind (run_mentionDestination dst b) h with ⟨hwritable, h⟩ | ⟨hwritable, rfl⟩
  · rw [if_pos hwritable]
    exact eq_noteAll_of_mentionAll (error_of_bind (fun _ c => ⟨(), _, rfl⟩) h)
  · rw [if_neg (by simp [hwritable])]
    rfl

/-- What a failed step has changed: the registers of the operands that it accepted are noted. -/
theorem eq_noteAll_of_error {b b' : ProgramBuilder} {call : Call} {e : EmitError}
    (h : call.perform.run b = .error e b') : b' = b.noteAll (b.accepted call) := by
  have hstep : ∀ {step : Building Unit}, (Call.unnumbered step).run b = .error e b' →
      step.run b = .error e b' := fun h => error_of_bind (fun _ c => ⟨none, c, rfl⟩) h
  cases call with
  | allocTemp =>
      have h := error_of_bind (fun index c => ⟨some index, c, rfl⟩) h
      rw [run_allocTemp] at h
      split at h
      · exact (EStateM.Result.error.inj h).2.symm
      · cases h
  | dclTemps count =>
      have h := hstep h
      unfold dclTemps at h
      dsimp only at h
      split at h
      · exact (EStateM.Result.error.inj h).2.symm
      · cases h
  | mov dst src =>
      have h := hstep h
      rw [mov_eq] at h
      exact eq_noteAll_of_compute h
  | add dst a c =>
      have h := hstep h
      rw [add_eq] at h
      exact eq_noteAll_of_compute h
  | mul dst a c =>
      have h := hstep h
      rw [mul_eq] at h
      exact eq_noteAll_of_compute h
  | mad dst a c d =>
      have h := hstep h
      rw [mad_eq] at h
      exact eq_noteAll_of_compute h
  | sampleL dst coord texture sampler lod =>
      have h := hstep h
      -- A texture that is not declared is refused before any operand is looked at.
      rw [sampleL, EStateM.run_bind, EStateM.run_get] at h
      dsimp only at h
      have haccepted : b.accepted (.sampleL dst coord texture sampler lod)
          = if (b.declaredResource? texture).isSome then acceptedOf dst [coord, lod] else [] := rfl
      rw [haccepted]
      cases hdeclared : b.declaredResource? texture with
      | none =>
          rw [hdeclared] at h
          exact (EStateM.Result.error.inj h).2.symm
      | some declared =>
          obtain ⟨dimension, types⟩ := declared
          rw [hdeclared] at h
          dsimp only at h
          rw [← compute_pair] at h
          exact eq_noteAll_of_compute h
  | _ => cases h

/-! ## When a failed step can be noticed -/

theorem noteAll_fields (b : ProgramBuilder) (ops : List Operand) :
    (b.noteAll ops).stage = b.stage ∧ (b.noteAll ops).model = b.model
      ∧ (b.noteAll ops).instructions = b.instructions ∧ (b.noteAll ops).reserved = b.reserved := by
  induction ops generalizing b with
  | nil => exact ⟨rfl, rfl, rfl, rfl⟩
  | cons op ops ih => exact ih (b.noteTemps (tempsFor op))

/-- The registers in use after operands were noted are those before and those of the operands. -/
theorem tempCount_noteAll_le_iff {b : ProgramBuilder} {ops : List Operand} {bound : Nat} :
    (b.noteAll ops).tempCount ≤ bound ↔ b.tempCount ≤ bound ∧ ∀ op ∈ ops, tempsFor op ≤ bound := by
  induction ops generalizing b with
  | nil => simp [noteAll]
  | cons op ops ih =>
      have hnote : (b.noteTemps (tempsFor op)).tempCount = max b.tempCount (tempsFor op) :=
        (Nat.max_assoc ..).symm
      have hcons : b.noteAll (op :: ops) = (b.noteTemps (tempsFor op)).noteAll ops := rfl
      rw [hcons, ih, hnote, List.forall_mem_cons, Nat.max_le, and_assoc]

/-- **What a failed step leaves behind.** A step that fails records no instruction and reserves no
    register. It cannot be noticed at all, neither from what can be seen of the builder nor from the
    result of anything done with it later, exactly if the program already uses as many registers as
    the operands need that were accepted before one was refused. -/
theorem indistinguishable_after_failure_iff {b b' : ProgramBuilder} {call : Call} {e : EmitError}
    (h : call.perform.run b = .error e b') :
    b'.instructions = b.instructions ∧ b'.reserved = b.reserved
      ∧ (b'.Indistinguishable b ↔ ∀ op ∈ b.accepted call, tempsFor op ≤ b.tempCount) := by
  obtain rfl := eq_noteAll_of_error h
  obtain ⟨hstage, hmodel, hinstructions, hreserved⟩ := b.noteAll_fields (b.accepted call)
  refine ⟨hinstructions, hreserved, ?_⟩
  have hle : (b.noteAll (b.accepted call)).tempCount ≤ b.tempCount
      ↔ ∀ op ∈ b.accepted call, tempsFor op ≤ b.tempCount := by
    rw [tempCount_noteAll_le_iff]
    simp
  have hge : b.tempCount ≤ (b.noteAll (b.accepted call)).tempCount :=
    (tempCount_noteAll_le_iff.1 (Nat.le_refl _)).1
  rw [← hle]
  constructor
  · -- To do nothing more is already enough to see how many registers the program uses.
    intro hsame
    obtain ⟨-, -, htemps, -⟩ := hsame []
    exact Nat.le_of_eq htemps
  · intro hle
    have halike : (b.noteAll (b.accepted call)).Alike b :=
      ⟨hstage, hmodel, hinstructions, hreserved, Nat.le_antisymm hle hge⟩
    exact halike.indistinguishable

/-- A move from a register out of range is not noticed if its destination was reserved before. -/
theorem indistinguishable_after_reserved_mov :
    let b : ProgramBuilder := afterAll { stage := .vertex, model := ⟨5, 0⟩ } [.dclTemps 6]
    let call : Call := .mov (.register .temp 5 .fullMask) (.register .temp 40 .identity)
    ∃ b', call.perform.run b = .error (.tempOutOfRange 40) b' ∧ b' ≠ b
      ∧ b'.Indistinguishable b := by
  intro b call
  have hrun : call.perform.run b = .error (.tempOutOfRange 40) { b with mentioned := 6 } := by rfl
  refine ⟨_, hrun, by decide, (indistinguishable_after_failure_iff hrun).2.2.2 ?_⟩
  decide

/-- The same move as the first step makes the program declare six registers that nothing uses. -/
theorem not_indistinguishable_after_first_mov :
    let b : ProgramBuilder := { stage := .vertex, model := ⟨5, 0⟩ }
    let call : Call := .mov (.register .temp 5 .fullMask) (.register .temp 40 .identity)
    ∃ b', call.perform.run b = .error (.tempOutOfRange 40) b'
      ∧ b.program = ⟨.vertex, ⟨5, 0⟩, []⟩ ∧ b'.program = ⟨.vertex, ⟨5, 0⟩, [.dclTemps 6]⟩
      ∧ ¬ b'.Indistinguishable b := by
  intro b call
  have hrun : call.perform.run b = .error (.tempOutOfRange 40) { b with mentioned := 6 } := by rfl
  refine ⟨_, hrun, by rfl, by rfl, ?_⟩
  intro hsame
  obtain ⟨-, -, htemps, -⟩ := hsame []
  exact absurd htemps (by decide)

end ProgramBuilder

end ShaderBytecode
