import Mathlib.Data.List.TakeWhile
import ShaderBytecode.Proofs.Builder.Failure
import ShaderBytecode.Proofs.Steps

set_option autoImplicit false

/-! # What a step of building does

A step fails, reserves registers, or appends one instruction after it has noted the instruction's
operands. `ProgramBuilder.Step` lists these effects with all that is known about them, and
`ProgramBuilder.step` says that there are no others, so that what holds of a builder is proved by
four cases and not by looking into fifteen calls.

Two facts are carried through whole sequences of steps: every recorded instruction has only operands
that may stand where they do, and every temporary register in it is among those that the finished
program will declare (`ProgramBuilder.Sound`). -/

namespace ShaderBytecode

namespace Operand

theorem registerIndex?_eq_some_iff {op : Operand} {index : UInt32} :
    op.registerIndex? = some index ↔ op.indices.head? = some (.imm32 index) := by
  unfold registerIndex?
  rw [Option.bind_eq_some_iff]
  constructor
  · rintro ⟨first, hfirst, hindex⟩
    cases first with
    | imm32 value => rw [hfirst, Option.some.inj hindex]
    | imm64 value => cases hindex
  · intro h
    exact ⟨_, h, rfl⟩

end Operand

namespace Instruction

/-- The instructions that a builder records: declarations other than that of temporary registers,
    and computations that write to a temporary register or an output. -/
def Recordable : Instruction → Prop
  | .dclInput operand => operand.kind = .input
  | .dclOutput operand | .dclOutputSiv operand _ => operand.kind = .output
  | .dclTemps _ => False
  | .dclResource _ _ sampleCount _ => sampleCount = 0
  | .mov dst _ | .add dst _ _ | .mul dst _ _ | .mad dst _ _ _ =>
      dst.kind = .temp ∨ dst.kind = .output
  | .sampleL _ _ dst _ texture sampler _ =>
      (dst.kind = .temp ∨ dst.kind = .output) ∧ texture.kind = .resource ∧ sampler.kind = .sampler
  | .dclGlobalFlags _ | .dclConstantBuffer .. | .dclSampler .. | .ret => True

/-- Declarations use no temporary registers. -/
theorem Recordable.kind_ne_temp {inst : Instruction} (h : inst.Recordable)
    (hdeclaration : inst.isDeclaration = true) : ∀ op ∈ inst.operands, op.kind ≠ .temp := by
  cases inst with
  | dclInput operand | dclOutput operand | dclOutputSiv operand name =>
      have hkind : operand.kind = _ := h
      simp [operands, hkind]
  | mov | add | mul | mad | sampleL | ret => cases hdeclaration
  | _ => simp [operands]

end Instruction

namespace ProgramBuilder

theorem writable_iff {op : Operand} :
    writable op = true ↔ (op.kind = .temp ∨ op.kind = .output) ∧ usable op = true := by
  simp [writable]

/-- A temporary register that can be used has a number below the limit, and noting it asks for that
    many registers and one more. -/
theorem exists_index_of_usable {op : Operand} (h : usable op = true) (hkind : op.kind = .temp) :
    ∃ index, op.registerIndex? = some index ∧ index.toNat < maxTemps
      ∧ tempsFor op = index.toNat + 1 := by
  cases hindex : op.registerIndex? with
  | none => simp [usable, hkind, hindex] at h
  | some index =>
      refine ⟨index, rfl, ?_, ?_⟩
      · simpa [usable, hkind, hindex] using h
      · simp [tempsFor, hkind, hindex]

theorem tempsFor_le_of_usable {op : Operand} (h : usable op = true) : tempsFor op ≤ maxTemps := by
  by_cases hkind : op.kind = .temp
  · obtain ⟨index, -, hlt, htemps⟩ := exists_index_of_usable h hkind
    omega
  · simp [tempsFor, hkind]

/-! ## Steps that succeed -/

theorem eq_noteAll_of_mentionAll_ok {ops : List Operand} {b b' : ProgramBuilder}
    (h : (mentionAll ops).run b = .ok () b') :
    (∀ op ∈ ops, usable op = true) ∧ b' = b.noteAll ops := by
  induction ops generalizing b with
  | nil =>
      obtain ⟨-, rfl⟩ := EStateM.Result.ok.inj h
      exact ⟨by simp, rfl⟩
  | cons op ops ih =>
      obtain ⟨_, c, hmention, h⟩ := run_bind_eq_ok.1 h
      rw [run_mention] at hmention
      split at hmention
      · next husable =>
          obtain ⟨-, rfl⟩ := EStateM.Result.ok.inj hmention
          obtain ⟨husables, rfl⟩ := ih h
          exact ⟨List.forall_mem_cons.2 ⟨husable, husables⟩, rfl⟩
      · cases hmention

/-- A computation that succeeds has noted all operands and appended the instruction. -/
theorem eq_record_of_compute_ok {dst : Operand} {srcs : List Operand} {inst : Instruction}
    {b b' : ProgramBuilder} (h : (compute dst srcs inst).run b = .ok () b') :
    writable dst = true ∧ (∀ op ∈ srcs, usable op = true)
      ∧ b' = { b.noteAll (dst :: srcs) with instructions := b.instructions ++ [inst] } := by
  obtain ⟨_, c, hdst, h⟩ := run_bind_eq_ok.1 h
  obtain ⟨_, d, hsrcs, h⟩ := run_bind_eq_ok.1 h
  rw [run_mentionDestination] at hdst
  split at hdst
  · next hwritable =>
      obtain ⟨-, rfl⟩ := EStateM.Result.ok.inj hdst
      obtain ⟨husables, rfl⟩ := eq_noteAll_of_mentionAll_ok hsrcs
      obtain ⟨-, rfl⟩ := EStateM.Result.ok.inj h
      have hsame := (noteAll_fields b (dst :: srcs)).2.2.1
      refine ⟨hwritable, husables, ?_⟩
      rw [← hsame]
      rfl
  · cases hdst

theorem eq_reserve_of_allocTemp_ok {index : UInt32} {b b' : ProgramBuilder}
    (h : allocTemp.run b = .ok index b') : b.reserved < maxTemps ∧ index = UInt32.ofNat b.reserved
      ∧ b' = { b with reserved := b.reserved + 1 } := by
  rw [run_allocTemp] at h
  split at h
  · cases h
  · next hlt =>
      obtain ⟨rfl, rfl⟩ := EStateM.Result.ok.inj h
      exact ⟨Nat.lt_of_not_le hlt, rfl, rfl⟩

theorem eq_reserve_of_dclTemps_ok {count : UInt32} {b b' : ProgramBuilder}
    (h : (dclTemps count).run b = .ok () b') :
    count.toNat ≤ maxTemps ∧ b' = { b with reserved := max b.reserved count.toNat } := by
  unfold dclTemps at h
  dsimp only at h
  split at h
  · cases h
  · next hle =>
      obtain ⟨-, rfl⟩ := EStateM.Result.ok.inj h
      exact ⟨Nat.not_lt.1 hle, rfl⟩

/-- A sample that succeeds found a declaration and is computed like any other instruction. -/
theorem exists_compute_of_sampleL_ok {dst coord lod : Operand} {texture sampler : UInt32}
    {b b' : ProgramBuilder} (h : (sampleL dst coord texture sampler lod).run b = .ok () b') :
    ∃ dimension types, b.declaredResource? texture = some (dimension, types)
      ∧ (compute dst [coord, lod] (.sampleL dimension types dst coord
        (.register .resource texture .identity) (.sampler sampler) lod)).run b = .ok () b' := by
  rw [sampleL, EStateM.run_bind, EStateM.run_get] at h
  dsimp only at h
  cases hdeclared : b.declaredResource? texture with
  | none =>
      rw [hdeclared] at h
      cases h
  | some declared =>
      obtain ⟨dimension, types⟩ := declared
      rw [hdeclared] at h
      refine ⟨dimension, types, rfl, ?_⟩
      rw [compute_pair]
      exact h

/-! ## All effects of a step -/

/-- Everything that a step can do to a builder, with the step's result. -/
inductive Step (b : ProgramBuilder) :
    Call → Except EmitError (Option UInt32) → ProgramBuilder → Prop
  /-- Some operands were noted before one was refused. -/
  | fails {call : Call} {e : EmitError} : Step b call (.error e) (b.noteAll (b.accepted call))
  /-- The next register was reserved. -/
  | reserves (hlt : b.reserved < maxTemps) : Step b .allocTemp
      (.ok (some (UInt32.ofNat b.reserved))) { b with reserved := b.reserved + 1 }
  /-- A number of registers was reserved. -/
  | declares {count : UInt32} (hle : count.toNat ≤ maxTemps) : Step b (.dclTemps count)
      (.ok none) { b with reserved := max b.reserved count.toNat }
  /-- An instruction was appended. All temporary registers in it are among the noted operands. -/
  | records {call : Call} {inst : Instruction} {ops : List Operand}
      (hcall : ∀ count, call ≠ .dclTemps count) (hinst : inst.Recordable)
      (husable : ∀ op ∈ ops, usable op = true)
      (htemps : ∀ op ∈ inst.operands, op.kind = .temp → op ∈ ops) :
      Step b call (.ok none) { b.noteAll ops with instructions := b.instructions ++ [inst] }

/-- A computation that succeeds appends its instruction. -/
theorem Step.of_compute {call : Call} {step : Building Unit} {dst : Operand} {srcs : List Operand}
    {inst : Instruction} {b b' : ProgramBuilder} {r : Option UInt32}
    (heq : step = compute dst srcs inst) (h : (Call.unnumbered step).run b = .ok r b')
    (hcall : ∀ count, call ≠ .dclTemps count)
    (hinst : dst.kind = .temp ∨ dst.kind = .output → inst.Recordable)
    (htemps : ∀ op ∈ inst.operands, op.kind = .temp → op ∈ dst :: srcs) :
    b.Step call (.ok r) b' := by
  subst heq
  obtain ⟨_, c, hrun, hr⟩ := run_bind_eq_ok.1 h
  obtain ⟨rfl, rfl⟩ := EStateM.Result.ok.inj hr
  obtain ⟨hwritable, husables, rfl⟩ := eq_record_of_compute_ok hrun
  obtain ⟨hkind, husable⟩ := writable_iff.1 hwritable
  exact .records hcall (hinst hkind) (List.forall_mem_cons.2 ⟨husable, husables⟩) htemps

/-- A declaration appends its instruction and notes nothing. -/
theorem Step.of_record {call : Call} {inst : Instruction} {b b' : ProgramBuilder}
    {r : Option UInt32} (h : (Call.unnumbered (record inst)).run b = .ok r b')
    (hcall : ∀ count, call ≠ .dclTemps count) (hinst : inst.Recordable)
    (htemps : ∀ op ∈ inst.operands, op.kind ≠ .temp) : b.Step call (.ok r) b' := by
  obtain ⟨rfl, rfl⟩ := EStateM.Result.ok.inj h
  have hnone : ∀ op ∈ ([] : List Operand), usable op = true := by simp
  exact .records hcall hinst hnone fun op hmem hkind => absurd hkind (htemps op hmem)

/-- A step that succeeds reserves registers or appends an instruction. -/
theorem Step.of_ok {b b' : ProgramBuilder} {call : Call} {r : Option UInt32}
    (h : call.perform.run b = .ok r b') : b.Step call (.ok r) b' := by
  cases call with
  | allocTemp =>
      obtain ⟨index, c, halloc, h⟩ := run_bind_eq_ok.1 h
      obtain ⟨rfl, rfl⟩ := EStateM.Result.ok.inj h
      obtain ⟨hlt, rfl, rfl⟩ := eq_reserve_of_allocTemp_ok halloc
      exact .reserves hlt
  | dclTemps count =>
      obtain ⟨_, c, hdcl, h⟩ := run_bind_eq_ok.1 h
      obtain ⟨rfl, rfl⟩ := EStateM.Result.ok.inj h
      obtain ⟨hle, rfl⟩ := eq_reserve_of_dclTemps_ok hdcl
      exact .declares hle
  | mov dst src =>
      exact .of_compute (mov_eq dst src) h (by simp) (fun hkind => hkind) fun op hmem _ => hmem
  | add dst a c =>
      exact .of_compute (add_eq dst a c) h (by simp) (fun hkind => hkind) fun op hmem _ => hmem
  | mul dst a c =>
      exact .of_compute (mul_eq dst a c) h (by simp) (fun hkind => hkind) fun op hmem _ => hmem
  | mad dst a c d =>
      exact .of_compute (mad_eq dst a c d) h (by simp) (fun hkind => hkind) fun op hmem _ => hmem
  | sampleL dst coord texture sampler lod =>
      -- What is sampled and with which sampler are named by slots, so neither is noted.
      obtain ⟨_, c, hsample, hr⟩ := run_bind_eq_ok.1 h
      obtain ⟨dimension, types, -, hcompute⟩ := exists_compute_of_sampleL_ok hsample
      refine .of_compute rfl (run_bind_eq_ok.2 ⟨_, c, hcompute, hr⟩) (by simp)
        (fun hkind => ⟨hkind, rfl, rfl⟩) ?_
      intro op hmem hkind
      simp only [Instruction.operands, List.mem_cons, List.not_mem_nil, or_false] at hmem ⊢
      rcases hmem with rfl | rfl | rfl | rfl | rfl
      · exact .inl rfl
      · exact .inr (.inl rfl)
      · cases hkind
      · cases hkind
      · exact .inr (.inr rfl)
  | dclInput index mask | dclOutput index mask | dclOutputSiv index mask name =>
      exact .of_record h (by simp) rfl (by simp [Instruction.operands, Operand.register])
  | dclResource slot dimension type =>
      exact .of_record h (by simp) rfl (by simp [Instruction.operands])
  | _ => exact .of_record h (by simp) trivial (by simp [Instruction.operands])

/-- There is nothing else that a step can do. -/
theorem step (b : ProgramBuilder) (call : Call) : b.Step call (b.outcome call) (b.after call) := by
  unfold outcome after
  cases hrun : call.perform.run b with
  | ok r b' => exact .of_ok hrun
  | error e b' =>
      rw [eq_noteAll_of_error hrun]
      exact .fails

/-! ## What every sequence of steps preserves -/

/-- What holds of every builder that was made by steps. -/
structure Sound (b : ProgramBuilder) : Prop where
  tempCount_le : b.tempCount ≤ maxTemps
  recordable : ∀ inst ∈ b.instructions, inst.Recordable
  temps : ∀ inst ∈ b.instructions, ∀ op ∈ inst.operands, op.kind = .temp →
    ∃ index, op.registerIndex? = some index ∧ index.toNat < b.tempCount

/-- The operands that are noted before one is refused can all be used. -/
theorem usable_of_accepted {b : ProgramBuilder} {call : Call} :
    ∀ op ∈ b.accepted call, usable op = true := by
  have hacceptedOf : ∀ dst srcs, ∀ op ∈ acceptedOf dst srcs, usable op = true := by
    intro dst srcs op hmem
    unfold acceptedOf at hmem
    split at hmem
    · next hwritable =>
        rcases List.mem_cons.1 hmem with rfl | hmem
        · exact (writable_iff.1 hwritable).2
        · exact List.mem_takeWhile_imp hmem
    · simp at hmem
  intro op hmem
  cases call with
  | mov | add | mul | mad => exact hacceptedOf _ _ op hmem
  | sampleL dst coord texture sampler lod =>
      simp only [accepted] at hmem
      split at hmem
      · exact hacceptedOf _ _ op hmem
      · simp at hmem
  | _ => simp [accepted] at hmem

/-- After operands were noted there are at least as many registers, and enough for each of them. -/
theorem le_tempCount_noteAll (b : ProgramBuilder) (ops : List Operand) :
    b.tempCount ≤ (b.noteAll ops).tempCount
      ∧ ∀ op ∈ ops, tempsFor op ≤ (b.noteAll ops).tempCount :=
  tempCount_noteAll_le_iff.1 (Nat.le_refl _)

theorem Step.tempCount_le {b b' : ProgramBuilder} {call : Call}
    {r : Except EmitError (Option UInt32)} (h : b.Step call r b') : b.tempCount ≤ b'.tempCount := by
  have hmax : b.tempCount = max b.reserved b.mentioned := rfl
  cases h with
  | fails => exact (le_tempCount_noteAll b _).1
  | reserves hlt =>
      show b.tempCount ≤ max (b.reserved + 1) b.mentioned
      omega
  | @declares count hle =>
      show b.tempCount ≤ max (max b.reserved count.toNat) b.mentioned
      omega
  | records => exact (le_tempCount_noteAll b _).1

/-- A step keeps a builder sound. -/
theorem Sound.step {b b' : ProgramBuilder} {call : Call} {r : Except EmitError (Option UInt32)}
    (hb : b.Sound) (h : b.Step call r b') : b'.Sound := by
  have hgrows := h.tempCount_le
  -- The registers of what was recorded before stay covered, since the count only grows.
  have hold : ∀ inst ∈ b.instructions, ∀ op ∈ inst.operands, op.kind = .temp →
      ∃ index, op.registerIndex? = some index ∧ index.toNat < b'.tempCount := by
    intro inst hinst op hop hkind
    obtain ⟨index, hindex, hlt⟩ := hb.temps inst hinst op hop hkind
    exact ⟨index, hindex, Nat.lt_of_lt_of_le hlt hgrows⟩
  have hcount : max b.reserved b.mentioned ≤ maxTemps := hb.tempCount_le
  cases h with
  | fails =>
      have hinstructions := (noteAll_fields b (b.accepted call)).2.2.1
      refine ⟨?_, ?_, ?_⟩
      · exact tempCount_noteAll_le_iff.2 ⟨hb.tempCount_le, fun op hmem =>
          tempsFor_le_of_usable (usable_of_accepted op hmem)⟩
      · rw [hinstructions]
        exact hb.recordable
      · rw [hinstructions]
        exact hold
  | reserves hlt =>
      refine ⟨?_, hb.recordable, hold⟩
      show max (b.reserved + 1) b.mentioned ≤ maxTemps
      omega
  | @declares count hle =>
      refine ⟨?_, hb.recordable, hold⟩
      show max (max b.reserved count.toNat) b.mentioned ≤ maxTemps
      omega
  | @records _ inst ops hcall hinst husable htemps =>
      refine ⟨?_, ?_, ?_⟩
      · exact tempCount_noteAll_le_iff.2 ⟨hb.tempCount_le, fun op hmem =>
          tempsFor_le_of_usable (husable op hmem)⟩
      · intro recorded hmem
        rcases List.mem_append.1 hmem with hmem | hmem
        · exact hb.recordable recorded hmem
        · exact List.mem_singleton.1 hmem ▸ hinst
      · intro recorded hmem op hop hkind
        rcases List.mem_append.1 hmem with hmem | hmem
        · exact hold recorded hmem op hop hkind
        · obtain rfl := List.mem_singleton.1 hmem
          have hnoted := htemps op hop hkind
          obtain ⟨index, hindex, -, htempsFor⟩ := exists_index_of_usable (husable op hnoted) hkind
          have hle := (le_tempCount_noteAll b ops).2 op hnoted
          refine ⟨index, hindex, ?_⟩
          show index.toNat < (b.noteAll ops).tempCount
          omega

theorem Sound.afterAll {b : ProgramBuilder} (hb : b.Sound) (calls : List Call) :
    (b.afterAll calls).Sound := by
  induction calls generalizing b with
  | nil => exact hb
  | cons call calls ih => exact ih (hb.step (b.step call))

/-- Every builder that was made by steps is sound. -/
theorem sound_afterAll (stage : ShaderStage) (model : ShaderModel) (calls : List Call) :
    (afterAll { stage, model } calls).Sound :=
  Sound.afterAll ⟨Nat.zero_le _, by simp, by simp⟩ calls

/-- Steps change neither the stage nor the model. -/
theorem version_afterAll (b : ProgramBuilder) (calls : List Call) :
    (b.afterAll calls).stage = b.stage ∧ (b.afterAll calls).model = b.model := by
  induction calls generalizing b with
  | nil => exact ⟨rfl, rfl⟩
  | cons call calls ih =>
      have hstep : (b.after call).stage = b.stage ∧ (b.after call).model = b.model := by
        have h := b.step call
        generalize b.outcome call = r, b.after call = b' at h
        cases h with
        | fails => exact ⟨(noteAll_fields b _).1, (noteAll_fields b _).2.1⟩
        | reserves => exact ⟨rfl, rfl⟩
        | declares => exact ⟨rfl, rfl⟩
        | records => exact ⟨(noteAll_fields b _).1, (noteAll_fields b _).2.1⟩
      exact ⟨(ih _).1.trans hstep.1, (ih _).2.trans hstep.2⟩

end ProgramBuilder

end ShaderBytecode
