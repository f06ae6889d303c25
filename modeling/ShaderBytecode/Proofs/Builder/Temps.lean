import Mathlib.Order.Bounds.Basic
import ShaderBytecode.Proofs.Builder.Step

set_option autoImplicit false

/-! # Temporary registers of a built program

A register is reserved by a step that returned its number or that declared more registers than its
number. Reservations leave no gap: the builder's counter is the first number that no step reserved
(`ProgramBuilder.lt_reserved_afterAll_iff`), and the next allocation returns just that one. What
instructions use by number does not move the counter, so a register that was used but never reserved
can still be handed out.

The finished program is safe either way, since it declares what was reserved and what was used, and
the declaration stands before the first instruction that can use a register. -/

namespace ShaderBytecode

/-- The instruction has an operand that is the temporary register with the given number. -/
def Instruction.UsesTemp (inst : Instruction) (index : UInt32) : Prop :=
  ∃ op ∈ inst.operands, op.kind = .temp ∧ op.registerIndex? = some index

namespace ProgramBuilder

/-! ## Reservations -/

/-- The steps of a sequence with their results. -/
def history (b : ProgramBuilder) (calls : List Call) :
    List (Call × Except EmitError (Option UInt32)) :=
  calls.zip (b.outcomes calls)

/-- Register number `r` is reserved by a step with the given result. -/
def Reserves (r : Nat) : Call × Except EmitError (Option UInt32) → Prop
  | (.allocTemp, .ok (some index)) => r = index.toNat
  | (.dclTemps count, .ok _) => r < count.toNat
  | _ => False

/-- Register number `r` is reserved by one of the steps. -/
def Reserved (b : ProgramBuilder) (calls : List Call) (r : Nat) : Prop :=
  ∃ step ∈ b.history calls, Reserves r step

theorem reserved_cons {b : ProgramBuilder} {call : Call} {calls : List Call} {r : Nat} :
    b.Reserved (call :: calls) r ↔
      Reserves r (call, b.outcome call) ∨ (b.after call).Reserved calls r := by
  unfold Reserved history
  rw [outcomes, List.zip_cons_cons, List.exists_mem_cons_iff]

/-- A step moves the counter past exactly the registers that it reserves. -/
theorem Step.lt_reserved_iff {b b' : ProgramBuilder} {call : Call}
    {result : Except EmitError (Option UInt32)} (h : b.Step call result b') (r : Nat) :
    r < b'.reserved ↔ r < b.reserved ∨ Reserves r (call, result) := by
  cases h with
  | @fails _ e =>
      have hnone : ¬ Reserves r (call, .error e) := by cases call <;> exact id
      rw [(noteAll_fields b (b.accepted call)).2.2.2]
      simp [hnone]
  | reserves hlt =>
      have hindex : (UInt32.ofNat b.reserved).toNat = b.reserved :=
        UInt32.toNat_ofNat_of_lt' (Nat.lt_trans hlt (by decide))
      show r < b.reserved + 1 ↔ r < b.reserved ∨ r = (UInt32.ofNat b.reserved).toNat
      omega
  | @declares count hle =>
      show r < max b.reserved count.toNat ↔ r < b.reserved ∨ r < count.toNat
      omega
  | @records _ inst ops hcall hinst husable htemps =>
      have hnone : ¬ Reserves r (call, .ok none) := by
        cases call with
        | dclTemps count => exact absurd rfl (hcall count)
        | _ => exact id
      show r < (b.noteAll ops).reserved ↔ r < b.reserved ∨ Reserves r (call, .ok none)
      rw [(noteAll_fields b ops).2.2.2]
      simp [hnone]

/-- The counter of a builder lies above exactly the registers that were reserved. -/
theorem lt_reserved_afterAll_iff (b : ProgramBuilder) (calls : List Call) (r : Nat) :
    r < (b.afterAll calls).reserved ↔ r < b.reserved ∨ b.Reserved calls r := by
  induction calls generalizing b with
  | nil => simp [afterAll, Reserved, history]
  | cons call calls ih =>
      have hafter : b.afterAll (call :: calls) = (b.after call).afterAll calls := rfl
      rw [hafter, ih, (b.step call).lt_reserved_iff, reserved_cons, or_assoc]

/-- In a new builder nothing is reserved before the first step. -/
theorem lt_reserved_iff_reserved (stage : ShaderStage) (model : ShaderModel) (calls : List Call)
    (r : Nat) : r < (afterAll { stage, model } calls).reserved ↔
      Reserved { stage, model } calls r := by
  rw [lt_reserved_afterAll_iff]
  exact or_iff_right (Nat.not_lt_zero r)

theorem isLeast_reserved (stage : ShaderStage) (model : ShaderModel) (calls : List Call) :
    IsLeast {r | ¬ Reserved { stage, model } calls r}
      (afterAll { stage, model } calls).reserved := by
  simp only [← lt_reserved_iff_reserved]
  exact ⟨Nat.lt_irrefl _, fun r hr => Nat.le_of_not_lt hr⟩

/-! ## Allocation -/

/-- An allocation returns the counter if it is below the limit. -/
theorem toNat_of_outcome_allocTemp {b : ProgramBuilder} {index : UInt32}
    (h : b.outcome .allocTemp = .ok (some index)) :
    index.toNat = b.reserved ∧ b.reserved < maxTemps := by
  have hstep := h ▸ b.step .allocTemp
  generalize b.after .allocTemp = b' at hstep
  cases hstep with
  | reserves hlt =>
      exact ⟨UInt32.toNat_ofNat_of_lt' (Nat.lt_trans hlt (by decide)), hlt⟩

/-- **What an allocation hands out.** It is the first register that no earlier step reserved: it is
    below the limit, no earlier allocation returned it, and every declared count leaves it out. The
    instructions recorded so far are not asked, so they use it exactly if they use the first
    register that is not reserved. -/
theorem allocated_isLeast_unreserved {stage : ShaderStage} {model : ShaderModel}
    {calls : List Call} {index : UInt32}
    (h : (afterAll { stage, model } calls).outcome .allocTemp = .ok (some index)) :
    let start : ProgramBuilder := { stage, model }
    index.toNat < maxTemps
      ∧ (∀ earlier, (.allocTemp, .ok (some earlier)) ∈ start.history calls → index ≠ earlier)
      ∧ (∀ count result, (.dclTemps count, .ok result) ∈ start.history calls → count ≤ index)
      ∧ IsLeast {r | ¬ start.Reserved calls r} index.toNat
      ∧ ((∃ inst ∈ (start.afterAll calls).instructions, inst.UsesTemp index) ↔
          ∃ inst ∈ (start.afterAll calls).instructions, ∃ used, inst.UsesTemp used
            ∧ IsLeast {r | ¬ start.Reserved calls r} used.toNat) := by
  intro start
  obtain ⟨hindex, hlt⟩ := toNat_of_outcome_allocTemp h
  have hleast : IsLeast {r | ¬ start.Reserved calls r} index.toNat :=
    hindex ▸ isLeast_reserved stage model calls
  refine ⟨hindex ▸ hlt, ?_, ?_, hleast, ?_⟩
  · rintro earlier hmem rfl
    exact hleast.1 ⟨_, hmem, rfl⟩
  · intro count result hmem
    rw [UInt32.le_iff_toNat_le]
    exact Nat.le_of_not_lt fun hbelow => hleast.1 ⟨_, hmem, hbelow⟩
  · constructor
    · rintro ⟨inst, hinst, huses⟩
      exact ⟨inst, hinst, index, huses, hleast⟩
    · rintro ⟨inst, hinst, used, huses, hused⟩
      obtain rfl := UInt32.toNat_inj.1 (hused.unique hleast)
      exact ⟨inst, hinst, huses⟩

/-- After two registers were declared and one of them was used, the third is handed out. -/
theorem allocated_isLeast_unreserved_third :
    let start : ProgramBuilder := { stage := .vertex, model := ⟨5, 0⟩ }
    let calls : List Call :=
      [.dclTemps 2, .mov (.register .temp 1 .fullMask) (.scalarValue 0)]
    (start.afterAll calls).outcome .allocTemp = .ok (some 2)
      ∧ IsLeast {r | ¬ start.Reserved calls r} 2 := by
  intro start calls
  have houtcome : (start.afterAll calls).outcome .allocTemp = .ok (some 2) := by rfl
  exact ⟨houtcome, (allocated_isLeast_unreserved houtcome).2.2.2.1⟩

/-- A register that an instruction writes without a reservation is handed out as if it were free. -/
theorem allocated_used_without_reservation :
    let b : ProgramBuilder := afterAll { stage := .vertex, model := ⟨5, 0⟩ }
      [.mov (.register .temp 0 .fullMask) (.scalarValue 0)]
    b.outcome .allocTemp = .ok (some 0) ∧ ∃ inst ∈ b.instructions, inst.UsesTemp 0 := by
  intro b
  refine ⟨by rfl, .mov (.register .temp 0 .fullMask) (.scalarValue 0), List.mem_singleton_self _,
    .register .temp 0 .fullMask, List.mem_cons_self, rfl, rfl⟩

/-! ## Declaration -/

/-- The instructions are the recorded ones and one declaration of `count` temporary registers. It
    stands behind declarations only, none of which uses a register, and every register that is used
    behind it is one of the declared. -/
def DeclaresBeforeUse (recorded : List Instruction) (count : UInt32) (insts : List Instruction) :
    Prop :=
  ∃ before rest, insts = before ++ .dclTemps count :: rest ∧ before ++ rest = recorded
    ∧ (∀ inst ∈ recorded, ∀ other, inst ≠ .dclTemps other)
    ∧ (∀ inst ∈ before, inst.isDeclaration = true ∧ ∀ op ∈ inst.operands, op.kind ≠ .temp)
    ∧ ∀ inst ∈ rest, ∀ op ∈ inst.operands, op.kind = .temp →
      ∃ index, op.indices.head? = some (.imm32 index) ∧ index < count

/-- No recorded instruction declares temporary registers. -/
theorem Sound.ne_dclTemps {b : ProgramBuilder} (hb : b.Sound) :
    ∀ inst ∈ b.instructions, ∀ count, inst ≠ .dclTemps count := by
  rintro inst hmem count rfl
  exact hb.recordable _ hmem

/-- A program that uses registers declares them before the first use. -/
theorem Sound.declaresBeforeUse {b : ProgramBuilder} (hb : b.Sound) (hpos : 0 < b.tempCount) :
    DeclaresBeforeUse b.instructions (UInt32.ofNat b.tempCount) b.program.instructions := by
  have hcount : (UInt32.ofNat b.tempCount).toNat = b.tempCount :=
    UInt32.toNat_ofNat_of_lt' (Nat.lt_of_le_of_lt hb.tempCount_le (by decide))
  refine ⟨_, _, if_neg (Nat.ne_of_gt hpos), List.takeWhile_append_dropWhile, hb.ne_dclTemps,
    ?_, ?_⟩
  · intro inst hmem
    have hdeclaration : inst.isDeclaration = true := List.mem_takeWhile_imp hmem
    have hrecorded := List.takeWhile_subset _ hmem
    exact ⟨hdeclaration, (hb.recordable inst hrecorded).kind_ne_temp hdeclaration⟩
  · intro inst hmem op hop hkind
    obtain ⟨index, hindex, hlt⟩ := hb.temps inst (List.dropWhile_subset _ hmem) op hop hkind
    refine ⟨index, Operand.registerIndex?_eq_some_iff.1 hindex, ?_⟩
    rw [UInt32.lt_iff_toNat_lt, hcount]
    exact hlt

/-- **Every register that a built program uses is declared before it is used.** A program declares
    temporary registers exactly if there are any, then once, and as many as there are, up to the
    limit. Without the declaration the program is what was recorded. There are as many registers as
    any step declared, and each that was handed out is among them. -/
theorem temps_declared_before_use (stage : ShaderStage) (model : ShaderModel)
    (calls : List Call) :
    let start : ProgramBuilder := { stage, model }
    let b := start.afterAll calls
    ((∃ count, .dclTemps count ∈ b.program.instructions) ↔ 0 < b.tempCount)
      ∧ (0 < b.tempCount → ∃ count : UInt32, count.toNat = b.tempCount ∧ count.toNat ≤ 32
        ∧ DeclaresBeforeUse b.instructions count b.program.instructions)
      ∧ (b.tempCount = 0 → b.program.instructions = b.instructions
        ∧ ∀ inst ∈ b.instructions, ∀ op ∈ inst.operands, op.kind ≠ .temp)
      ∧ (∀ count result, (.dclTemps count, .ok result) ∈ start.history calls →
        count.toNat ≤ b.tempCount)
      ∧ ∀ index, (.allocTemp, .ok (some index)) ∈ start.history calls →
        index.toNat < b.tempCount := by
  intro start b
  have hb : b.Sound := sound_afterAll stage model calls
  have hreserved : b.reserved ≤ b.tempCount := Nat.le_max_left _ _
  have hcount : (UInt32.ofNat b.tempCount).toNat = b.tempCount :=
    UInt32.toNat_ofNat_of_lt' (Nat.lt_of_le_of_lt hb.tempCount_le (by decide))
  have hsame : b.tempCount = 0 → b.program.instructions = b.instructions := fun hzero =>
    if_pos hzero
  -- Whatever a step reserved lies below the counter and so below the count.
  have hbelow : ∀ step ∈ start.history calls, ∀ r, Reserves r step → r < b.tempCount := by
    intro step hmem r hr
    have hlt := (lt_reserved_iff_reserved stage model calls r).2 ⟨step, hmem, hr⟩
    exact Nat.lt_of_lt_of_le hlt hreserved
  refine ⟨⟨?_, ?_⟩, ?_, ?_, ?_, ?_⟩
  · rintro ⟨count, hmem⟩
    rcases Nat.eq_zero_or_pos b.tempCount with hzero | hpos
    · rw [hsame hzero] at hmem
      exact absurd rfl (hb.ne_dclTemps _ hmem count)
    · exact hpos
  · intro hpos
    obtain ⟨before, rest, hinsts, -⟩ := hb.declaresBeforeUse hpos
    refine ⟨UInt32.ofNat b.tempCount, ?_⟩
    rw [hinsts]
    exact List.mem_append_right _ List.mem_cons_self
  · intro hpos
    refine ⟨_, hcount, ?_, hb.declaresBeforeUse hpos⟩
    rw [hcount]
    exact hb.tempCount_le
  · intro hzero
    refine ⟨hsame hzero, ?_⟩
    intro inst hinst op hop hkind
    obtain ⟨index, -, hlt⟩ := hb.temps inst hinst op hop hkind
    omega
  · intro count result hmem
    rcases Nat.eq_zero_or_pos count.toNat with hzero | hpos
    · omega
    · have hlast := hbelow _ hmem (count.toNat - 1) (Nat.sub_lt hpos Nat.one_pos)
      omega
  · intro index hmem
    exact hbelow _ hmem index.toNat rfl

end ProgramBuilder

end ShaderBytecode
