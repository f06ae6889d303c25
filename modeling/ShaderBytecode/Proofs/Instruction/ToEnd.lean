import ShaderBytecode.Proofs.Instruction.Sequence

set_option autoImplicit false

/-! # Reading instructions to the end

Instructions are read for as long as a token is left. Written down without any bound on their number
(`Instruction.ReadsToEnd`), this comes to an end wherever it starts, since every instruction that is
read takes a token. The reader with a bound comes to the same end if it bears as many instructions as
there are tokens, so it makes no difference how many it bears beyond that
(`Instruction.run_decodeUpTo_eq_run_decodeAll`). -/

namespace ShaderBytecode

namespace Instruction

/-! ## One instruction -/

/-- The outcome of reading on behind instructions that were read. -/
def behind (insts : List Instruction) : EStateM.Result DecodeError TokenCursor (List Instruction) →
    EStateM.Result DecodeError TokenCursor (List Instruction)
  | .ok more c => .ok (insts ++ more) c
  | .error e c => .error e c

variable {outcome : EStateM.Result DecodeError TokenCursor (List Instruction)}

theorem behind_nil : behind [] outcome = outcome := by
  cases outcome <;> rfl

theorem behind_append (first second : List Instruction) :
    behind (first ++ second) outcome = behind first (behind second outcome) := by
  cases outcome with
  | ok more c => simp [behind]
  | error e c => rfl

/-- An instruction that is read stands in front of what is read behind it. -/
theorem run_decodeUpTo_of_ok {c c₁ : TokenCursor} {inst : Instruction}
    (h : decode.run c = .ok inst c₁) (n : Nat) :
    (decodeUpTo (n + 1)).run c = behind [inst] ((decodeUpTo n).run c₁) := by
  have hmore : c.rest ≠ [] :=
    List.length_pos_iff.1 (Nat.lt_of_le_of_lt (Nat.zero_le _) (remaining_lt_of_decode h))
  rw [run_decodeUpTo_succ hmore, EStateM.run_bind, h]
  dsimp only
  rw [EStateM.run_bind]
  cases (decodeUpTo n).run c₁ with
  | ok more c' => rfl
  | error e c' => rfl

/-- Behind an instruction that cannot be read nothing is read. -/
theorem run_decodeUpTo_of_error {c c' : TokenCursor} {e : DecodeError} (hmore : c.rest ≠ [])
    (h : decode.run c = .error e c') (n : Nat) : (decodeUpTo (n + 1)).run c = .error e c' := by
  rw [run_decodeUpTo_succ hmore, EStateM.run_bind, h]

/-! ## All instructions -/

/-- Reading one instruction after another from a cursor, for as long as a token is left, has this
    outcome, and so many instructions are begun. -/
inductive ReadsToEnd : TokenCursor → Nat →
    EStateM.Result DecodeError TokenCursor (List Instruction) → Prop
  | done {c : TokenCursor} (hend : c.rest = []) : ReadsToEnd c 0 (.ok [] c)
  | stuck {c c' : TokenCursor} {e : DecodeError} (hmore : c.rest ≠ [])
      (hrun : decode.run c = .error e c') : ReadsToEnd c 1 (.error e c')
  | next {c c₁ : TokenCursor} {inst : Instruction} {n : Nat}
      {outcome : EStateM.Result DecodeError TokenCursor (List Instruction)} (hmore : c.rest ≠ [])
      (hrun : decode.run c = .ok inst c₁) (hrest : ReadsToEnd c₁ n outcome) :
      ReadsToEnd c (n + 1) (behind [inst] outcome)

namespace ReadsToEnd

variable {c : TokenCursor} {n : Nat}

/-- Not more instructions are begun than there are tokens. -/
theorem le_remaining (h : ReadsToEnd c n outcome) : n ≤ c.remaining := by
  induction h with
  | done _ => exact Nat.zero_le _
  | stuck hmore _ => exact List.length_pos_iff.2 hmore
  | next _ hrun _ ih =>
      have hlt := remaining_lt_of_decode hrun
      omega

/-- A bound that is not smaller than the number of instructions is never met. -/
theorem run_decodeUpTo (h : ReadsToEnd c n outcome) {bound : Nat} (hle : n ≤ bound) :
    (decodeUpTo bound).run c = outcome := by
  induction h generalizing bound with
  | done hend => exact run_decodeUpTo_of_rest_eq_nil hend bound
  | stuck hmore hrun =>
      obtain ⟨bound, rfl⟩ := Nat.exists_eq_add_of_le' hle
      exact run_decodeUpTo_of_error hmore hrun bound
  | next _ hrun _ ih =>
      obtain ⟨bound, rfl⟩ := Nat.exists_eq_add_of_le' (Nat.le_of_add_left_le hle)
      rw [run_decodeUpTo_of_ok hrun, ih (Nat.le_of_succ_le_succ hle)]

/-- Every instruction takes a token, so there is an end. -/
theorem exists_outcome (c : TokenCursor) : ∃ n outcome, ReadsToEnd c n outcome := by
  induction hlen : c.remaining using Nat.strongRecOn generalizing c with
  | ind remaining ih =>
      by_cases hend : c.rest = []
      · exact ⟨0, _, .done hend⟩
      · cases hrun : decode.run c with
        | error e c' => exact ⟨1, _, .stuck hend hrun⟩
        | ok inst c₁ =>
            have hlt := remaining_lt_of_decode hrun
            obtain ⟨n, outcome, hrest⟩ := ih c₁.remaining (hlen ▸ hlt) c₁ rfl
            exact ⟨n + 1, _, .next hend hrun hrest⟩

/-- The reader with a bound comes to that end. -/
theorem exists_decodeAll (c : TokenCursor) :
    ∃ n, n ≤ c.remaining ∧ ReadsToEnd c n (decodeAll.run c) := by
  obtain ⟨n, outcome, h⟩ := exists_outcome c
  have hrun : decodeAll.run c = outcome := h.run_decodeUpTo h.le_remaining
  rw [hrun]
  exact ⟨n, h.le_remaining, h⟩

/-- An error is that of the first instruction that cannot be read. -/
theorem exists_decode_eq_error (h : ReadsToEnd c n outcome) {e : DecodeError} {c' : TokenCursor}
    (houtcome : outcome = .error e c') : ∃ i insts c₁, (decodeUpTo i).run c = .ok insts c₁
      ∧ c₁.rest ≠ [] ∧ decode.run c₁ = .error e c' := by
  induction h with
  | done _ => cases houtcome
  | @stuck c _ _ hmore hrun =>
      cases houtcome
      exact ⟨0, [], c, rfl, hmore, hrun⟩
  | @next _ _ inst _ outcome _ hrun _ ih =>
      cases outcome with
      | ok more c₂ => cases houtcome
      | error e₁ c₂ =>
          obtain ⟨i, insts, c₁, hbefore, hfails⟩ := ih houtcome
          refine ⟨i + 1, inst :: insts, c₁, ?_, hfails⟩
          rw [run_decodeUpTo_of_ok hrun, hbefore]
          rfl

end ReadsToEnd

/-- As many runs as tokens suffice, and how many there are beyond that makes no difference. -/
theorem run_decodeUpTo_eq_run_decodeAll {n : Nat} {c : TokenCursor} (hn : c.remaining ≤ n) :
    (decodeUpTo n).run c = decodeAll.run c := by
  obtain ⟨k, hk, h⟩ := ReadsToEnd.exists_decodeAll c
  exact h.run_decodeUpTo (Nat.le_trans hk hn)

end Instruction

end ShaderBytecode
