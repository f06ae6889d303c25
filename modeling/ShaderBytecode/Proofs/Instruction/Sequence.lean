import ShaderBytecode.Program.Decoder
import ShaderBytecode.Proofs.Instruction.Encoding

set_option autoImplicit false

/-! # Instructions one after another

A stream of instructions is the concatenation of one form for each. The decoder is run until no
token is left, and since a form is never empty the number of tokens bounds the number of runs:
reading stops because the tokens are used up and for no other reason
(`Instruction.decodeAll_eq_ok_iff`). -/

namespace ShaderBytecode

namespace Instruction

/-! ## Reading -/

/-- Each of the token sequences is a form of the instruction at its place. -/
def HaveForms (insts : List Instruction) (tss : List (List UInt32)) : Prop :=
  List.Forall₂ HasForm insts tss

@[simp] theorem haveForms_nil_left {tss : List (List UInt32)} : HaveForms [] tss ↔ tss = [] :=
  List.forall₂_nil_left_iff

theorem HaveForms.cons {inst : Instruction} {insts : List Instruction} {ts : List UInt32}
    {tss : List (List UInt32)} (h : inst.HasForm ts) (hs : HaveForms insts tss) :
    HaveForms (inst :: insts) (ts :: tss) :=
  List.Forall₂.cons h hs

theorem HaveForms.take {insts : List Instruction} {tss : List (List UInt32)}
    (h : HaveForms insts tss) (n : Nat) : HaveForms (insts.take n) (tss.take n) :=
  List.forall₂_take n h

/-- There are at least as many tokens as instructions. -/
theorem HaveForms.length_le {insts : List Instruction} {tss : List (List UInt32)}
    (h : HaveForms insts tss) : insts.length ≤ tss.flatten.length := by
  induction h with
  | nil => simp
  | cons hform _ ih =>
      have hpos := List.length_pos_iff.2 hform.ne_nil
      rw [List.flatten_cons, List.length_append, List.length_cons]
      omega

/-- Where no token is left, no instruction is read. -/
theorem run_decodeUpTo_of_rest_eq_nil {c : TokenCursor} (h : c.rest = []) (n : Nat) :
    (decodeUpTo n).run c = .ok [] c := by
  cases n with
  | zero => rfl
  | succ n =>
      simp only [decodeUpTo, EStateM.run_bind, EStateM.run_get, TokenCursor.isAtEnd, h]
      rfl

/-- Where a token is left, one instruction is read and then the others. -/
theorem run_decodeUpTo_succ {c : TokenCursor} (h : c.rest ≠ []) (n : Nat) :
    (decodeUpTo (n + 1)).run c
      = (decode >>= fun inst => decodeUpTo n >>= fun insts => pure (inst :: insts)).run c := by
  have hmore : c.isAtEnd = false := by simpa [TokenCursor.isAtEnd] using h
  simp only [decodeUpTo, EStateM.run_bind, EStateM.run_get, hmore, Bool.false_eq_true, if_false]

/-- An instruction takes a token at least. -/
theorem remaining_lt_of_decode {c c' : TokenCursor} {inst : Instruction}
    (h : decode.run c = .ok inst c') : c'.remaining < c.remaining := by
  obtain ⟨ts, hadv, hform⟩ := (reads_decode _ _ _).1 h
  have hpos := List.length_pos_iff.2 hform.ne_nil
  have hlen := congrArg List.length hadv.rest
  rw [List.length_append] at hlen
  unfold TokenCursor.remaining
  omega

/-- Reading up to `n` instructions reads the forms of some; they are `n`, or fewer if no token is
    left behind them. -/
theorem decodeUpTo_eq_ok_iff {n : Nat} {c c' : TokenCursor} {insts : List Instruction} :
    (decodeUpTo n).run c = .ok insts c' ↔ ∃ tss, HaveForms insts tss ∧ c.Advances tss.flatten c'
      ∧ insts.length ≤ n ∧ (insts.length = n ∨ c'.rest = []) := by
  induction n generalizing c insts with
  | zero =>
      have hpure : (decodeUpTo 0).run c = .ok [] c := rfl
      rw [hpure]
      constructor
      · intro h
        obtain ⟨rfl, rfl⟩ := EStateM.Result.ok.inj h
        exact ⟨[], .nil, TokenCursor.advances_nil_iff.2 rfl, Nat.le_refl _, .inl rfl⟩
      · rintro ⟨tss, hforms, hadv, hlen, -⟩
        obtain rfl := List.eq_nil_of_length_eq_zero (Nat.le_zero.1 hlen)
        obtain rfl := haveForms_nil_left.1 hforms
        rw [TokenCursor.advances_nil_iff.1 hadv]
  | succ n ih =>
      by_cases hend : c.rest = []
      · -- No token is left: nothing is read, and a form would need a token.
        rw [run_decodeUpTo_of_rest_eq_nil hend]
        constructor
        · intro h
          obtain ⟨rfl, rfl⟩ := EStateM.Result.ok.inj h
          exact ⟨[], .nil, TokenCursor.advances_nil_iff.2 rfl, Nat.zero_le _, .inr hend⟩
        · rintro ⟨tss, hforms, hadv, -⟩
          have hrest := hadv.rest
          rw [hend] at hrest
          have hnone := (List.append_eq_nil_iff.1 hrest.symm).1
          have hlen := hforms.length_le
          rw [hnone] at hlen hadv
          obtain rfl := List.eq_nil_of_length_eq_zero (Nat.le_zero.1 hlen)
          rw [TokenCursor.advances_nil_iff.1 hadv]
      · simp only [run_decodeUpTo_succ hend, run_bind_eq_ok]
        constructor
        · rintro ⟨inst, c₁, hdecode, rest, c₂, hrest, h⟩
          obtain ⟨rfl, rfl⟩ := EStateM.Result.ok.inj h
          obtain ⟨ts, hadv, hform⟩ := (reads_decode _ _ _).1 hdecode
          obtain ⟨tss, hforms, hadv', hlen, hstop⟩ := ih.1 hrest
          refine ⟨ts :: tss, hforms.cons hform, hadv.append hadv', Nat.succ_le_succ hlen, ?_⟩
          exact hstop.imp (congrArg (· + 1)) id
        · rintro ⟨tss, hforms, hadv, hlen, hstop⟩
          cases hforms with
          | nil =>
              obtain rfl := TokenCursor.advances_nil_iff.1 hadv
              rcases hstop with h | h
              · cases h
              · exact absurd h hend
          | cons hform hforms =>
              obtain ⟨c₁, hadv, hadv'⟩ := TokenCursor.advances_append_iff.1 hadv
              refine ⟨_, c₁, (reads_decode _ _ _).2 ⟨_, hadv, hform⟩, _, c', ?_, rfl⟩
              exact ih.2 ⟨_, hforms, hadv', Nat.le_of_succ_le_succ hlen, hstop.imp Nat.succ.inj id⟩

/-- Reading until no token is left succeeds if the tokens are one form after another. -/
theorem decodeAll_eq_ok_iff {c : TokenCursor} {insts : List Instruction} :
    (∃ c', decodeAll.run c = .ok insts c') ↔ ∃ tss, HaveForms insts tss ∧ c.rest = tss.flatten := by
  have hrun : decodeAll.run c = (decodeUpTo c.remaining).run c := rfl
  simp only [hrun, decodeUpTo_eq_ok_iff]
  constructor
  · rintro ⟨c', tss, hforms, hadv, -, hstop⟩
    refine ⟨tss, hforms, ?_⟩
    have htokens := hadv.rest
    rcases hstop with hlen | hrest
    · -- As many instructions as tokens: each took one token, and none is left.
      have hle := hforms.length_le
      have hlens := congrArg List.length htokens
      unfold TokenCursor.remaining at hlen
      rw [List.length_append] at hlens
      have hrest := List.eq_nil_of_length_eq_zero (show c'.rest.length = 0 by omega)
      rw [htokens, hrest, List.append_nil]
    · rw [htokens, hrest, List.append_nil]
  · rintro ⟨tss, hforms, htokens⟩
    refine ⟨⟨c.position + tss.flatten.length, []⟩, tss, hforms, ⟨?_, rfl⟩, ?_, .inr rfl⟩
    · rw [htokens, List.append_nil]
    · have hlens := congrArg List.length htokens
      exact Nat.le_trans hforms.length_le (Nat.le_of_eq hlens.symm)

/-- In a stream of forms the first `n` instructions are read up to where the next form starts. -/
theorem HaveForms.decodeUpTo_take {insts : List Instruction} {tss : List (List UInt32)}
    (h : HaveForms insts tss) {n : Nat} (hn : n ≤ insts.length) (p : Nat) :
    (decodeUpTo n).run ⟨p, tss.flatten⟩ = .ok (insts.take n)
      ⟨p + (tss.take n).flatten.length, (tss.drop n).flatten⟩ := by
  have hlen : (insts.take n).length = n := by rw [List.length_take, Nat.min_eq_left hn]
  have hsplit : tss.flatten = (tss.take n).flatten ++ (tss.drop n).flatten := by
    rw [← List.flatten_append, List.take_append_drop]
  exact decodeUpTo_eq_ok_iff.2 ⟨_, h.take n, ⟨hsplit, rfl⟩, Nat.le_of_eq hlen, .inl hlen⟩

/-- Two streams of forms of which one goes on where the other ends agree as far as both go. -/
theorem HaveForms.isPrefix {insts insts' : List Instruction} {tss tss' : List (List UInt32)}
    (h : HaveForms insts tss) (h' : HaveForms insts' tss') {rest : List UInt32}
    (htokens : tss.flatten = tss'.flatten ++ rest) : insts' <+: insts := by
  have hshort : (decodeUpTo insts'.length).run ⟨0, tss.flatten⟩
      = .ok insts' ⟨0 + tss'.flatten.length, rest⟩ :=
    decodeUpTo_eq_ok_iff.2 ⟨tss', h', ⟨htokens, rfl⟩, Nat.le_refl _, .inl rfl⟩
  by_cases hle : insts'.length ≤ insts.length
  · obtain ⟨heq, -⟩ := EStateM.Result.ok.inj (hshort.symm.trans (h.decodeUpTo_take hle 0))
    rw [heq]
    exact List.take_prefix _ _
  · -- All instructions of the first stream are read before the count is reached.
    have hall : (decodeUpTo insts'.length).run ⟨0, tss.flatten⟩
        = .ok insts ⟨0 + tss.flatten.length, []⟩ := by
      have hadv : TokenCursor.Advances ⟨0, tss.flatten⟩ tss.flatten ⟨0 + tss.flatten.length, []⟩ :=
        ⟨(List.append_nil _).symm, rfl⟩
      exact decodeUpTo_eq_ok_iff.2 ⟨tss, h, hadv, by omega, .inr rfl⟩
    obtain ⟨rfl, -⟩ := EStateM.Result.ok.inj (hshort.symm.trans hall)
    exact List.prefix_refl _

/-! ## Writing -/

/-- What is written for a list of instructions are their forms, undefined flags apart. -/
theorem haveForms_of_encode {insts : List Instruction} {tss : List (List UInt32)}
    (h : insts.mapM (·.encode) = .ok tss) : HaveForms (insts.map (·.truncateFlags)) tss := by
  unfold HaveForms
  rw [List.forall₂_map_left_iff]
  exact (mapM_eq_ok_iff.1 h).imp fun _ _ hencode => hasForm_of_encode hencode

/-- Instructions that were read can be written, each in as many tokens as it was read from. -/
theorem HaveForms.encode_eq_ok {insts : List Instruction} {tss : List (List UInt32)}
    (h : HaveForms insts tss) : insts.map (·.truncateFlags) = insts
      ∧ ∃ uss, insts.mapM (·.encode) = .ok uss ∧ uss.map (·.length) = tss.map (·.length) := by
  induction h with
  | nil => exact ⟨rfl, [], rfl, rfl⟩
  | cons hform _ ih =>
      obtain ⟨htruncate, us, hencode, hlen⟩ := hform.encode_eq_ok
      obtain ⟨htruncates, uss, hencodes, hlens⟩ := ih
      refine ⟨by rw [List.map_cons, htruncate, htruncates], us :: uss, ?_, ?_⟩
      · rw [mapM_eq_ok_iff] at hencodes ⊢
        exact .cons hencode hencodes
      · rw [List.map_cons, List.map_cons, hlen, hlens]

end Instruction

end ShaderBytecode
