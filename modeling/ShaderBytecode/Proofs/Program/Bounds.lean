import ShaderBytecode.Proofs.Instruction.Bounds
import ShaderBytecode.Proofs.Instruction.ToEnd
import ShaderBytecode.Proofs.Program.RoundTrip

set_option autoImplicit false

/-! # Decoding ends inside the program

A program is decoded by reading instructions to the end of what its length declares, which takes no
more of them than there are tokens (`TokenProgram.exists_decodesIn`). An error is that of the first
instruction that cannot be read, and points at or behind the start of that instruction, inside the
declared length (`TokenProgram.exists_instructionHead?_of_error`). -/

namespace ShaderBytecode

namespace TokenProgram

/-- Decoding the program has this result, and so many instructions are begun. -/
inductive DecodesIn (p : TokenProgram) : Nat → Except DecodeError Program → Prop
  | badLength (h : p.declaredLength < 2 ∨ p.declaredLength > p.tokens.length) :
      DecodesIn p 0 (.error ⟨1, .badDeclaredLength p.declaredLength p.tokens.length⟩)
  | ok {n : Nat} {insts : List Instruction} {c : TokenCursor} (htwo : 2 ≤ p.declaredLength)
      (hle : p.declaredLength ≤ p.tokens.length)
      (hreads : Instruction.ReadsToEnd (.ofTokens p.declaredTokens 2) n (.ok insts c)) :
      DecodesIn p n (.ok ⟨p.stage, p.model, insts⟩)
  | error {n : Nat} {e : DecodeError} {c : TokenCursor} (htwo : 2 ≤ p.declaredLength)
      (hle : p.declaredLength ≤ p.tokens.length)
      (hreads : Instruction.ReadsToEnd (.ofTokens p.declaredTokens 2) n (.error e c)) :
      DecodesIn p n (.error e)

theorem length_declaredTokens {p : TokenProgram} (h : p.declaredLength ≤ p.tokens.length) :
    p.declaredTokens.length = p.declaredLength := by
  rw [declaredTokens, List.length_take, Nat.min_eq_left h]

theorem exists_decodesIn (p : TokenProgram) :
    ∃ n, n ≤ p.declaredLength - 2 ∧ p.DecodesIn n p.decode := by
  unfold decode
  split
  · next h => exact ⟨0, Nat.zero_le _, .badLength h⟩
  · next h =>
      rw [not_or, Nat.not_lt, Nat.not_lt] at h
      obtain ⟨n, hn, hreads⟩ :=
        Instruction.ReadsToEnd.exists_decodeAll (.ofTokens p.declaredTokens 2)
      rw [TokenCursor.remaining, TokenCursor.rest_ofTokens, List.length_drop,
        length_declaredTokens h.2] at hn
      refine ⟨n, hn, ?_⟩
      split
      · next hrun => exact .ok h.1 h.2 (hrun ▸ hreads)
      · next hrun => exact .error h.1 h.2 (hrun ▸ hreads)

/-- An error that is not one of the declared length is that of an instruction of the program. -/
theorem exists_instructionHead?_of_error {p : TokenProgram} {e : DecodeError}
    (h : p.decode = .error e)
    (hfault : ∀ declared available, e.fault ≠ .badDeclaredLength declared available) :
    ∃ i start head c, p.instructionHead? i = some (start, head)
      ∧ Instruction.decode.run (.ofTokens p.declaredTokens start) = .error e c
      ∧ 2 ≤ start ∧ start ≤ e.position ∧ e.position ≤ p.declaredLength := by
  unfold decode at h
  split at h
  · cases h
    exact absurd rfl (hfault _ _)
  · next hframe =>
      rw [not_or, Nat.not_lt, Nat.not_lt] at hframe
      have hlength := length_declaredTokens hframe.2
      split at h
      · cases h
      · next hrun =>
          cases h
          obtain ⟨n, -, hreads⟩ :=
            Instruction.ReadsToEnd.exists_decodeAll (.ofTokens p.declaredTokens 2)
          obtain ⟨i, insts, c₁, hbefore, hmore, hfails⟩ := hreads.exists_decode_eq_error hrun
          -- The instructions before it take up the tokens from the third to its own first.
          obtain ⟨tss, -, hadv, -⟩ := Instruction.decodeUpTo_eq_ok_iff.1 hbefore
          have htwo : 2 ≤ p.declaredTokens.length := hlength ▸ hframe.1
          obtain ⟨-, rfl⟩ := (TokenCursor.advances_ofTokens_iff htwo).1 hadv
          have hstart : 2 + tss.flatten.length < p.declaredTokens.length := by
            have hpos := List.length_pos_iff.2 hmore
            rw [TokenCursor.rest_ofTokens, List.length_drop] at hpos
            omega
          obtain ⟨head, rest, hrest⟩ := List.exists_cons_of_ne_nil hmore
          have hinside := Instruction.bounded_decode.staysInside (Nat.le_of_lt hstart)
          rw [hfails] at hinside
          obtain ⟨q, -, hq, -, hfrom, hto, -⟩ := hinside
          refine ⟨i, _, head, _, ?_, hfails, Nat.le_add_right 2 _, hfrom, by omega⟩
          rw [instructionHead?, hbefore]
          simp only [TokenCursor.peek?, hrest, List.head?_cons, Option.map_some,
            TokenCursor.position_ofTokens (Nat.le_of_lt hstart)]

/-- **Decoding stays inside the stream.** Wherever an operand or an instruction is read, the cursor
    ends between the start and the end of the tokens, errors point between the start and the cursor,
    and want of tokens is told at the cursor with the number of tokens left. A program is decoded in
    no more instructions than there are tokens behind its length, and every error but that of the
    declared length is the error of one of its instructions, at or behind its start and inside the
    declared length. -/
theorem decoding_stays_inside :
    (∀ tokens p, p ≤ tokens.length →
        Decoder.StaysInside tokens p (Operand.decode.run (.ofTokens tokens p))
          ∧ Decoder.StaysInside tokens p (Instruction.decode.run (.ofTokens tokens p)))
      ∧ ∀ p : TokenProgram, (∃ n, n ≤ p.declaredLength - 2 ∧ p.DecodesIn n p.decode)
        ∧ ∀ e, p.decode = .error e →
          (∀ declared available, e.fault ≠ .badDeclaredLength declared available) →
          ∃ i start head c, p.instructionHead? i = some (start, head)
            ∧ Instruction.decode.run (.ofTokens p.declaredTokens start) = .error e c
            ∧ 2 ≤ start ∧ start ≤ e.position ∧ e.position ≤ p.declaredLength := by
  refine ⟨fun tokens p hp => ⟨?_, ?_⟩, fun p => ⟨p.exists_decodesIn, ?_⟩⟩
  · exact Operand.bounded_decode.staysInside hp
  · exact Instruction.bounded_decode.staysInside hp
  · intro e h hfault
    exact exists_instructionHead?_of_error h hfault

end TokenProgram

end ShaderBytecode
