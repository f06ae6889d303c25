import ShaderBytecode.Proofs.Instruction.Position
import ShaderBytecode.Proofs.Instruction.ToEnd
import ShaderBytecode.Proofs.Program.RoundTrip

set_option autoImplicit false

/-! # Programs one behind the other

Instructions are read one after another with nothing carried from one to the next but the place. So
a sequence that can be read may be put in front of anything: its instructions are read first, and
then the rest is read as it is read alone, only further on (`HaveForms.run_decodeAll_append`,
`moved_decodeAll`). For programs this says that the bodies of two programs of one version, put
together, give the instructions of both, and that a fault of the second body is found where it has
moved to. -/

namespace ShaderBytecode

namespace Instruction

/-! ## Sequences -/

/-- An instruction in front is read first, and then everything behind it. -/
theorem HasForm.run_decodeAll_append {inst : Instruction} {ts : List UInt32} (h : inst.HasForm ts)
    (p : Nat) (rest : List UInt32) : decodeAll.run ⟨p, ts ++ rest⟩
      = behind [inst] (decodeAll.run ⟨p + ts.length, rest⟩) := by
  have hdecode : decode.run ⟨p, ts ++ rest⟩ = .ok inst ⟨p + ts.length, rest⟩ :=
    (reads_decode _ _ _).2 ⟨ts, ⟨rfl, rfl⟩, h⟩
  -- One run goes to the instruction, and those that are left suffice for the tokens behind it.
  have hlt := remaining_lt_of_decode hdecode
  rw [← run_decodeUpTo_eq_run_decodeAll (Nat.le_succ _), run_decodeUpTo_of_ok hdecode,
    run_decodeUpTo_eq_run_decodeAll (Nat.le_of_lt hlt)]

/-- A sequence in front is read first, and then everything behind it. -/
theorem HaveForms.run_decodeAll_append {insts : List Instruction} {tss : List (List UInt32)}
    (h : HaveForms insts tss) (p : Nat) (rest : List UInt32) :
    decodeAll.run ⟨p, tss.flatten ++ rest⟩
      = behind insts (decodeAll.run ⟨p + tss.flatten.length, rest⟩) := by
  induction h generalizing p with
  | nil => rw [List.flatten_nil, List.nil_append, List.length_nil, Nat.add_zero, behind_nil]
  | cons hform _ ih =>
      rw [List.flatten_cons, List.append_assoc, hform.run_decodeAll_append, ih, List.length_append,
        Nat.add_assoc, ← behind_append]
      rfl

end Instruction

namespace TokenProgram

/-! ## Programs -/

/-- The program with the given version token and the given tokens of instructions. -/
def framed (version : UInt32) (body : List UInt32) : TokenProgram :=
  ofTokens (version :: UInt32.ofNat (2 + body.length) :: body)

/-- The frame declares just the tokens it has, so all of the body is read. -/
theorem decode_framed (version : UInt32) {body : List UInt32} (hlen : 2 + body.length < 2 ^ 32) :
    (framed version body).decode = match Instruction.decodeAll.run ⟨2, body⟩ with
      | .ok insts _ => .ok ⟨(ShaderVersion.decode version).stage,
          (ShaderVersion.decode version).model, insts⟩
      | .error e _ => .error e := by
  have hdeclared : (framed version body).declaredLength = 2 + body.length :=
    UInt32.toNat_ofNat_of_lt' hlen
  have htokens : (framed version body).tokens.length = 2 + body.length := by
    rw [framed, ofTokens, List.length_cons, List.length_cons]
    omega
  have hframe : ¬ ((framed version body).declaredLength < 2
      ∨ (framed version body).declaredLength > (framed version body).tokens.length) := by
    omega
  have hdeclaredTokens : (framed version body).declaredTokens = (framed version body).tokens := by
    rw [declaredTokens, hdeclared, ← htokens, List.take_length]
  have hcursor : TokenCursor.ofTokens (framed version body).tokens 2 = ⟨2, body⟩ := by
    rw [TokenCursor.ofTokens, htokens, Nat.min_eq_left (Nat.le_add_right 2 body.length)]
    rfl
  rw [decode, if_neg hframe, hdeclaredTokens, hcursor]
  rfl

/-- **The body of a program is read piece by piece.** If the tokens of one body can be read, then
    behind them those of another body of the same version are read as they are read alone: the
    program with both gives the instructions of both, and a fault of the second body is told at its
    place behind the first. -/
theorem decode_framed_append {version : UInt32} {first second : List UInt32} {program : Program}
    (hlen : 2 + first.length + second.length < 2 ^ 32)
    (hfirst : (framed version first).decode = .ok program) :
    (framed version (first ++ second)).decode = match (framed version second).decode with
      | .ok more => .ok { program with instructions := program.instructions ++ more.instructions }
      | .error e => .error ⟨e.position + first.length, e.fault⟩ := by
  have hall : 2 + (first ++ second).length < 2 ^ 32 := by
    rw [List.length_append]
    omega
  rw [decode_framed version (by omega)] at hfirst
  cases hrun : Instruction.decodeAll.run ⟨2, first⟩ with
  | error e c =>
      rw [hrun] at hfirst
      cases hfirst
  | ok insts c =>
      rw [hrun] at hfirst
      obtain rfl := Except.ok.inj hfirst
      obtain ⟨tss, hforms, htokens⟩ := Instruction.decodeAll_eq_ok_iff.1 ⟨c, hrun⟩
      dsimp only at htokens
      -- Behind the first body the second is read from where it has moved to.
      have hmoved := Instruction.moved_decodeAll (k := first.length) ⟨2, second⟩
      have hboth : Instruction.decodeAll.run ⟨2, first ++ second⟩ = Instruction.behind insts
          (Decoder.movedResult first.length (Instruction.decodeAll.run ⟨2, second⟩)) := by
        rw [← hmoved, htokens]
        exact hforms.run_decodeAll_append 2 second
      rw [decode_framed version hall, decode_framed version (by omega), hboth]
      cases Instruction.decodeAll.run ⟨2, second⟩ with
      | ok more c => rfl
      | error e c => rfl

/-- Behind a declaration and a return another return is read, and a move that breaks off is told at
    its new place. -/
theorem decode_framed_append_temps :
    (framed 0x10050 ([0x2000068, 1, 0x100003E] ++ [0x100003E])).decode
        = .ok ⟨.vertex, ⟨5, 0⟩, [.dclTemps 1, .ret, .ret]⟩
      ∧ (framed 0x10050 ([0x2000068, 1, 0x100003E] ++ [0x5000036, 0x1000F2])).decode
        = .error ⟨7, .unexpectedEnd 1 0⟩ := by
  have htemps : (framed 0x10050 [0x2000068, 1, 0x100003E]).decode
      = .ok ⟨.vertex, ⟨5, 0⟩, [.dclTemps 1, .ret]⟩ := by rfl
  have hret : (framed 0x10050 [0x100003E]).decode = .ok ⟨.vertex, ⟨5, 0⟩, [.ret]⟩ := by rfl
  have hmov : (framed 0x10050 [0x5000036, 0x1000F2]).decode = .error ⟨4, .unexpectedEnd 1 0⟩ := by
    rfl
  constructor
  · rw [decode_framed_append (by decide) htemps, hret]
    rfl
  · rw [decode_framed_append (by decide) htemps, hmov]
    rfl

end TokenProgram

end ShaderBytecode
