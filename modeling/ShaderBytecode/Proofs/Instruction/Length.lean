import ShaderBytecode.Proofs.Instruction.Encoding

set_option autoImplicit false

/-! # A length field that lies

The length field of an instruction's first token has no part in what is read behind that token: it
shares no bit with the other fields (`Instruction.GoesWith.set_length`). It is compared with what was
read, so of all its values the decoder accepts one, and refuses every other at the instruction's first
token (`Instruction.HasForm.run_decode_set_length`). -/

namespace ShaderBytecode

open BitRange

namespace Instruction

/-! ## The other fields -/

theorem GoesWith.set_length {inst : Instruction} {head : UInt32} (h : inst.GoesWith head)
    (declared : UInt32) : inst.GoesWith (OpcodeToken.length.set head declared) := by
  have hdis := (List.pairwise_append.1 inst.pairwise_disjoint_headFields.of_cons).2.2
  have hfields : ∀ field ∈ inst.headFields, OpcodeToken.length.Disjoint field.1 :=
    fun field hmem => (hdis field.1 (List.mem_map_of_mem hmem) _ List.mem_cons_self).symm
  cases inst with
  | dclGlobalFlags flags =>
      -- The flags lie at their own places in the token, but none of them in the length field.
      have hflags : OpcodeToken.length.get GlobalFlags.definedBits = 0 := by decide
      have hflags' : flags = GlobalFlags.truncate ⟨head⟩ := h
      rw [hflags']
      exact congrArg GlobalFlags.mk (set_and_of_get_eq_zero hflags head declared).symm
  | _ => exact Shows.set_of_disjoint h hfields declared

/-- A first token with another length is one of the same instruction. -/
theorem IsHead.set_length {inst : Instruction} {head declared : UInt32} {length : Nat}
    (h : inst.IsHead head length) (hfits : OpcodeToken.length.fits declared) :
    inst.IsHead (OpcodeToken.length.set head declared) declared.toNat where
  opcode := by
    rw [get_set_of_disjoint (by decide), h.opcode]
  length := by
    rw [get_set_self, and_valueMask_of_fits hfits]
  extended := by
    rw [get_set_of_disjoint (by decide)]
    exact h.extended
  goesWith := h.goesWith.set_length declared

/-! ## Reading behind a wrong length -/

/-- A first token of an instruction that tells the length zero is refused for that. -/
theorem decodeHead_of_length_eq_zero {token : UInt32}
    (h : (OpcodeToken.length.get token).toNat = 0) : decodeHead token = .error .zeroLength := by
  simp only [decodeHead, h, if_true]
  rfl

/-- Of the values of the length field only the number of tokens is accepted. -/
theorem HasForm.run_decode_set_length {inst : Instruction} {head : UInt32} {body : List UInt32}
    (h : inst.HasForm (head :: body)) {declared : UInt32}
    (hfits : OpcodeToken.length.fits declared) (hne : declared ≠ OpcodeToken.length.get head)
    {c c' : TokenCursor} (hadv : c.Advances (OpcodeToken.length.set head declared :: body) c') :
    ∃ c₁, decode.run c = .error ⟨c.position, if declared = 0 then .zeroLength
      else .lengthMismatch inst.opcode declared.toNat (body.length + 1)⟩ c₁ := by
  obtain ⟨_, _, hcons, hhead, hbody⟩ := h
  obtain ⟨rfl, rfl⟩ := List.cons.inj hcons
  have hlying := hhead.set_length hfits
  by_cases hzero : declared = 0
  · obtain ⟨c₁, hadv₁, -⟩ := TokenCursor.advances_append_iff.1
      (show c.Advances ([OpcodeToken.length.set head declared] ++ body) c' from hadv)
    have htoken := (Decoder.reads_token _ _ _).2 ⟨_, hadv₁, rfl⟩
    have hrefused := decodeHead_of_length_eq_zero (hlying.length.trans (by rw [hzero]; rfl))
    refine ⟨c₁, ?_⟩
    rw [if_pos hzero]
    unfold decode
    simp only [EStateM.run_bind, Decoder.run_position, htoken, hrefused]
    rfl
  · have hpos : declared.toNat ≠ 0 := fun h => hzero (UInt32.toNat_inj.1 h)
    have hwrong : body.length + 1 ≠ declared.toNat := by
      intro heq
      exact hne (UInt32.toNat_inj.1 (by rw [hhead.length, List.length_cons, heq]))
    refine ⟨c', ?_⟩
    rw [if_neg hzero, hlying.run_decode hbody hpos hadv, if_pos hwrong]

/-- A length field that lies is always noticed. Where an instruction is read, its length field tells
    the number of tokens read and its opcode field the opcode of what was read. With any other value
    in the length field reading fails at the instruction's first token, and the error tells both
    lengths. What was read depends on these tokens only: any others may stand before and behind
    them. -/
theorem decode_refuses_other_length {tokens : List UInt32} {p : Nat} {inst : Instruction}
    {c : TokenCursor} (h : decode.run (.ofTokens tokens p) = .ok inst c) :
    ∃ head body, (tokens.drop p).take (body.length + 1) = head :: body
      ∧ c = .ofTokens tokens (p + (body.length + 1))
      ∧ (OpcodeToken.length.get head).toNat = body.length + 1
      ∧ OpcodeToken.opcode.get head = Coded.code inst.opcode
      ∧ (∀ declared, OpcodeToken.length.fits declared → declared ≠ OpcodeToken.length.get head →
          ∃ c', decode.run (.ofTokens (tokens.set p (OpcodeToken.length.set head declared)) p)
            = .error ⟨p, if declared = 0 then .zeroLength
                else .lengthMismatch inst.opcode declared.toNat (body.length + 1)⟩ c')
      ∧ ∀ before after,
          decode.run (.ofTokens (before ++ head :: body ++ after) before.length)
            = .ok inst (.ofTokens (before ++ head :: body ++ after)
                (before.length + (body.length + 1))) := by
  obtain ⟨ts, hadv, hform⟩ := (reads_decode _ _ _).1 h
  obtain ⟨head, body, rfl, hhead, hbody⟩ := id hform
  have hp : p < tokens.length := hadv.lt_length
  obtain ⟨htake, hc⟩ := (TokenCursor.advances_ofTokens_iff (Nat.le_of_lt hp)).1 hadv
  refine ⟨head, body, htake, hc, hhead.length, hhead.opcode, ?_, ?_⟩
  · intro declared hfits hne
    have herror := hform.run_decode_set_length hfits hne
      (hadv.set (OpcodeToken.length.set head declared))
    rwa [TokenCursor.position_ofTokens (by rw [List.length_set]; exact Nat.le_of_lt hp)] at herror
  · intro before after
    exact (reads_decode _ _ _).2
      ⟨head :: body, TokenCursor.advances_ofTokens_append before (head :: body) after, hform⟩

/-- A move between other tokens, with a destination of two tokens for its index, that tells a length
    less by one or none at all. -/
theorem decode_refuses_other_length_mov :
    let tokens := [7, 0x6000036, 0x5000F2, 3, 0, 0x100E46, 1, 0x3E]
    let dst : Operand := ⟨.temp, .mask 15, [.imm64 3], none⟩
    let src : Operand := ⟨.temp, .swizzle ⟨0, 1, 2, 3⟩, [.imm32 1], none⟩
    decode.run (.ofTokens tokens 1) = .ok (.mov dst src) (.ofTokens tokens 7)
      ∧ (∃ c, decode.run (.ofTokens (tokens.set 1 0x5000036) 1)
        = .error ⟨1, .lengthMismatch .mov 5 6⟩ c)
      ∧ (∃ c, decode.run (.ofTokens (tokens.set 1 0x36) 1) = .error ⟨1, .zeroLength⟩ c)
      ∧ decode.run (.ofTokens ([] ++ [0x6000036, 0x5000F2, 3, 0, 0x100E46, 1] ++ [0x36]) 0)
        = .ok (.mov dst src) (.ofTokens [0x6000036, 0x5000F2, 3, 0, 0x100E46, 1, 0x36] 6) := by
  intro tokens dst src
  have h : decode.run (.ofTokens tokens 1) = .ok (.mov dst src) (.ofTokens tokens 7) := by rfl
  obtain ⟨head, body, htake, -, hlength, -, hlying, hplace⟩ := decode_refuses_other_length h
  obtain ⟨rfl, hbody⟩ := List.cons.inj htake
  have hsix : (OpcodeToken.length.get 0x6000036).toNat = 6 := by rfl
  obtain rfl : [0x5000F2, 3, 0, 0x100E46, 1] = body := by
    rw [← hbody, show body.length = 5 by omega]
    rfl
  exact ⟨h, hlying 5 (by decide) (by decide), hlying 0 (by decide) (by decide), hplace [] [0x36]⟩

end Instruction

end ShaderBytecode
