import ShaderBytecode.Proofs.Instruction.Refusal

set_option autoImplicit false

/-! # Every instruction that is written fits its length field

The length check of the encoder never refuses anything: what refuses an instruction are the checks of
its operands (`Instruction.encode_eq_map`). The first token is filled field by field, and opcode,
length and the announcement of extension tokens each read back what was written. -/

namespace ShaderBytecode

open BitRange

/-! ## Refusals are about operands -/

/-- The error is about the length of an instruction. -/
def EmitError.BlamesLength : EmitError → Prop
  | .instructionTooLong _ _ => True
  | _ => False

namespace Operand

theorem onlyFails_encode (op : Operand) : OnlyFails (¬ ·.BlamesLength) op.encode := by
  intro e he
  obtain ⟨fault, rfl⟩ := op.writes_encode.onlyFails e he
  exact id

theorem onlyFails_encodeDestination (op : Operand) :
    OnlyFails (¬ ·.BlamesLength) op.encodeDestination := by
  unfold encodeDestination
  split
  · exact .throw id
  · exact op.onlyFails_encode

theorem onlyFails_checkKind (expected : OperandKind) (op : Operand) :
    OnlyFails (¬ ·.BlamesLength) (op.checkKind expected) := by
  unfold checkKind
  split
  · exact .pure ()
  · exact .throw id

end Operand

namespace Instruction

/-- Whatever stands behind the first token, it is not refused for its length. -/
theorem onlyFails_encodeBody (inst : Instruction) :
    OnlyFails (¬ ·.BlamesLength) inst.encodeBody := by
  have hdst := Operand.onlyFails_encodeDestination
  have hsrc := Operand.onlyFails_encode
  cases inst with
  | dclGlobalFlags flags | dclTemps count | ret => exact .pure _
  | dclInput operand | dclOutput operand => exact hsrc operand
  | dclOutputSiv operand name => exact (hsrc operand).bind fun us => .pure _
  | dclConstantBuffer slot size access => exact hsrc _
  | dclSampler slot mode => exact hsrc _
  | dclResource slot dimension sampleCount returnTypes =>
      exact .refuse id ((hsrc _).bind fun us => .pure _)
  | mov dst src => exact (hdst dst).bind fun us => (hsrc src).bind fun vs => .pure _
  | add dst a b | mul dst a b =>
      exact (hdst dst).bind fun us => (hsrc a).bind fun vs => (hsrc b).bind fun ws => .pure _
  | mad dst a b c =>
      exact (hdst dst).bind fun us => (hsrc a).bind fun vs => (hsrc b).bind fun ws =>
        (hsrc c).bind fun xs => .pure _
  | sampleL dimension returnTypes dst coord texture sampler lod =>
      exact (texture.onlyFails_checkKind _).bind fun _ => (sampler.onlyFails_checkKind _).bind
        fun _ => (hdst dst).bind fun us => (hsrc coord).bind fun vs => (hsrc texture).bind
          fun ws => (hsrc sampler).bind fun xs => (hsrc lod).bind fun ys => .pure _

/-- The length check always passes: an instruction is its first token and its body, or what refuses
    the body refuses the instruction. -/
theorem encode_eq_map (inst : Instruction) :
    inst.encode = inst.encodeBody.map fun body => inst.headToken (1 + body.length) :: body := by
  unfold encode
  cases hbody : inst.encodeBody with
  | error e => rfl
  | ok body =>
      simp only [bind, Except.bind, Except.map, if_neg (not_too_long_of_encodeBody hbody)]
      rfl

/-! ## The fields of the first token -/

/-- Sampling announces extension tokens, and nothing else does. -/
theorem extended_headToken_eq_one_iff {inst : Instruction} {ts : List UInt32} (h : inst.HasBody ts)
    {length : Nat} (hlen : length ≤ OpcodeToken.maxLength) :
    OpcodeToken.extended.get (inst.headToken length) = 1 ↔ inst.opcode = .sampleL := by
  constructor
  · intro hone
    by_contra hop
    rw [extended_headToken hop] at hone
    cases hone
  · intro hop
    have hmem : (OpcodeToken.extended, 1) ∈ inst.headFields := by
      cases inst <;> cases hop
      exact List.mem_singleton_self _
    have hshows := (shows_append.1 (shows_cons.1 (shows_headToken h hlen)).2).1
    exact hshows (OpcodeToken.extended, 1) hmem

theorem opcode_eq_sampleL_iff {inst : Instruction} : inst.opcode = .sampleL ↔
    ∃ dimension returnTypes dst coord texture sampler lod,
      inst = .sampleL dimension returnTypes dst coord texture sampler lod := by
  cases inst <;> simp [opcode]

/-- The length that was written can be read from the first token. -/
theorem length_headToken {inst : Instruction} {ts : List UInt32} (h : inst.HasBody ts)
    {length : Nat} (hlen : length ≤ OpcodeToken.maxLength) :
    (OpcodeToken.length.get (inst.headToken length)).toNat = length :=
  (isHead_headToken h hlen).length

/-- The opcode can be read from the first token. -/
theorem opcode_headToken {inst : Instruction} {ts : List UInt32} (h : inst.HasBody ts)
    {length : Nat} (hlen : length ≤ OpcodeToken.maxLength) :
    OpcodeToken.opcode.get (inst.headToken length) = Coded.code inst.opcode :=
  (shows_cons.1 (shows_headToken h hlen)).1

/-! ## Appending an instruction -/

/-- Appending an instruction to a buffer adds from one to 54 tokens. Of the first one the length
    field tells how many they are, the opcode field is that of the instruction, and the top bit is
    set exactly for sampling. If the instruction is refused, then never for its length but because
    it is not well placed or an operand fails its checks, and the buffer stays as it was. -/
theorem run_emit_cases (inst : Instruction) (buffer : List UInt32) :
    match inst.emit.run buffer with
    | .ok _ after => ∃ head body, after = buffer ++ head :: body ∧
        (head :: body).length ≤ 54 ∧
        (OpcodeToken.length.get head).toNat = (head :: body).length ∧
        OpcodeToken.opcode.get head = Coded.code inst.opcode ∧
        (OpcodeToken.extended.get head = 1 ↔ ∃ dimension returnTypes dst coord texture sampler lod,
          inst = .sampleL dimension returnTypes dst coord texture sampler lod)
    | .error e after => after = buffer ∧
        (∀ opcode length, e ≠ .instructionTooLong opcode length) ∧
        ¬ (inst.WellPlaced ∧ ∀ op ∈ inst.operands, op.check = .ok ()) := by
  rw [emit, Emitter.run_append, encode_eq_map]
  cases hencode : inst.encodeBody with
  | error e =>
      refine ⟨rfl, ?_, ?_⟩
      · rintro opcode length rfl
        exact inst.onlyFails_encodeBody _ hencode trivial
      · rintro ⟨hplaced, hchecks⟩
        have hwrites := writes_encodeBody hplaced
        rw [hencode] at hwrites
        exact hwrites.1 hchecks
  | ok body =>
      have hbody := hasBody_of_encodeBody hencode
      have hshort := hbody.length_le
      have hlen : 1 + body.length ≤ OpcodeToken.maxLength := by
        unfold OpcodeToken.maxLength
        omega
      refine ⟨inst.headToken (1 + body.length), body, rfl, ?_, ?_, opcode_headToken hbody hlen,
        (extended_headToken_eq_one_iff hbody hlen).trans opcode_eq_sampleL_iff⟩
      · rw [List.length_cons]
        omega
      · rw [length_headToken hbody hlen, List.length_cons, Nat.add_comm]

/-- The bound is reached: sampling with three long indices in every operand, and four long values in
    both that may hold values. -/
example :
    let indices := List.replicate 3 (RegisterIndex.imm64 0)
    let register := fun kind => Operand.mk kind .none indices none
    let values := Operand.mk .immediate64 .identity indices (some (.doubleWords [0, 0, 0, 0]))
    (sampleL .texture2D ⟨.float, .float, .float, .float⟩ (register .temp) values
      (register .resource) (register .sampler) values).encode.map List.length = .ok 54 := by
  decide

end Instruction

end ShaderBytecode
