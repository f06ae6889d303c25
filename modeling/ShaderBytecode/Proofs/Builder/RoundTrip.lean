import ShaderBytecode.Proofs.Builder.Step
import ShaderBytecode.Proofs.Container.Writing
import ShaderBytecode.Proofs.Instruction.Refusal
import ShaderBytecode.Proofs.Program.RoundTrip
import ShaderBytecode.Proofs.Shader.Roles

set_option autoImplicit false

/-! # What was built can be written and read

The checks that a builder makes step by step are all that the encoder asks of instructions, except
that it looks closer at operands. So a finished program is refused for its shader model or for an
operand and for nothing else. Stored in a container as its only chunk, it comes back as it was
built. -/

namespace ShaderBytecode

/-! ## The version -/

namespace ShaderVersion

/-- Each number of a shader model has four bits. -/
theorem exists_encode_iff (version : ShaderVersion) :
    (∃ token, version.encode = .ok token)
      ↔ version.model.major ≤ 15 ∧ version.model.minor ≤ 15 := by
  have hfits : ∀ (r : BitRange) (n : UInt8), r.width = 4 →
      (r.fits n.toUInt32 = true ↔ n ≤ 15) := by
    intro r n hwidth
    rw [BitRange.fits_iff_toNat_lt, hwidth, UInt8.toNat_toUInt32, UInt8.le_iff_toNat_le]
    exact Nat.lt_succ_iff
  simp only [encode_eq_ok_iff, exists_and_left, exists_eq, and_true]
  rw [hfits VersionToken.major _ rfl, hfits VersionToken.minor _ rfl]

end ShaderVersion

namespace Instruction

/-- What a builder records may stand where it does. -/
theorem Recordable.wellPlaced {inst : Instruction} (h : inst.Recordable) : inst.WellPlaced := by
  have hdst : ∀ {op : Operand}, op.kind = .temp ∨ op.kind = .output → op.isImmediate = false := by
    rintro op (hkind | hkind) <;> rw [Operand.isImmediate, hkind] <;> rfl
  cases inst with
  | dclResource slot dimension sampleCount returnTypes =>
      obtain rfl : sampleCount = 0 := h
      exact UInt32.zero_le
  | mov | add | mul | mad => exact hdst h
  | sampleL => exact ⟨hdst h.1, h.2⟩
  | _ => trivial

end Instruction

namespace ProgramBuilder

/-- The finished program has the recorded instructions and perhaps one more. -/
theorem forall_mem_withTemps_iff {b : ProgramBuilder} {p : Instruction → Prop}
    (hp : ∀ count, p (.dclTemps count)) :
    (∀ inst ∈ b.withTemps, p inst) ↔ ∀ inst ∈ b.instructions, p inst := by
  unfold withTemps
  split
  · exact Iff.rfl
  · rw [List.forall_mem_append, List.forall_mem_cons, and_iff_right (hp _),
      ← List.forall_mem_append, List.takeWhile_append_dropWhile]

/-- The instructions of a finished program are written exactly if all recorded operands can be. -/
theorem Sound.writes_withTemps {b : ProgramBuilder} (hb : b.Sound) :
    Writes (b.withTemps.mapM (·.encode))
      (∀ inst ∈ b.instructions, ∀ op ∈ inst.operands, ∃ tokens, op.encode = .ok tokens) := by
  have hplaced : ∀ inst ∈ b.withTemps, inst.WellPlaced :=
    (forall_mem_withTemps_iff fun _ => trivial).2 fun inst hinst =>
      (hb.recordable inst hinst).wellPlaced
  refine (Writes.mapM fun inst hinst => inst.writes_encode (hplaced inst hinst)).congr ?_
  rw [forall_mem_withTemps_iff fun _ => by simp [Instruction.operands]]
  have hoperand := fun op : Operand => op.writes_encode.exists_ok_iff
  simp only [hoperand]

/-- A program is finished exactly if its shader model and its operands can be written. -/
theorem Sound.exists_finish_iff {b : ProgramBuilder} (hb : b.Sound) :
    (∃ tokens, b.finish = .ok tokens) ↔ b.model.major ≤ 15 ∧ b.model.minor ≤ 15
      ∧ ∀ inst ∈ b.instructions, ∀ op ∈ inst.operands, ∃ tokens, op.encode = .ok tokens := by
  rw [← and_assoc, ← ShaderVersion.exists_encode_iff ⟨b.stage, b.model⟩,
    ← hb.writes_withTemps.exists_ok_iff]
  constructor
  · rintro ⟨tokens, h⟩
    obtain ⟨version, tss, hversion, htss, -⟩ := Program.encode_eq_ok_iff.1 h
    exact ⟨⟨version, hversion⟩, tss, htss⟩
  · rintro ⟨⟨version, hversion⟩, tss, htss⟩
    exact ⟨_, Program.encode_eq_ok_iff.2 ⟨version, tss, hversion, htss, rfl⟩⟩

/-- Where a program is not finished, its shader model or an operand is to blame. -/
theorem Sound.onlyFails_finish {b : ProgramBuilder} (hb : b.Sound) :
    OnlyFails (fun e => e = .badShaderModel b.model.major b.model.minor ∨ e.BlamesOperand)
      b.finish := by
  have hversion : OnlyFails (fun e => e = .badShaderModel b.model.major b.model.minor
      ∨ e.BlamesOperand) (ShaderVersion.encode ⟨b.stage, b.model⟩) := by
    unfold ShaderVersion.encode
    dsimp only
    split
    · exact .pure _
    · exact .throw (.inl rfl)
  have hbody := hb.writes_withTemps.onlyFails
  exact hversion.bind fun version => OnlyFails.bind (fun e he => .inr (hbody e he)) fun body =>
    .pure _

end ProgramBuilder

/-! ## Programs in containers -/

/-- A program that is the only chunk of a container is the program of the shader. -/
theorem Shader.parse_of_write {p : Program} {tokens : List UInt32} {bytes : List UInt8}
    (hstage : ∀ n, p.stage = .unknown n → 5 < n) (h : p.encode = .ok tokens)
    (hwrite : Container.write [⟨.shex, LittleEndian.ofWords tokens⟩] = .ok bytes) :
    ∃ shader, parse bytes = .ok shader ∧ shader.program
      = some { p with instructions := p.instructions.map (·.truncateFlags) } := by
  obtain ⟨hsize, rfl⟩ := Container.write_eq_ok_iff.1 hwrite
  have hlen : tokens.length < 2 ^ 32 := by
    rw [Container.length_toBytes, Container.bodyLength, List.flatMap_singleton,
      Payload.length_toBytes, LittleEndian.length_ofWords] at hsize
    omega
  have hcount : 1 ≤ ({} : ParseOptions).maxChunks := by decide
  obtain ⟨container, hparse, -, -, hpayloads⟩ := Container.parseWith_of_write hwrite hcount
  obtain ⟨chunk, hchunks, hchunk⟩ := List.map_eq_singleton_iff.1 hpayloads
  obtain ⟨htag, hdata⟩ := Payload.mk.inj hchunk
  obtain ⟨hframe, -, -, -, hdecode⟩ := Program.ofTokens_of_encode hstage h hlen
  have hprogram : programOf chunk
      = .ok { p with instructions := p.instructions.map (·.truncateFlags) } := by
    refine bind_eq_ok_iff.2 ⟨_, mapError_eq_ok_iff.2 ?_, mapError_eq_ok_iff.2 hdecode⟩
    rw [hdata, hframe]
  have hroles : ShaderRoles.ofChunks container.chunks = .ok { program := some chunk } := by
    rw [hchunks]
    show (ShaderRoles.add {} chunk >>= pure) = _
    rw [ShaderRoles.add, htag]
    rfl
  have hmapM : (some chunk).mapM programOf
      = .ok (some { p with instructions := p.instructions.map (·.truncateFlags) }) :=
    mapM_program_eq_ok_iff.2 (congrArg some hprogram.symm)
  exact ⟨_, bind_eq_ok_iff.2 ⟨container, mapError_eq_ok_iff.2 hparse, bind_eq_ok_iff.2 ⟨_,
    mapError_eq_ok_iff.2 hroles, bind_eq_ok_iff.2 ⟨_, hmapM, rfl⟩⟩⟩, rfl⟩

namespace ProgramBuilder

/-- **Whatever is built comes back from a container, and little can keep it from being written.**
    After any steps a program is finished exactly if its shader model has two numbers of four bits
    and the encoder accepts every operand of the recorded instructions; if it is not finished, one
    of these is to blame. Once its tokens are stored as the program of a container, reading the
    container gives the program that was built, less the bits of global flags that no flag is
    defined for. A stage must not hide a named one behind its number. -/
theorem finish_survives_container {stage : ShaderStage} {model : ShaderModel}
    (hstage : ∀ n, stage = .unknown n → 5 < n) (calls : List Call) :
    let b := afterAll { stage, model } calls
    ((∃ tokens, b.finish = .ok tokens) ↔ model.major ≤ 15 ∧ model.minor ≤ 15
        ∧ ∀ inst ∈ b.instructions, ∀ op ∈ inst.operands, ∃ tokens, op.encode = .ok tokens)
      ∧ (∀ e, b.finish = .error e → e = .badShaderModel model.major model.minor
        ∨ ∃ fault, e = .badOperand fault)
      ∧ ∀ tokens bytes, b.finish = .ok tokens
        → Container.write [⟨.shex, LittleEndian.ofWords tokens⟩] = .ok bytes
        → ∃ shader, Shader.parse bytes = .ok shader ∧ shader.program = some
          { b.program with instructions := b.program.instructions.map (·.truncateFlags) } := by
  intro b
  have hsound : b.Sound := sound_afterAll stage model calls
  obtain ⟨hstage', hmodel⟩ : b.stage = stage ∧ b.model = model := version_afterAll _ calls
  refine ⟨hmodel ▸ hsound.exists_finish_iff, hmodel ▸ hsound.onlyFails_finish, ?_⟩
  intro tokens bytes hfinish hwrite
  have hknown : ∀ n, b.program.stage = .unknown n → 5 < n := fun n hn =>
    hstage n (hstage'.symm.trans hn)
  exact Shader.parse_of_write hknown hfinish hwrite

/-- A program with undefined global flags and a temporary register that it declares for itself. -/
theorem finish_survives_container_copy :
    let calls := [.dclOutput 0 15, .mov (.register .temp 2 (.mask 15)) (.scalarValue 0x3F800000),
      .dclGlobalFlags ⟨0xFFFFFFFF⟩, .mov (.register .temp 40 (.mask 15)) (.scalarValue 0),
      .mov (.register .output 0 (.mask 15)) (.register .temp 2 .identity), .ret]
    let b := afterAll { stage := .unknown 6, model := ⟨5, 0⟩ } calls
    let tokens := [0x60050, 19, 0x3000065, 0x1020F2, 0, 0x2000068, 3, 0x5000036, 0x1000F2, 2,
      0x4001, 0x3F800000, 0x100186A, 0x5000036, 0x1020F2, 0, 0x100E46, 2, 0x100003E]
    ∃ bytes shader, b.finish = .ok tokens
      ∧ Container.write [⟨.shex, LittleEndian.ofWords tokens⟩] = .ok bytes
      ∧ Shader.parse bytes = .ok shader
      ∧ shader.program = some ⟨.unknown 6, ⟨5, 0⟩, [.dclOutput (.register .output 0 (.mask 15)),
        .dclTemps 3, .mov (.register .temp 2 (.mask 15)) (.scalarValue 0x3F800000),
        .dclGlobalFlags ⟨0x1800⟩,
        .mov (.register .output 0 (.mask 15)) (.register .temp 2 .identity), .ret]⟩ := by
  intro calls b tokens
  have hstage : ∀ n, ShaderStage.unknown 6 = .unknown n → 5 < n := by
    intro n hn
    obtain rfl := ShaderStage.unknown.inj hn
    decide
  have hfinish : b.finish = .ok tokens := by decide +revert +kernel
  have hwrite : Container.write [⟨.shex, LittleEndian.ofWords tokens⟩]
      = .ok (Container.toBytes [⟨.shex, LittleEndian.ofWords tokens⟩]) :=
    if_pos (by decide +revert +kernel)
  obtain ⟨-, -, hback⟩ := @finish_survives_container (.unknown 6) ⟨5, 0⟩ hstage calls
  obtain ⟨shader, hshader, hprogram⟩ := hback _ _ hfinish hwrite
  exact ⟨_, shader, hfinish, hwrite, hshader, hprogram⟩

end ProgramBuilder

end ShaderBytecode
