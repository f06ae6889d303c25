import ShaderBytecode.Program.Encoder
import ShaderBytecode.Proofs.Instruction.Sequence

set_option autoImplicit false

/-! # Programs survive being written and read

A program's tokens are its version, its length and the forms of its instructions
(`TokenProgram.decode_eq_ok_iff`). From what the encoder writes the program comes back, undefined
global flags apart. From what the decoder reads the program can be written again; the new tokens
need not be the old ones, since the decoder passes over bits that mean nothing, but every
instruction keeps its place and its length. -/

namespace ShaderBytecode

open BitRange

/-! ## Versions -/

namespace ShaderStage

/-- What is read as an unknown stage has no name. -/
theorem lt_of_ofProgramType_eq_unknown {n m : UInt16} (h : ofProgramType n = .unknown m) :
    5 < m := by
  unfold ofProgramType at h
  split at h
  case h_7 =>
    cases h
    grind
  all_goals cases h

theorem ofProgramType_programType {stage : ShaderStage} (h : ∀ n, stage = .unknown n → 5 < n) :
    ofProgramType stage.programType = stage := by
  cases stage with
  | unknown n =>
      have hn := h n rfl
      simp only [programType]
      unfold ofProgramType
      split
      case h_7 => rfl
      all_goals exact absurd hn (by decide)
  | _ => rfl

end ShaderStage

namespace ShaderVersion

/-- The fields of a version token. -/
def fields (version : ShaderVersion) : List (BitRange × UInt32) :=
  [(VersionToken.minor, version.model.minor.toUInt32),
    (VersionToken.major, version.model.major.toUInt32),
    (VersionToken.programType, version.stage.programType.toUInt32)]

theorem encode_eq_ok_iff {version : ShaderVersion} {token : UInt32} :
    version.encode = .ok token ↔ (VersionToken.major.fits version.model.major.toUInt32 = true
      ∧ VersionToken.minor.fits version.model.minor.toUInt32 = true)
      ∧ token = fill 0 version.fields := by
  rw [← Bool.and_eq_true]
  unfold encode
  dsimp only
  split
  · next h =>
      constructor
      · intro htoken
        exact ⟨h, (Except.ok.inj htoken).symm⟩
      · rintro ⟨-, rfl⟩
        rfl
  · next h =>
      constructor
      · intro htoken
        cases htoken
      · rintro ⟨hfits, -⟩
        exact absurd hfits h

/-- A version that was written is read back, unless it hides a named stage behind its number. -/
theorem decode_of_encode {version : ShaderVersion} {token : UInt32}
    (hstage : ∀ n, version.stage = .unknown n → 5 < n) (h : version.encode = .ok token) :
    decode token = version := by
  obtain ⟨⟨hmajor, hminor⟩, rfl⟩ := encode_eq_ok_iff.1 h
  have hprogramType : VersionToken.programType.fits version.stage.programType.toUInt32 := by
    rw [fits_iff_toNat_lt, UInt16.toNat_toUInt32]
    exact version.stage.programType.toNat_lt
  have hshows : Shows (fill 0 version.fields) version.fields := by
    refine shows_fill ?_ ?_ 0
    · simp only [fields, List.map_cons, List.map_nil]
      decide
    · simp only [fields, List.mem_cons, List.not_mem_nil, or_false, forall_eq_or_imp, forall_eq]
      exact ⟨hminor, hmajor, hprogramType⟩
  generalize fill 0 version.fields = token at hshows ⊢
  obtain ⟨stage, major, minor⟩ := version
  obtain ⟨hminor, hmajor, hprogramType, -⟩ := by simpa only [fields, shows_cons] using hshows
  simp only [decode, hminor, hmajor, hprogramType, UInt8.toUInt8_toUInt32,
    UInt16.toUInt16_toUInt32, ShaderStage.ofProgramType_programType hstage]

/-- Every version that was read can be written. -/
theorem encode_decode_eq_ok (token : UInt32) : ∃ written, (decode token).encode = .ok written := by
  refine ⟨_, encode_eq_ok_iff.2 ⟨⟨?_, ?_⟩, rfl⟩⟩
  · show VersionToken.major.fits ((VersionToken.major.get token).toUInt8.toUInt32) = true
    rw [toUInt32_toUInt8_get (by decide)]
    exact fits_get _ _
  · show VersionToken.minor.fits ((VersionToken.minor.get token).toUInt8.toUInt32) = true
    rw [toUInt32_toUInt8_get (by decide)]
    exact fits_get _ _

end ShaderVersion

/-! ## Frames -/

namespace TokenProgram

theorem ofBytes_eq_ok_iff {bytes : List UInt8} {p : TokenProgram} : ofBytes bytes = .ok p ↔
    bytes.length % 4 = 0 ∧ p = ofTokens (LittleEndian.toWords bytes) ∧ 2 ≤ p.declaredLength
      ∧ p.declaredLength ≤ p.tokens.length := by
  unfold ofBytes
  dsimp only
  split
  · next h => simp [h]
  · split
    · next h =>
        constructor
        · intro h
          cases h
        · rintro ⟨-, rfl, htwo, hle⟩
          omega
    · split
      · next h =>
          constructor
          · intro h
            cases h
          · rintro ⟨-, rfl, htwo, hle⟩
            omega
      · next haligned hlong hlength =>
          rw [not_or, Nat.not_lt, Nat.not_lt] at hlength
          constructor
          · intro h
            obtain rfl := Except.ok.inj h
            exact ⟨Decidable.not_not.1 haligned, rfl, hlength⟩
          · rintro ⟨-, rfl, -⟩
            rfl

/-- A program is read if its declared length is right and the tokens it covers are its version, its
    length and one form for each instruction. -/
theorem decode_eq_ok_iff {p : TokenProgram} {m : Program} : p.decode = .ok m ↔
    (2 ≤ p.declaredLength ∧ p.declaredLength ≤ p.tokens.length)
      ∧ m.stage = p.stage ∧ m.model = p.model ∧ ∃ tss,
        Instruction.HaveForms m.instructions tss ∧ p.declaredTokens.drop 2 = tss.flatten := by
  obtain ⟨stage, model, instructions⟩ := m
  have hrest : (TokenCursor.ofTokens p.declaredTokens 2).rest = p.declaredTokens.drop 2 := rfl
  rw [← hrest, ← Instruction.decodeAll_eq_ok_iff]
  unfold decode
  split
  · next h =>
      constructor
      · intro h
        cases h
      · rintro ⟨⟨htwo, hle⟩, -⟩
        omega
  · next h =>
      rw [not_or, Nat.not_lt, Nat.not_lt] at h
      split
      · next insts c' hrun =>
          constructor
          · intro heq
            cases heq
            exact ⟨h, rfl, rfl, c', hrun⟩
          · rintro ⟨-, rfl, rfl, _, heq⟩
            obtain ⟨rfl, -⟩ := EStateM.Result.ok.inj (hrun.symm.trans heq)
            rfl
      · next e c' hrun =>
          constructor
          · intro heq
            cases heq
          · rintro ⟨-, -, -, _, heq⟩
            cases hrun.symm.trans heq

/-- What the declared length covers behind the version and the length, and what it does not. -/
theorem drop_declaredTokens_append (p : TokenProgram)
    (h : 2 ≤ p.declaredLength ∧ p.declaredLength ≤ p.tokens.length) :
    p.declaredTokens.drop 2 ++ p.tokens.drop p.declaredLength = p.tokens.drop 2 := by
  have hlength : p.declaredTokens.length = p.declaredLength := by
    rw [declaredTokens, List.length_take, Nat.min_eq_left h.2]
  rw [← List.drop_append_of_le_length (hlength ▸ h.1), declaredTokens, List.take_append_drop]

/-! ## Places of instructions -/

/-- Where instruction number `i` starts and its first token, if the instructions before it can be
    read and a token follows them. -/
def instructionHead? (p : TokenProgram) (i : Nat) : Option (Nat × UInt32) :=
  match (Instruction.decodeUpTo i).run (.ofTokens p.declaredTokens 2) with
  | .ok _ c => c.peek?.map fun head => (c.position, head)
  | .error _ _ => none

/-- In a program made of forms an instruction starts behind the forms before it. -/
theorem instructionHead?_eq {p : TokenProgram} {insts : List Instruction} {tss : List (List UInt32)}
    (hforms : Instruction.HaveForms insts tss) (hlen : 2 ≤ p.declaredTokens.length)
    (htokens : p.declaredTokens.drop 2 = tss.flatten) {i : Nat} (hi : i < insts.length) :
    ∃ head, p.instructionHead? i = some (2 + (tss.take i).flatten.length, head)
      ∧ ∃ length, (tss.map (·.length))[i]? = some length ∧ insts[i].IsHead head length := by
  have hi' : i < tss.length := hforms.length_eq ▸ hi
  have hcursor : TokenCursor.ofTokens p.declaredTokens 2 = ⟨2, tss.flatten⟩ := by
    rw [TokenCursor.ofTokens, htokens, Nat.min_eq_left hlen]
  obtain ⟨head, body, hts, hhead, -⟩ := List.Forall₂.get hforms hi hi'
  have hrest : (tss.drop i).flatten = head :: (body ++ (tss.drop (i + 1)).flatten) := by
    rw [List.drop_eq_getElem_cons hi', List.flatten_cons]
    exact congrArg (· ++ (tss.drop (i + 1)).flatten) hts
  refine ⟨head, ?_, _, ?_, hhead⟩
  · rw [instructionHead?, hcursor, hforms.decodeUpTo_take (Nat.le_of_lt hi), hrest]
    rfl
  · rw [List.getElem?_map, List.getElem?_eq_getElem hi']
    rfl

/-- The place of an instruction is its place among all tokens. -/
theorem getElem?_of_instructionHead? {p : TokenProgram} {i start : Nat} {head : UInt32}
    (h : p.instructionHead? i = some (start, head)) : p.tokens[start]? = some head := by
  -- What the declared length covers is a prefix of the tokens, so the place is the same in both.
  suffices hdeclared : p.declaredTokens[start]? = some head by
    rw [declaredTokens, List.getElem?_take] at hdeclared
    exact (Option.ite_none_right_eq_some.1 hdeclared).2
  unfold instructionHead? at h
  split at h
  · next c hrun =>
      obtain ⟨tss, -, hadv, -⟩ := Instruction.decodeUpTo_eq_ok_iff.1 hrun
      obtain ⟨token, hpeek, heq⟩ := Option.map_eq_some_iff.1 h
      obtain ⟨rfl, rfl⟩ := Prod.mk.inj heq
      have hrest : p.declaredTokens.drop 2 = tss.flatten ++ c.rest := hadv.rest
      have hposition : c.position = min 2 p.declaredTokens.length + tss.flatten.length :=
        hadv.position
      obtain ⟨rest, hrest'⟩ := List.head?_eq_some_iff.1 hpeek
      have hlen := congrArg List.length hrest
      rw [hrest', List.length_append, List.length_drop, List.length_cons] at hlen
      rw [hposition, Nat.min_eq_left (by omega), ← List.getElem?_drop, hrest, hrest',
        List.getElem?_append_right (Nat.le_refl _), Nat.sub_self]
      rfl
  · cases h

end TokenProgram

namespace Program

theorem encode_eq_ok_iff {p : Program} {tokens : List UInt32} : p.encode = .ok tokens ↔
    ∃ version tss, ShaderVersion.encode ⟨p.stage, p.model⟩ = .ok version
      ∧ p.instructions.mapM (·.encode) = .ok tss
      ∧ tokens = version :: UInt32.ofNat (2 + tss.flatten.length) :: tss.flatten := by
  unfold encode
  simp only [bind_eq_ok_iff]
  constructor
  · rintro ⟨version, hversion, tss, htss, h⟩
    exact ⟨version, tss, hversion, htss, (Except.ok.inj h).symm⟩
  · rintro ⟨version, tss, hversion, htss, rfl⟩
    exact ⟨version, hversion, tss, htss, rfl⟩

/-- The tokens of a program that was written are one form for each instruction in a frame that
    declares all of them. -/
theorem decode_ofTokens_of_encode {p : Program} {tokens : List UInt32} (h : p.encode = .ok tokens)
    (hlen : tokens.length < 2 ^ 32) :
    TokenProgram.ofBytes (LittleEndian.ofWords tokens) = .ok (.ofTokens tokens)
      ∧ (TokenProgram.ofTokens tokens).declaredTokens = tokens
      ∧ (TokenProgram.ofTokens tokens).decode = .ok ⟨(TokenProgram.ofTokens tokens).stage,
        (TokenProgram.ofTokens tokens).model, p.instructions.map (·.truncateFlags)⟩ := by
  obtain ⟨version, tss, -, htss, rfl⟩ := encode_eq_ok_iff.1 h
  have htotal : (version :: UInt32.ofNat (2 + tss.flatten.length) :: tss.flatten).length
      = 2 + tss.flatten.length := by
    rw [List.length_cons, List.length_cons]
    omega
  rw [htotal] at hlen
  generalize hq : TokenProgram.ofTokens (version :: UInt32.ofNat (2 + tss.flatten.length)
    :: tss.flatten) = q
  have hdeclared : q.declaredLength = 2 + tss.flatten.length := by
    rw [← hq]
    exact UInt32.toNat_ofNat_of_lt' hlen
  have hall : q.declaredLength = q.tokens.length := by rw [hdeclared, ← htotal, ← hq]; rfl
  have htokens : q.declaredTokens = q.tokens := by
    rw [TokenProgram.declaredTokens, hall, List.take_length]
  have hframe : 2 ≤ q.declaredLength ∧ q.declaredLength ≤ q.tokens.length :=
    ⟨by omega, Nat.le_of_eq hall⟩
  refine ⟨TokenProgram.ofBytes_eq_ok_iff.2 ⟨?_, ?_, hframe⟩, by rw [htokens, ← hq]; rfl,
    TokenProgram.decode_eq_ok_iff.2 ⟨hframe, rfl, rfl, tss,
      Instruction.haveForms_of_encode htss, by rw [htokens, ← hq]; rfl⟩⟩
  · rw [LittleEndian.length_ofWords]
    omega
  · rw [LittleEndian.toWords_ofWords, hq]

/-- The frame tells the stage and the model, unless the stage hides a named one. -/
theorem ofTokens_of_encode {p : Program} {tokens : List UInt32}
    (hstage : ∀ n, p.stage = .unknown n → 5 < n) (h : p.encode = .ok tokens)
    (hlen : tokens.length < 2 ^ 32) :
    TokenProgram.ofBytes (LittleEndian.ofWords tokens) = .ok (.ofTokens tokens)
      ∧ (TokenProgram.ofTokens tokens).declaredTokens = tokens
      ∧ (TokenProgram.ofTokens tokens).stage = p.stage
      ∧ (TokenProgram.ofTokens tokens).model = p.model
      ∧ (TokenProgram.ofTokens tokens).decode
        = .ok ⟨p.stage, p.model, p.instructions.map (·.truncateFlags)⟩ := by
  obtain ⟨hbytes, hdeclared, hdecode⟩ := decode_ofTokens_of_encode h hlen
  obtain ⟨version, tss, hversion, -, rfl⟩ := encode_eq_ok_iff.1 h
  have hback := ShaderVersion.decode_of_encode hstage hversion
  have hstage : (TokenProgram.ofTokens (version :: UInt32.ofNat (2 + tss.flatten.length)
      :: tss.flatten)).stage = p.stage := congrArg ShaderVersion.stage hback
  have hmodel : (TokenProgram.ofTokens (version :: UInt32.ofNat (2 + tss.flatten.length)
      :: tss.flatten)).model = p.model := congrArg ShaderVersion.model hback
  rw [hstage, hmodel] at hdecode
  exact ⟨hbytes, hdeclared, hstage, hmodel, hdecode⟩

/-! ## Round trips -/

/-- **What was written is read back.** Whenever a program can be written, its bytes are a program
    with exactly these tokens, and reading them gives the stage, the model and the instructions in
    their order; only the bits of global flags that no flag is defined for are lost. A stage must
    not hide a named one behind its number, and the tokens must be few enough for the length to be
    written down. -/
theorem decode_ofBytes_encode {p : Program} {tokens : List UInt32}
    (hstage : ∀ n, p.stage = .unknown n → 5 < n) (h : p.encode = .ok tokens)
    (hlen : tokens.length < 2 ^ 32) :
    ∃ q, TokenProgram.ofBytes (LittleEndian.ofWords tokens) = .ok q ∧ q.tokens = tokens
      ∧ q.stage = p.stage ∧ q.model = p.model
      ∧ q.decode = .ok ⟨p.stage, p.model, p.instructions.map (·.truncateFlags)⟩ := by
  obtain ⟨hbytes, -, hstage, hmodel, hdecode⟩ := ofTokens_of_encode hstage h hlen
  exact ⟨_, hbytes, rfl, hstage, hmodel, hdecode⟩

/-- A program with undefined global flags, a wide index and values of both widths. -/
theorem decode_ofBytes_encode_wide :
    let dst := Operand.register .temp 0 (.mask 5)
    let src : Operand :=
      ⟨.indexableTemp, .swizzle ⟨3, 2, 1, 0⟩, [.imm32 2, .imm64 0x100000003], none⟩
    let half : Operand := ⟨.immediate64, .scalar, [], some (.doubleWords [0x3FE0000000000000])⟩
    let p : Program := ⟨.unknown 7, ⟨5, 1⟩, [.dclGlobalFlags ⟨0xFFFFFFFF⟩, .mov dst src,
      .add dst (.scalarValue 0x3F800000) half, .ret]⟩
    ∃ tokens q, p.encode = .ok tokens ∧ tokens.length = 19
      ∧ TokenProgram.ofBytes (LittleEndian.ofWords tokens) = .ok q
      ∧ q.decode = .ok ⟨.unknown 7, ⟨5, 1⟩, [.dclGlobalFlags ⟨0x1800⟩, .mov dst src,
        .add dst (.scalarValue 0x3F800000) half, .ret]⟩ := by
  intro dst src half p
  have hencode : p.encode = .ok [0x70051, 19, 0x100186A, 0x7000036, 0x100052, 0, 0x22031B6, 2, 3,
      1, 0x8000000, 0x100052, 0, 0x4001, 0x3F800000, 0x5001, 0, 0x3FE00000, 0x100003E] := by
    decide +revert +kernel
  have hstage : ∀ n, p.stage = .unknown n → 5 < n := by
    intro n hn
    obtain rfl := ShaderStage.unknown.inj hn
    decide
  obtain ⟨q, hbytes, -, -, -, hdecode⟩ := decode_ofBytes_encode hstage hencode (by decide)
  exact ⟨_, q, hencode, rfl, hbytes, hdecode⟩

end Program

namespace TokenProgram

/-- **What was read can be written again, in place.** The encoder accepts every program that the
    decoder returns. It writes exactly the declared number of tokens, every instruction starts where
    it started, with the same opcode and the same length, and reading the new tokens gives the same
    program again. -/
theorem encode_decode_in_place {bytes : List UInt8} {p : TokenProgram} {m : Program}
    (hp : ofBytes bytes = .ok p) (hm : p.decode = .ok m) :
    ∃ tokens q, m.encode = .ok tokens ∧ tokens.length = p.declaredLength
      ∧ tokens[1]? = p.tokens[1]?
      ∧ ofBytes (LittleEndian.ofWords tokens) = .ok q ∧ q.tokens = tokens ∧ q.decode = .ok m
      ∧ ∀ i < m.instructions.length, ∃ start old new,
        p.instructionHead? i = some (start, old) ∧ q.instructionHead? i = some (start, new)
          ∧ p.tokens[start]? = some old ∧ tokens[start]? = some new
          ∧ OpcodeToken.opcode.get new = OpcodeToken.opcode.get old
          ∧ OpcodeToken.length.get new = OpcodeToken.length.get old := by
  obtain ⟨-, hpTokens, -⟩ := ofBytes_eq_ok_iff.1 hp
  obtain ⟨⟨htwo, hle⟩, hstage, hmodel, tss, hforms, htokens⟩ := decode_eq_ok_iff.1 hm
  obtain ⟨htruncate, uss, huss, hlens⟩ := hforms.encode_eq_ok
  obtain ⟨version, hversion⟩ := ShaderVersion.encode_decode_eq_ok (p.tokens.head?.getD 0)
  have hread : ShaderVersion.decode (p.tokens.head?.getD 0) = ⟨m.stage, m.model⟩ := by
    rw [hstage, hmodel, hpTokens]
    rfl
  -- The new forms are as long as the old ones, so the declared length is theirs too.
  have hflatten : uss.flatten.length = tss.flatten.length := by
    rw [List.length_flatten, List.length_flatten, hlens]
  have hdeclared : p.declaredTokens.length = p.declaredLength := by
    rw [declaredTokens, List.length_take, Nat.min_eq_left hle]
  have htotal : 2 + uss.flatten.length = p.declaredLength := by
    rw [hflatten, ← htokens, List.length_drop]
    omega
  have hencode : m.encode = .ok (version :: UInt32.ofNat (2 + uss.flatten.length)
      :: uss.flatten) :=
    Program.encode_eq_ok_iff.2 ⟨version, uss, hread ▸ hversion, huss, rfl⟩
  -- A stage that was read hides no named one, so the first half applies to the new tokens.
  have hknown : ∀ n, m.stage = .unknown n → 5 < n := fun n hn =>
    ShaderStage.lt_of_ofProgramType_eq_unknown ((congrArg ShaderVersion.stage hread).trans hn)
  have hlength : (version :: UInt32.ofNat (2 + uss.flatten.length) :: uss.flatten).length
      = p.declaredLength := by
    rw [List.length_cons, List.length_cons]
    omega
  have hsmall : p.declaredLength < 2 ^ 32 := UInt32.toNat_lt _
  obtain ⟨hbytes, hdeclaredTokens, -, -, hdecode⟩ :=
    Program.ofTokens_of_encode hknown hencode (hlength ▸ hsmall)
  rw [htruncate] at hdecode
  refine ⟨_, _, hencode, hlength, ?_, hbytes, rfl, hdecode, ?_⟩
  · have hsecond : 1 < p.tokens.length := by omega
    have hword : p.declaredLength = p.tokens[1].toNat := by
      rw [declaredLength, List.getElem?_eq_getElem hsecond, Option.getD_some]
    rw [htotal, hword, UInt32.ofNat_toNat, List.getElem?_eq_getElem hsecond]
    rfl
  · intro i hi
    have hforms' := htruncate ▸ Instruction.haveForms_of_encode huss
    obtain ⟨old, hold, length, hlen, hhead⟩ :=
      instructionHead?_eq hforms (by omega) htokens hi
    obtain ⟨new, hnew, length', hlen', hhead'⟩ :=
      instructionHead?_eq hforms' (by rw [hdeclaredTokens]; omega) (by rw [hdeclaredTokens]; rfl) hi
    have hstart : (uss.take i).flatten.length = (tss.take i).flatten.length := by
      rw [List.length_flatten, List.length_flatten, List.map_take, List.map_take, hlens]
    obtain rfl : length = length' := by
      rw [hlens, hlen] at hlen'
      exact Option.some.inj hlen'
    have hnew : instructionHead? _ i = some (2 + (tss.take i).flatten.length, new) := hstart ▸ hnew
    refine ⟨_, old, new, hold, hnew, getElem?_of_instructionHead? hold,
      getElem?_of_instructionHead? hnew, ?_, ?_⟩
    · rw [hhead'.opcode, hhead.opcode]
    · exact UInt32.toNat_inj.1 (hhead'.length.trans hhead.length.symm)

/-- A declaration that names its slot with a component, stray bits in the return, and a token behind
    the declared length: the encoder writes other tokens, in place. -/
theorem encode_decode_in_place_stray :
    let p := ofTokens [0x40, 6, 0x300085A, 0x106001, 0, 0x100803E, 0xFFFFFFFF]
    let m : Program := ⟨.pixel, ⟨4, 0⟩, [.dclSampler 0 .comparison, .ret]⟩
    ofBytes (LittleEndian.ofWords p.tokens) = .ok p ∧ p.decode = .ok m
      ∧ ∃ tokens q, m.encode = .ok tokens ∧ tokens.length = 6
        ∧ ofBytes (LittleEndian.ofWords tokens) = .ok q ∧ q.decode = .ok m
        ∧ ∃ old new, p.instructionHead? 1 = some (5, old) ∧ q.instructionHead? 1 = some (5, new)
          ∧ OpcodeToken.length.get new = OpcodeToken.length.get old := by
  intro p m
  have hp : ofBytes (LittleEndian.ofWords p.tokens) = .ok p := by decide +revert +kernel
  have hm : p.decode = .ok m := by rfl
  obtain ⟨tokens, q, hencode, hlen, -, hbytes, -, hdecode, hplaces⟩ := encode_decode_in_place hp hm
  obtain ⟨start, old, new, hold, hnew, -, -, -, hlength⟩ := hplaces 1 (by decide)
  have hstart : p.instructionHead? 1 = some (5, 0x100803E) := by rfl
  obtain ⟨rfl, rfl⟩ := Prod.mk.inj (Option.some.inj (hold.symm.trans hstart))
  exact ⟨hp, hm, tokens, q, hencode, hlen, hbytes, hdecode, _, new, hold, hnew, hlength⟩

end TokenProgram

end ShaderBytecode
