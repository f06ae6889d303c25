import ShaderBytecode.Instruction.Decoder
import ShaderBytecode.Instruction.Encoder
import ShaderBytecode.Proofs.Operand.Form

set_option autoImplicit false

/-! # The token forms of instructions

The first token of an instruction tells its opcode and length and, for some declarations and for
sampling, a few fields more (`Instruction.IsHead`). The tokens behind it depend on the shape of
the instruction only (`Instruction.HasBody`). A form is a first token and a body whose length
together is the one told (`Instruction.HasForm`).

A form leaves some bits open: those of no field, and the components of an operand that only names a
slot. The decoder reads the forms and nothing else (`Instruction.reads_decode`). -/

namespace ShaderBytecode

open BitRange

namespace Operand

/-! ## Operands in special places -/

theorem reads_decodeDestination :
    decodeDestination.Reads fun op ts => op.isImmediate = false ∧ op.HasForm ts := by
  refine .position_bind fun start => (reads_decode.bind fun op => .guard (.pure op)).congr
    fun op ts => ?_
  constructor
  · rintro ⟨op, us, _, hform, ⟨hdst, rfl, rfl⟩, rfl⟩
    exact ⟨by simpa using hdst, by simpa using hform⟩
  · rintro ⟨hdst, hform⟩
    exact ⟨op, ts, [], hform, ⟨by simp [hdst], rfl, rfl⟩, by simp⟩

theorem reads_decodeOfKind (expected : OperandKind) :
    (decodeOfKind expected).Reads fun op ts => op.kind = expected ∧ op.HasForm ts := by
  refine .position_bind fun start => (reads_decode.bind fun op => .guard (.pure op)).congr
    fun op ts => ?_
  constructor
  · rintro ⟨op, us, _, hform, ⟨hkind, rfl, rfl⟩, rfl⟩
    exact ⟨by simpa using hkind, by simpa using hform⟩
  · rintro ⟨hkind, hform⟩
    exact ⟨op, ts, [], hform, ⟨by simp [hkind], rfl, rfl⟩, by simp⟩

/-- The token sequences that stand for an operand of the given kind and indices. What components it
    has is left open. -/
def Names (kind : OperandKind) (indices : List RegisterIndex) (ts : List UInt32) : Prop :=
  ∃ op : Operand, op.kind = kind ∧ op.indices = indices ∧ op.HasForm ts

theorem reads_decodeSlot (expected : OperandKind) :
    (decodeSlot expected).Reads fun slot ts => Names expected [.imm32 slot] ts := by
  refine .position_bind fun start => (Decoder.Reads.bind (H := fun op slot ts =>
    op.indices = [.imm32 slot] ∧ ts = []) (reads_decodeOfKind expected) fun op => ?_).congr
    fun slot ts => ?_
  · split
    · next value hindices =>
        refine (Decoder.Reads.pure value).congr fun slot ts => ?_
        simp [hindices, eq_comm]
    · next value hindices =>
        refine (Decoder.Reads.failAt _ _).congr fun slot ts => ?_
        simp [hindices]
    · next hnarrow hwide =>
        refine (Decoder.Reads.failAt _ _).congr fun slot ts => ⟨False.elim, ?_⟩
        rintro ⟨hindices, -⟩
        exact hnarrow slot hindices
  · constructor
    · rintro ⟨op, us, _, ⟨hkind, hform⟩, ⟨hindices, rfl⟩, rfl⟩
      exact ⟨op, hkind, hindices, by simpa using hform⟩
    · rintro ⟨op, hkind, hindices, hform⟩
      exact ⟨op, ts, [], ⟨hkind, hform⟩, ⟨hindices, rfl⟩, by simp⟩

theorem reads_decodeSlotAndSize (expected : OperandKind) :
    (decodeSlotAndSize expected).Reads fun slotAndSize ts =>
      Names expected [.imm32 slotAndSize.1, .imm32 slotAndSize.2] ts := by
  refine .position_bind fun start => (Decoder.Reads.bind (H := fun op (pair : UInt32 × UInt32) ts =>
    op.indices = [.imm32 pair.1, .imm32 pair.2] ∧ ts = []) (reads_decodeOfKind expected)
    fun op => ?_).congr fun pair ts => ?_
  · split
    · next slot size hindices =>
        refine (Decoder.Reads.pure (slot, size)).congr fun pair ts => ?_
        simp [hindices, Prod.ext_iff, eq_comm]
    · next first second hnarrow hindices =>
        refine (Decoder.Reads.failAt _ _).congr fun pair ts => ⟨False.elim, ?_⟩
        rintro ⟨h, -⟩
        obtain ⟨rfl, hsecond⟩ := List.cons.inj (hindices ▸ h)
        exact hnarrow _ _ rfl (List.cons.inj hsecond).1
    · next hnarrow htwo =>
        refine (Decoder.Reads.failAt _ _).congr fun pair ts => ⟨False.elim, ?_⟩
        rintro ⟨h, -⟩
        exact htwo _ _ h
  · constructor
    · rintro ⟨op, us, _, ⟨hkind, hform⟩, ⟨hindices, rfl⟩, rfl⟩
      exact ⟨op, hkind, hindices, by simpa using hform⟩
    · rintro ⟨op, hkind, hindices, hform⟩
      exact ⟨op, ts, [], ⟨hkind, hform⟩, ⟨hindices, rfl⟩, by simp⟩

end Operand

namespace Instruction

/-! ## Fields with few values -/

theorem reads_decodeMember {α : Type} [Coded α] (field : EnumeratedField) (position : Nat)
    (value : UInt32) : (decodeMember field position value : Decoder α).Reads fun member ts =>
      value = Coded.code member ∧ ts = [] := by
  unfold decodeMember
  split
  · next found h =>
      refine (Decoder.Reads.pure found).congr fun member ts => ?_
      rw [eq_comm (a := value), ← Coded.ofCode?_eq_some_iff, h]
      simp [eq_comm]
  · next h =>
      refine (Decoder.Reads.failAt _ _).congr fun member ts => ?_
      rw [eq_comm (a := value), ← Coded.ofCode?_eq_some_iff, h]
      simp

theorem reads_decodeReturnTypes (fields : Lanes BitRange) (position : Nat) (token : UInt32) :
    (decodeReturnTypes fields position token).Reads fun types ts =>
      Shows token (fields.zip (types.map Coded.code)).toList ∧ ts = [] := by
  have hread := fun r : BitRange =>
    reads_decodeMember (α := ReturnType) .returnType position (r.get token)
  refine ((hread fields.x).bind fun x => (hread fields.y).bind fun y =>
    (hread fields.z).bind fun z => (hread fields.w).bind_pure (Lanes.mk x y z ·)).congr
      fun types ts => ?_
  simp only [Lanes.zip, Lanes.map, Lanes.toList, shows_cons, shows_nil, and_true]
  constructor
  · rintro ⟨x, _, _, ⟨hx, rfl⟩, ⟨y, _, _, ⟨hy, rfl⟩, ⟨z, _, _, ⟨hz, rfl⟩, ⟨w, ⟨hw, rfl⟩, rfl⟩, rfl⟩,
      rfl⟩, rfl⟩
    exact ⟨⟨hx, hy, hz, hw⟩, rfl⟩
  · rintro ⟨⟨hx, hy, hz, hw⟩, rfl⟩
    exact ⟨types.x, [], [], ⟨hx, rfl⟩, ⟨types.y, [], [], ⟨hy, rfl⟩, ⟨types.z, [], [], ⟨hz, rfl⟩,
      ⟨types.w, ⟨hw, rfl⟩, rfl⟩, rfl⟩, rfl⟩, rfl⟩

/-! ## Extension tokens -/

/-- The first extension token of a sampling instruction, which announces a second. -/
def IsDimensionExtension (dimension : ResourceDimension) (token : UInt32) : Prop :=
  Shows token [(ExtensionToken.kind, ExtensionToken.resourceDimensionKind),
    (ExtensionToken.resourceDimension, Coded.code dimension)]
    ∧ ExtensionToken.continues.get token ≠ 0

/-- The second extension token of a sampling instruction, which is the last. -/
def IsReturnTypesExtension (types : Lanes ReturnType) (token : UInt32) : Prop :=
  Shows token ((ExtensionToken.kind, ExtensionToken.returnTypesKind)
      :: (ExtensionToken.returnTypes.zip (types.map Coded.code)).toList)
    ∧ ExtensionToken.continues.get token = 0

theorem reads_decodeDimensionExtension : decodeDimensionExtension.Reads fun dimension ts =>
    ∃ token, IsDimensionExtension dimension token ∧ ts = [token] := by
  refine .position_bind fun position => (Decoder.reads_token.bind fun token =>
    .guard (.guard (reads_decodeMember _ _ _))).congr fun dimension ts => ?_
  simp only [IsDimensionExtension, shows_cons, shows_nil, and_true]
  constructor
  · rintro ⟨token, _, _, rfl, ⟨hkind, hmore, hcode, rfl⟩, rfl⟩
    exact ⟨token, ⟨⟨Decidable.not_not.1 hkind, hcode⟩, hmore⟩, rfl⟩
  · rintro ⟨token, ⟨⟨hkind, hcode⟩, hmore⟩, rfl⟩
    exact ⟨token, _, [], rfl, ⟨Decidable.not_not.2 hkind, hmore, hcode, rfl⟩, rfl⟩

theorem reads_decodeReturnTypesExtension : decodeReturnTypesExtension.Reads fun types ts =>
    ∃ token, IsReturnTypesExtension types token ∧ ts = [token] := by
  refine .position_bind fun position => (Decoder.reads_token.bind fun token =>
    .guard (.guard (reads_decodeReturnTypes _ _ _))).congr fun types ts => ?_
  simp only [IsReturnTypesExtension, shows_cons]
  constructor
  · rintro ⟨token, _, _, rfl, ⟨hkind, hlast, hshows, rfl⟩, rfl⟩
    exact ⟨token, ⟨⟨Decidable.not_not.1 hkind, hshows⟩, Decidable.not_not.1 hlast⟩, rfl⟩
  · rintro ⟨token, ⟨⟨hkind, hshows⟩, hlast⟩, rfl⟩
    exact ⟨token, _, [], rfl,
      ⟨Decidable.not_not.2 hkind, Decidable.not_not.2 hlast, hshows, rfl⟩, rfl⟩

/-! ## Bodies -/

/-- The token sequences that can stand behind the first token of an instruction. -/
def HasBody : Instruction → List UInt32 → Prop
  | .dclGlobalFlags _, ts | .ret, ts => ts = []
  | .dclInput operand, ts | .dclOutput operand, ts => operand.HasForm ts
  | .dclOutputSiv operand name, ts =>
      ∃ us token, operand.HasForm us ∧ DeclarationToken.systemValue.get token = Coded.code name
        ∧ ts = us ++ [token]
  | .dclTemps count, ts => ts = [count]
  | .dclConstantBuffer slot size _, ts =>
      Operand.Names .constantBuffer [.imm32 slot, .imm32 size] ts
  | .dclSampler slot _, ts => Operand.Names .sampler [.imm32 slot] ts
  | .dclResource slot _ sampleCount returnTypes, ts =>
      sampleCount ≤ 1 ∧ ∃ us token, Operand.Names .resource [.imm32 slot] us
        ∧ Shows token (DeclarationToken.returnTypes.zip (returnTypes.map Coded.code)).toList
        ∧ ts = us ++ [token]
  | .mov dst src, ts =>
      ∃ us vs, dst.isImmediate = false ∧ dst.HasForm us ∧ src.HasForm vs ∧ ts = us ++ vs
  | .add dst a b, ts | .mul dst a b, ts =>
      ∃ us vs ws, dst.isImmediate = false ∧ dst.HasForm us ∧ a.HasForm vs ∧ b.HasForm ws
        ∧ ts = us ++ (vs ++ ws)
  | .mad dst a b c, ts =>
      ∃ us vs ws xs, dst.isImmediate = false ∧ dst.HasForm us ∧ a.HasForm vs ∧ b.HasForm ws
        ∧ c.HasForm xs ∧ ts = us ++ (vs ++ (ws ++ xs))
  | .sampleL dimension returnTypes dst coord texture sampler lod, ts =>
      dst.isImmediate = false ∧ texture.kind = .resource ∧ sampler.kind = .sampler
        ∧ ∃ first second us vs ws xs ys, IsDimensionExtension dimension first
        ∧ IsReturnTypesExtension returnTypes second ∧ dst.HasForm us ∧ coord.HasForm vs
        ∧ texture.HasForm ws ∧ sampler.HasForm xs ∧ lod.HasForm ys
        ∧ ts = first :: second :: (us ++ (vs ++ (ws ++ (xs ++ ys))))

/-- What the first token tells beside opcode and length goes with the instruction. -/
def GoesWith : Instruction → UInt32 → Prop
  | .dclGlobalFlags flags, token => flags = GlobalFlags.truncate ⟨token⟩
  | inst, token => Shows token inst.headFields

/-- A field of one bit holds 0 or 1. -/
theorem get_bit_ne_zero_iff {n : Nat} {h : n ≤ 31} {token : UInt32} :
    (BitRange.bit n h).get token ≠ 0 ↔ (BitRange.bit n h).get token = 1 := by
  have hwidth : (BitRange.bit n h).width = 1 := by simp [BitRange.width, BitRange.bit]
  have hlt := (fits_iff_toNat_lt _ _).1 (fits_get (BitRange.bit n h) token)
  rw [hwidth] at hlt
  rw [ne_eq, ← UInt32.toNat_inj, ← UInt32.toNat_inj]
  have hzero : (0 : UInt32).toNat = 0 := rfl
  have hone : (1 : UInt32).toNat = 1 := rfl
  omega

/-- What the decoder reads behind a first token with the given opcode: a body of an instruction with
    that opcode that the first token goes with. -/
def FollowsHead (token : UInt32) (opcode : Opcode) (inst : Instruction) (ts : List UInt32) : Prop :=
  inst.opcode = opcode ∧ inst.GoesWith token ∧ inst.HasBody ts

section Bodies

variable (start : Nat) (token : UInt32)

theorem reads_dclGlobalFlags :
    (decodeBody start token .dclGlobalFlags).Reads (FollowsHead token .dclGlobalFlags) := by
  refine (Decoder.Reads.pure _).congr fun inst ts => ?_
  constructor
  · rintro ⟨rfl, rfl⟩
    exact ⟨rfl, rfl, rfl⟩
  · rintro ⟨hop, hhead, hbody⟩
    cases inst <;> cases hop
    exact ⟨congrArg dclGlobalFlags hhead, hbody⟩

/-- An instruction of one operand whose first token tells nothing of its own. -/
theorem reads_oneOperand {make : Operand → Instruction} {opcode : Opcode}
    (hopcode : ∀ inst : Instruction, inst.opcode = opcode ↔ ∃ op, inst = make op)
    (hhead : ∀ op, (make op).GoesWith token)
    (hbody : ∀ op ts, (make op).HasBody ts ↔ op.HasForm ts) :
    (Operand.decode >>= fun op => pure (make op)).Reads (FollowsHead token opcode) := by
  refine (Operand.reads_decode.bind_pure make).congr fun inst ts => ?_
  constructor
  · rintro ⟨op, hform, rfl⟩
    exact ⟨(hopcode _).2 ⟨op, rfl⟩, hhead op, (hbody op ts).2 hform⟩
  · rintro ⟨hop, -, hts⟩
    obtain ⟨op, rfl⟩ := (hopcode inst).1 hop
    exact ⟨op, (hbody op ts).1 hts, rfl⟩

/-- An instruction with a destination and two sources whose first token tells nothing of its own. -/
theorem reads_twoSources {make : Operand → Operand → Operand → Instruction} {opcode : Opcode}
    (hopcode : ∀ inst : Instruction, inst.opcode = opcode ↔ ∃ dst a b, inst = make dst a b)
    (hhead : ∀ dst a b, (make dst a b).GoesWith token)
    (hbody : ∀ dst a b ts, (make dst a b).HasBody ts ↔ ∃ us vs ws, dst.isImmediate = false
      ∧ dst.HasForm us ∧ a.HasForm vs ∧ b.HasForm ws ∧ ts = us ++ (vs ++ ws)) :
    (Operand.decodeDestination >>= fun dst => Operand.decode >>= fun a => Operand.decode >>=
      fun b => pure (make dst a b)).Reads (FollowsHead token opcode) := by
  refine (Operand.reads_decodeDestination.bind fun dst => Operand.reads_decode.bind fun a =>
    Operand.reads_decode.bind_pure (make dst a)).congr fun inst ts => ?_
  constructor
  · rintro ⟨dst, us, _, ⟨hdst, hus⟩, ⟨a, vs, ws, hvs, ⟨b, hws, rfl⟩, rfl⟩, rfl⟩
    exact ⟨(hopcode _).2 ⟨dst, a, b, rfl⟩, hhead dst a b,
      (hbody dst a b _).2 ⟨us, vs, ws, hdst, hus, hvs, hws, rfl⟩⟩
  · rintro ⟨hop, -, hts⟩
    obtain ⟨dst, a, b, rfl⟩ := (hopcode inst).1 hop
    obtain ⟨us, vs, ws, hdst, hus, hvs, hws, rfl⟩ := (hbody dst a b ts).1 hts
    exact ⟨dst, us, _, ⟨hdst, hus⟩, ⟨a, vs, ws, hvs, ⟨b, hws, rfl⟩, rfl⟩, rfl⟩

theorem reads_dclInput :
    (decodeBody start token .dclInput).Reads (FollowsHead token .dclInput) := by
  have hopcode (inst : Instruction) : inst.opcode = .dclInput ↔ ∃ op, inst = .dclInput op := by
    cases inst <;> simp [Instruction.opcode]
  exact reads_oneOperand token hopcode (fun _ => shows_nil token) fun _ _ => Iff.rfl

theorem reads_dclOutput :
    (decodeBody start token .dclOutput).Reads (FollowsHead token .dclOutput) := by
  have hopcode (inst : Instruction) : inst.opcode = .dclOutput ↔ ∃ op, inst = .dclOutput op := by
    cases inst <;> simp [Instruction.opcode]
  exact reads_oneOperand token hopcode (fun _ => shows_nil token) fun _ _ => Iff.rfl

theorem reads_dclOutputSiv :
    (decodeBody start token .dclOutputSiv).Reads (FollowsHead token .dclOutputSiv) := by
  refine (Operand.reads_decode.bind fun op => .position_bind fun p =>
    Decoder.reads_token.bind fun token => (reads_decodeMember .systemValue p
      (DeclarationToken.systemValue.get token)).bind_pure (dclOutputSiv op)).congr fun inst ts => ?_
  constructor
  · rintro ⟨op, us, _, hform, ⟨last, _, _, rfl, ⟨name, ⟨hname, rfl⟩, rfl⟩, rfl⟩, rfl⟩
    exact ⟨rfl, shows_nil token, us, last, hform, hname, rfl⟩
  · rintro ⟨hop, -, hbody⟩
    cases inst <;> cases hop
    obtain ⟨us, last, hform, hname, rfl⟩ := hbody
    exact ⟨_, us, [last], hform, ⟨last, _, [], rfl, ⟨_, ⟨hname, rfl⟩, rfl⟩, rfl⟩, rfl⟩

theorem reads_dclTemps :
    (decodeBody start token .dclTemps).Reads (FollowsHead token .dclTemps) := by
  refine (Decoder.reads_token.bind_pure dclTemps).congr fun inst ts => ?_
  constructor
  · rintro ⟨count, rfl, rfl⟩
    exact ⟨rfl, shows_nil token, rfl⟩
  · rintro ⟨hop, -, hbody⟩
    cases inst <;> cases hop
    exact ⟨_, hbody, rfl⟩

theorem reads_dclConstantBuffer :
    (decodeBody start token .dclConstantBuffer).Reads (FollowsHead token .dclConstantBuffer) := by
  let access := if OpcodeToken.dynamicAccess.get token ≠ 0 then ConstantAccess.dynamicIndexed
    else ConstantAccess.immediateIndexed
  have haccess : ∀ slot size a, GoesWith (.dclConstantBuffer slot size a) token ↔ a = access := by
    intro slot size a
    by_cases h : OpcodeToken.dynamicAccess.get token = 0
    · cases a <;> simp [GoesWith, headFields, access, h]
    · have hone := get_bit_ne_zero_iff.1 h
      rw [← OpcodeToken.dynamicAccess] at hone
      cases a <;> simp [GoesWith, headFields, access, hone]
  refine ((Operand.reads_decodeSlotAndSize .constantBuffer).bind_pure fun pair =>
    dclConstantBuffer pair.1 pair.2 access).congr fun inst ts => ?_
  constructor
  · rintro ⟨⟨slot, size⟩, hnames, rfl⟩
    exact ⟨rfl, (haccess slot size access).2 rfl, hnames⟩
  · rintro ⟨hop, hhead, hbody⟩
    cases inst <;> cases hop
    exact ⟨(_, _), hbody, by rw [(haccess _ _ _).1 hhead]⟩

theorem reads_dclSampler :
    (decodeBody start token .dclSampler).Reads (FollowsHead token .dclSampler) := by
  refine ((reads_decodeMember .samplerMode start (OpcodeToken.samplerMode.get token)).bind
    fun mode => (Operand.reads_decodeSlot .sampler).bind_pure (dclSampler · mode)).congr
      fun inst ts => ?_
  constructor
  · rintro ⟨mode, _, ts, ⟨hmode, rfl⟩, ⟨slot, hnames, rfl⟩, rfl⟩
    exact ⟨rfl, shows_cons.2 ⟨hmode, shows_nil token⟩, hnames⟩
  · rintro ⟨hop, hhead, hbody⟩
    cases inst <;> cases hop
    exact ⟨_, [], ts, ⟨(shows_cons.1 hhead).1, rfl⟩, ⟨_, hbody, rfl⟩, rfl⟩

theorem reads_dclResource :
    (decodeBody start token .dclResource).Reads (FollowsHead token .dclResource) := by
  let sampleCount := OpcodeToken.sampleCount.get token
  refine ((reads_decodeMember .resourceDimension start
    (OpcodeToken.resourceDimension.get token)).bind fun dimension =>
      .guard ((Operand.reads_decodeSlot .resource).bind fun slot =>
        .position_bind fun p => Decoder.reads_token.bind fun last =>
          (reads_decodeReturnTypes DeclarationToken.returnTypes p last).bind_pure
            (dclResource slot dimension sampleCount))).congr fun inst ts => ?_
  constructor
  · rintro ⟨dimension, _, _, ⟨hdimension, rfl⟩, ⟨hcount, slot, us, _, hnames, ⟨last, _, _, rfl,
      ⟨types, ⟨htypes, rfl⟩, rfl⟩, rfl⟩, rfl⟩, rfl⟩
    refine ⟨rfl, ?_, UInt32.not_lt.1 hcount, us, last, hnames, htypes, rfl⟩
    exact shows_cons.2 ⟨hdimension, shows_cons.2 ⟨rfl, shows_nil token⟩⟩
  · rintro ⟨hop, hhead, hbody⟩
    cases inst <;> cases hop
    obtain ⟨hcount, us, last, hnames, htypes, rfl⟩ := hbody
    obtain ⟨hdimension, hsamples⟩ := shows_cons.1 hhead
    obtain rfl := (shows_cons.1 hsamples).1
    exact ⟨_, [], _, ⟨hdimension, rfl⟩, ⟨UInt32.not_lt.2 hcount, _, us, [last], hnames,
      ⟨last, _, [], rfl, ⟨_, ⟨htypes, rfl⟩, rfl⟩, rfl⟩, rfl⟩, rfl⟩

theorem reads_mov : (decodeBody start token .mov).Reads (FollowsHead token .mov) := by
  refine (Operand.reads_decodeDestination.bind fun dst => Operand.reads_decode.bind_pure
    (mov dst)).congr fun inst ts => ?_
  constructor
  · rintro ⟨dst, us, vs, ⟨hdst, hus⟩, ⟨src, hvs, rfl⟩, rfl⟩
    exact ⟨rfl, shows_nil token, us, vs, hdst, hus, hvs, rfl⟩
  · rintro ⟨hop, -, hbody⟩
    cases inst <;> cases hop
    obtain ⟨us, vs, hdst, hus, hvs, rfl⟩ := hbody
    exact ⟨_, us, vs, ⟨hdst, hus⟩, ⟨_, hvs, rfl⟩, rfl⟩

theorem reads_add : (decodeBody start token .add).Reads (FollowsHead token .add) := by
  have hopcode (inst : Instruction) : inst.opcode = .add ↔ ∃ dst a b, inst = .add dst a b := by
    cases inst <;> simp [Instruction.opcode]
  exact reads_twoSources token hopcode (fun _ _ _ => shows_nil token) fun _ _ _ _ => Iff.rfl

theorem reads_mul : (decodeBody start token .mul).Reads (FollowsHead token .mul) := by
  have hopcode (inst : Instruction) : inst.opcode = .mul ↔ ∃ dst a b, inst = .mul dst a b := by
    cases inst <;> simp [Instruction.opcode]
  exact reads_twoSources token hopcode (fun _ _ _ => shows_nil token) fun _ _ _ _ => Iff.rfl

theorem reads_mad : (decodeBody start token .mad).Reads (FollowsHead token .mad) := by
  refine (Operand.reads_decodeDestination.bind fun dst => Operand.reads_decode.bind fun a =>
    Operand.reads_decode.bind fun b => Operand.reads_decode.bind_pure (mad dst a b)).congr
      fun inst ts => ?_
  constructor
  · rintro ⟨dst, us, _, ⟨hdst, hus⟩, ⟨a, vs, _, hvs, ⟨b, ws, xs, hws, ⟨c, hxs, rfl⟩, rfl⟩, rfl⟩,
      rfl⟩
    exact ⟨rfl, shows_nil token, us, vs, ws, xs, hdst, hus, hvs, hws, hxs, rfl⟩
  · rintro ⟨hop, -, hbody⟩
    cases inst <;> cases hop
    obtain ⟨us, vs, ws, xs, hdst, hus, hvs, hws, hxs, rfl⟩ := hbody
    exact ⟨_, us, _, ⟨hdst, hus⟩, ⟨_, vs, _, hvs, ⟨_, ws, xs, hws, ⟨_, hxs, rfl⟩, rfl⟩, rfl⟩, rfl⟩

theorem reads_sampleL : (decodeBody start token .sampleL).Reads (FollowsHead token .sampleL) := by
  refine (Decoder.Reads.guard (reads_decodeDimensionExtension.bind fun dimension =>
    reads_decodeReturnTypesExtension.bind fun types => Operand.reads_decodeDestination.bind
      fun dst => Operand.reads_decode.bind fun coord => (Operand.reads_decodeOfKind .resource).bind
        fun texture => (Operand.reads_decodeOfKind .sampler).bind fun sampler =>
          Operand.reads_decode.bind_pure (sampleL dimension types dst coord texture sampler))).congr
            fun inst ts => ?_
  constructor
  · rintro ⟨hextended, dimension, _, _, ⟨first, hfirst, rfl⟩, ⟨types, _, _, ⟨second, hsecond, rfl⟩,
      ⟨dst, us, _, ⟨hdst, hus⟩, ⟨coord, vs, _, hvs, ⟨texture, ws, _, ⟨htexture, hws⟩, ⟨sampler, xs,
        ys, ⟨hsampler, hxs⟩, ⟨lod, hys, rfl⟩, rfl⟩, rfl⟩, rfl⟩, rfl⟩, rfl⟩, rfl⟩
    refine ⟨rfl, shows_cons.2 ⟨get_bit_ne_zero_iff.1 hextended, shows_nil token⟩, hdst, htexture,
      hsampler, first, second, us, vs, ws, xs, ys, hfirst, hsecond, hus, hvs, hws, hxs, hys, rfl⟩
  · rintro ⟨hop, hhead, hbody⟩
    cases inst <;> cases hop
    obtain ⟨hdst, htexture, hsampler, first, second, us, vs, ws, xs, ys, hfirst, hsecond, hus, hvs,
      hws, hxs, hys, rfl⟩ := hbody
    refine ⟨get_bit_ne_zero_iff.2 (shows_cons.1 hhead).1, _, [first], _, ⟨first, hfirst, rfl⟩, ⟨_,
      [second], _, ⟨second, hsecond, rfl⟩, ⟨_, us, _, ⟨hdst, hus⟩, ⟨_, vs, _, hvs, ⟨_, ws, _,
        ⟨htexture, hws⟩, ⟨_, xs, ys, ⟨hsampler, hxs⟩, ⟨_, hys, rfl⟩, rfl⟩, rfl⟩, rfl⟩, rfl⟩, rfl⟩,
          rfl⟩

theorem reads_ret : (decodeBody start token .ret).Reads (FollowsHead token .ret) := by
  refine (Decoder.Reads.pure _).congr fun inst ts => ?_
  constructor
  · rintro ⟨rfl, rfl⟩
    exact ⟨rfl, shows_nil token, rfl⟩
  · rintro ⟨hop, -, hbody⟩
    cases inst <;> cases hop
    exact ⟨rfl, hbody⟩

/-- Every opcode is followed by the bodies of its instructions; most opcodes have none. -/
theorem reads_decodeBody (opcode : Opcode) :
    (decodeBody start token opcode).Reads (FollowsHead token opcode) := by
  unfold decodeBody
  split
  · exact reads_dclGlobalFlags start token
  · exact reads_dclInput start token
  · exact reads_dclOutput start token
  · exact reads_dclOutputSiv start token
  · exact reads_dclTemps start token
  · exact reads_dclConstantBuffer start token
  · exact reads_dclSampler start token
  · exact reads_dclResource start token
  · exact reads_mov start token
  · exact reads_add start token
  · exact reads_mul start token
  · exact reads_mad start token
  · exact reads_sampleL start token
  · exact reads_ret start token
  · refine (Decoder.Reads.failAt _ _).congr fun inst ts => ⟨False.elim, ?_⟩
    rintro ⟨rfl, -⟩
    cases inst <;> simp_all [opcode]

end Bodies

/-! ## Whole instructions -/

/-- The tokens that can stand first in an instruction of the given length. -/
structure IsHead (inst : Instruction) (head : UInt32) (length : Nat) : Prop where
  opcode : OpcodeToken.opcode.get head = Coded.code inst.opcode
  length : (OpcodeToken.length.get head).toNat = length
  extended : OpcodeToken.extended.get head ≠ 0 → inst.opcode = .sampleL
  goesWith : inst.GoesWith head

/-- The token sequences that stand for an instruction. -/
def HasForm (inst : Instruction) (ts : List UInt32) : Prop :=
  ∃ head body, ts = head :: body ∧ inst.IsHead head ts.length ∧ inst.HasBody body

theorem HasForm.ne_nil {inst : Instruction} {ts : List UInt32} (h : inst.HasForm ts) : ts ≠ [] := by
  obtain ⟨head, body, rfl, -⟩ := h
  exact List.cons_ne_nil head body

theorem decodeHead_eq_ok_iff {token : UInt32} {opcode : Opcode} {length : Nat} :
    decodeHead token = .ok (opcode, length) ↔ length ≠ 0
      ∧ (OpcodeToken.length.get token).toNat = length
      ∧ OpcodeToken.opcode.get token = Coded.code opcode
      ∧ (OpcodeToken.extended.get token ≠ 0 → opcode = .sampleL) := by
  unfold decodeHead
  by_cases hzero : (OpcodeToken.length.get token).toNat = 0
  · simp only [hzero, if_true, throw, throwThe, MonadExceptOf.throw, bind, Except.bind,
      reduceCtorEq, false_iff]
    rintro ⟨hne, rfl, -⟩
    exact hne rfl
  · simp only [hzero, if_false]
    rw [eq_comm (b := Coded.code opcode), ← Coded.ofCode?_eq_some_iff]
    cases Coded.ofCode? (α := Opcode) (OpcodeToken.opcode.get token) with
    | none => simp [throw, throwThe, MonadExceptOf.throw]
    | some found =>
        by_cases hext : OpcodeToken.extended.get token = 0
        · simp [hext, pure, Except.pure]
          grind
        · by_cases hop : found = .sampleL
          · simp [hext, hop, pure, Except.pure]
            grind
          · simp [hext, hop, bind, Except.bind, throw, throwThe, MonadExceptOf.throw]
            grind

/-- Whatever length the first token tells, the body behind it is read, and then the two are
    compared. -/
theorem IsHead.run_decode {inst : Instruction} {head : UInt32} {body : List UInt32} {declared : Nat}
    (hhead : inst.IsHead head declared) (hbody : inst.HasBody body) (hzero : declared ≠ 0)
    {c c' : TokenCursor} (hadv : c.Advances (head :: body) c') :
    decode.run c = if body.length + 1 ≠ declared
      then .error ⟨c.position, .lengthMismatch inst.opcode declared (body.length + 1)⟩ c'
      else .ok inst c' := by
  obtain ⟨c₁, hadv₁, hadv₂⟩ := TokenCursor.advances_append_iff.1
    (show c.Advances ([head] ++ body) c' from hadv)
  have htoken : Decoder.token.run c = .ok head c₁ := (Decoder.reads_token _ _ _).2 ⟨_, hadv₁, rfl⟩
  have hdecode : decodeHead head = .ok (inst.opcode, declared) :=
    decodeHead_eq_ok_iff.2 ⟨hzero, hhead.length, hhead.opcode, hhead.extended⟩
  have hread : (decodeBody c.position head inst.opcode).run c₁ = .ok inst c' :=
    (reads_decodeBody _ _ _ _ _ _).2 ⟨body, hadv₂, rfl, hhead.goesWith, hbody⟩
  have hconsumed : c'.position - c.position = body.length + 1 := by
    rw [hadv.position, List.length_cons]
    omega
  unfold decode
  simp only [EStateM.run_bind, Decoder.run_position, htoken, hdecode, hread, hconsumed]
  split <;> rfl

/-- The decoder reads the forms of instructions and nothing else. -/
theorem reads_decode : decode.Reads HasForm := by
  intro c inst c'
  constructor
  · intro h
    unfold decode at h
    rw [EStateM.run_bind, Decoder.run_position] at h
    simp only [run_bind_eq_ok] at h
    obtain ⟨head, c₁, hhead, h⟩ := h
    obtain ⟨_, hadv, rfl⟩ := (Decoder.reads_token _ _ _).1 hhead
    split at h
    · cases h
    · next opcode declared hdecode =>
        obtain ⟨-, hlength, hopcode, hextended⟩ := decodeHead_eq_ok_iff.1 hdecode
        obtain ⟨inst', c₂, hdecodeBody, h⟩ := run_bind_eq_ok.1 h
        obtain ⟨body, hadv', rfl, hgoes, hbody⟩ := (reads_decodeBody _ _ _ _ _ _).1 hdecodeBody
        obtain ⟨_, _, hposition, h⟩ := run_bind_eq_ok.1 h
        obtain ⟨rfl, rfl⟩ := EStateM.Result.ok.inj hposition
        -- The length told is compared with the number of tokens passed, which are the form.
        have hconsumed := (hadv.append hadv').position
        split at h
        · cases h
        · next hdeclared =>
            obtain ⟨rfl, rfl⟩ := EStateM.Result.ok.inj h
            refine ⟨_, hadv.append hadv', head, body, rfl, ⟨hopcode, ?_, hextended, hgoes⟩, hbody⟩
            omega
  · rintro ⟨_, hadv, head, body, rfl, hhead, hbody⟩
    rw [hhead.run_decode hbody (Nat.succ_ne_zero _) hadv, List.length_cons, if_neg (by simp)]

end Instruction

end ShaderBytecode
