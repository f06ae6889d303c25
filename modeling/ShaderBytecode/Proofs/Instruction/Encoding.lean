import ShaderBytecode.Instruction.Encoder
import ShaderBytecode.Proofs.Instruction.Form

set_option autoImplicit false

/-! # What the instruction encoder writes

The encoder writes forms (`Instruction.hasForm_of_encode`), and an instruction that has any form can
be written, in as many tokens (`Instruction.HasForm.encode_eq_ok`). Together with what the decoder
reads, the first gives that writing and then reading changes nothing but undefined global flags, and
the second that whatever was read can be written again in place. -/

namespace ShaderBytecode

open BitRange

namespace Instruction

/-! ## What the encoder writes behind the first token -/

theorem checkKind_eq_ok_iff {expected : OperandKind} {op : Operand} :
    op.checkKind expected = .ok () ↔ op.kind = expected := by
  unfold Operand.checkKind
  split <;> simp [*]

/-- Return types fit the fields they are written to, here and in an extension token. -/
theorem fits_returnTypes {fields : Lanes BitRange} (hwidth : ∀ r ∈ fields.toList, r.width = 4)
    (types : Lanes ReturnType) :
    ∀ field ∈ (fields.zip (types.map Coded.code)).toList, field.1.fits field.2 := by
  have hcode : ∀ (r : BitRange) (type : ReturnType), r.width = 4 → r.fits (Coded.code type) := by
    intro r type hr
    rw [fits_iff_toNat_lt, hr]
    cases type <;> decide
  simp only [Lanes.toList, List.mem_cons, List.not_mem_nil, or_false, forall_eq_or_imp,
    forall_eq] at hwidth
  simp only [Lanes.zip, Lanes.map, Lanes.toList, List.mem_cons, List.not_mem_nil, or_false,
    forall_eq_or_imp, forall_eq]
  exact ⟨hcode _ _ hwidth.1, hcode _ _ hwidth.2.1, hcode _ _ hwidth.2.2.1, hcode _ _ hwidth.2.2.2⟩

theorem shows_placeReturnTypes (types : Lanes ReturnType) :
    Shows (placeReturnTypes 0 DeclarationToken.returnTypes types)
      (DeclarationToken.returnTypes.zip (types.map Coded.code)).toList := by
  refine shows_fill ?_ (fits_returnTypes (by decide) types) 0
  simp only [Lanes.zip, Lanes.toList, List.map_cons, List.map_nil]
  decide

theorem isDimensionExtension_dimensionExtension (dimension : ResourceDimension) :
    IsDimensionExtension dimension (dimensionExtension dimension) := by
  have hshows : Shows (dimensionExtension dimension) [(ExtensionToken.kind,
      ExtensionToken.resourceDimensionKind), (ExtensionToken.resourceDimension,
        Coded.code dimension), (ExtensionToken.continues, 1)] := by
    refine shows_fill ?_ ?_ 0
    · simp only [List.map_cons, List.map_nil]
      decide
    · simp only [List.mem_cons, List.not_mem_nil, or_false, forall_eq_or_imp, forall_eq]
      exact ⟨by decide, fits_code (by decide) dimension, by decide⟩
  obtain ⟨hkind, hcode, hmore, -⟩ := by simpa only [shows_cons] using hshows
  refine ⟨shows_cons.2 ⟨hkind, shows_cons.2 ⟨hcode, shows_nil _⟩⟩, ?_⟩
  rw [hmore]
  decide

theorem isReturnTypesExtension_returnTypesExtension (types : Lanes ReturnType) :
    IsReturnTypesExtension types (returnTypesExtension types) := by
  have hfill : returnTypesExtension types = fill 0 ((ExtensionToken.kind,
      ExtensionToken.returnTypesKind)
        :: (ExtensionToken.returnTypes.zip (types.map Coded.code)).toList) := rfl
  have hdis : (((ExtensionToken.kind, ExtensionToken.returnTypesKind)
      :: (ExtensionToken.returnTypes.zip (types.map Coded.code)).toList).map (·.1)
        ++ [ExtensionToken.continues]).Pairwise BitRange.Disjoint := by
    simp only [Lanes.zip, Lanes.toList, List.map_cons, List.map_nil]
    decide
  obtain ⟨hfields, -, hlast⟩ := List.pairwise_append.1 hdis
  rw [hfill]
  constructor
  · refine shows_fill hfields ?_ 0
    rintro field hmem
    rcases List.mem_cons.1 hmem with rfl | hmem
    · decide
    · exact fits_returnTypes (by decide) types field hmem
  · rw [get_fill_of_disjoint fun field hmem =>
      hlast field.1 (List.mem_map_of_mem hmem) _ (List.mem_singleton_self _)]
    decide

/-- What the encoder writes is a body of the instruction. -/
theorem hasBody_of_encodeBody {inst : Instruction} {ts : List UInt32}
    (h : inst.encodeBody = .ok ts) : inst.HasBody ts := by
  have hform := @Operand.hasForm_of_encode
  cases inst with
  | dclGlobalFlags flags => exact (Except.ok.inj h).symm
  | dclInput operand => exact hform h
  | dclOutput operand => exact hform h
  | dclOutputSiv operand name =>
      obtain ⟨us, hus, h⟩ := bind_eq_ok_iff.1 h
      obtain rfl := Except.ok.inj h
      exact ⟨us, _, hform hus, get_place (fits_code (by decide) name), rfl⟩
  | dclTemps count => exact (Except.ok.inj h).symm
  | dclConstantBuffer slot size access => exact ⟨_, rfl, rfl, hform h⟩
  | dclSampler slot mode => exact ⟨_, rfl, rfl, hform h⟩
  | dclResource slot dimension sampleCount returnTypes =>
      simp only [encodeBody] at h
      split at h
      · cases h
      · next hcount =>
          obtain ⟨us, hus, h⟩ := bind_eq_ok_iff.1 h
          obtain rfl := Except.ok.inj h
          exact ⟨UInt32.not_lt.1 hcount, us, _, ⟨_, rfl, rfl, hform hus⟩,
            shows_placeReturnTypes returnTypes, rfl⟩
  | mov dst src =>
      simp only [encodeBody, bind_eq_ok_iff, Operand.encodeDestination_eq_ok_iff] at h
      obtain ⟨us, ⟨hdst, hus⟩, vs, hvs, h⟩ := h
      obtain rfl := Except.ok.inj h
      exact ⟨us, vs, hdst, hform hus, hform hvs, rfl⟩
  | add dst a b | mul dst a b =>
      simp only [encodeBody, bind_eq_ok_iff, Operand.encodeDestination_eq_ok_iff] at h
      obtain ⟨us, ⟨hdst, hus⟩, vs, hvs, ws, hws, h⟩ := h
      obtain rfl := Except.ok.inj h
      exact ⟨us, vs, ws, hdst, hform hus, hform hvs, hform hws, by simp⟩
  | mad dst a b c =>
      simp only [encodeBody, bind_eq_ok_iff, Operand.encodeDestination_eq_ok_iff] at h
      obtain ⟨us, ⟨hdst, hus⟩, vs, hvs, ws, hws, xs, hxs, h⟩ := h
      obtain rfl := Except.ok.inj h
      exact ⟨us, vs, ws, xs, hdst, hform hus, hform hvs, hform hws, hform hxs, by simp⟩
  | sampleL dimension returnTypes dst coord texture sampler lod =>
      simp only [encodeBody, bind_eq_ok_iff, Operand.encodeDestination_eq_ok_iff] at h
      obtain ⟨_, htexture, _, hsampler, us, ⟨hdst, hus⟩, vs, hvs, ws, hws, xs, hxs, ys, hys, h⟩ := h
      obtain rfl := Except.ok.inj h
      exact ⟨hdst, checkKind_eq_ok_iff.1 htexture, checkKind_eq_ok_iff.1 hsampler, _, _, us, vs, ws,
        xs, ys, isDimensionExtension_dimensionExtension dimension,
        isReturnTypesExtension_returnTypesExtension returnTypes, hform hus, hform hvs, hform hws,
        hform hxs, hform hys, by simp⟩
  | ret => exact (Except.ok.inj h).symm

/-- Operands that name the same indices take the same number of tokens, unless they carry values. -/
theorem length_of_names (op : Operand) {kind : OperandKind} {indices : List RegisterIndex}
    {ts : List UInt32} (h : Operand.Names kind indices ts) (hkind : kind.isImmediate = false)
    (hindices : op.indices = indices) (himmediate : op.immediate = none) :
    op.tokens.length = ts.length := by
  obtain ⟨named, rfl, rfl, hcheck, token, -, -, rfl⟩ := h
  have hvalues := (Operand.checkImmediate_eq_ok_iff named).1 ((Operand.check_eq_ok_iff named).1
    hcheck).2.2
  have hnone : named.immediate = none := by
    revert hkind hvalues
    cases named.kind <;> simp [OperandKind.isImmediate]
  rw [Operand.tokens_eq_cons, Operand.payload, Operand.payload, hindices, himmediate, hnone]
  rfl

/-- An instruction whose body was read can be written, with a body of as many tokens. -/
theorem HasBody.encodeBody_eq_ok {inst : Instruction} {ts : List UInt32} (h : inst.HasBody ts) :
    ∃ us, inst.encodeBody = .ok us ∧ us.length = ts.length := by
  have hencode := @Operand.HasForm.encode_eq_ok
  cases inst with
  | dclGlobalFlags flags =>
      obtain rfl := h
      exact ⟨[], rfl, rfl⟩
  | dclInput operand => exact ⟨_, hencode h⟩
  | dclOutput operand => exact ⟨_, hencode h⟩
  | dclOutputSiv operand name =>
      obtain ⟨us, token, hus, -, rfl⟩ := h
      obtain ⟨hus, hlen⟩ := hencode hus
      exact ⟨_, by simp only [encodeBody, hus]; rfl, by simp [hlen]⟩
  | dclTemps count =>
      obtain rfl := h
      exact ⟨[count], rfl, rfl⟩
  | dclConstantBuffer slot size access => exact ⟨_, rfl, length_of_names _ h rfl rfl rfl⟩
  | dclSampler slot mode => exact ⟨_, rfl, length_of_names _ h rfl rfl rfl⟩
  | dclResource slot dimension sampleCount returnTypes =>
      obtain ⟨hcount, us, token, hnames, -, rfl⟩ := h
      have henc : (Operand.resource slot).encode = .ok (Operand.resource slot).tokens := rfl
      have hlen := length_of_names (.resource slot) hnames rfl rfl rfl
      exact ⟨_, by simp only [encodeBody, if_neg (UInt32.not_lt.2 hcount), henc]; rfl,
        by simp [hlen]⟩
  | mov dst src =>
      obtain ⟨us, vs, hdst, hus, hvs, rfl⟩ := h
      have hus' := hus.encodeDestination_eq_ok hdst
      exact ⟨_, by simp only [encodeBody, hus', (hencode hvs).1]; rfl,
        by simp [(hencode hus).2, (hencode hvs).2]⟩
  | add dst a b | mul dst a b =>
      obtain ⟨us, vs, ws, hdst, hus, hvs, hws, rfl⟩ := h
      have hus' := hus.encodeDestination_eq_ok hdst
      exact ⟨_, by simp only [encodeBody, hus', (hencode hvs).1, (hencode hws).1]; rfl,
        by simp [(hencode hus).2, (hencode hvs).2, (hencode hws).2]⟩
  | mad dst a b c =>
      obtain ⟨us, vs, ws, xs, hdst, hus, hvs, hws, hxs, rfl⟩ := h
      have hus' := hus.encodeDestination_eq_ok hdst
      exact ⟨_, by
        simp only [encodeBody, hus', (hencode hvs).1, (hencode hws).1, (hencode hxs).1]; rfl,
        by simp [(hencode hus).2, (hencode hvs).2, (hencode hws).2, (hencode hxs).2]⟩
  | sampleL dimension returnTypes dst coord texture sampler lod =>
      obtain ⟨hdst, htexture, hsampler, first, second, us, vs, ws, xs, ys, -, -, hus, hvs, hws, hxs,
        hys, rfl⟩ := h
      have hus' := hus.encodeDestination_eq_ok hdst
      exact ⟨_, by
        simp only [encodeBody, checkKind_eq_ok_iff.2 htexture, checkKind_eq_ok_iff.2 hsampler, hus',
          (hencode hvs).1, (hencode hws).1, (hencode hxs).1, (hencode hys).1]; rfl,
        by simp [(hencode hus).2, (hencode hvs).2, (hencode hws).2, (hencode hxs).2,
          (hencode hys).2, Nat.add_assoc]⟩
  | ret =>
      obtain rfl := h
      exact ⟨[], rfl, rfl⟩

/-! ## The first token -/

/-- The number of an opcode is below bit 11, where the other fields of the first token start. -/
theorem code_opcode_lt (opcode : Opcode) : (Coded.code opcode).toNat < 2 ^ 11 :=
  (fits_iff_toNat_lt OpcodeToken.opcode _).1 (fits_code (by decide) opcode)

/-- What the first token of an instruction is before its fields are written. -/
def headBase : Instruction → UInt32
  | .dclGlobalFlags flags => Coded.code Opcode.dclGlobalFlags ||| flags.truncate.bits
  | inst => Coded.code inst.opcode

theorem headToken_eq_fill (inst : Instruction) (length : Nat) : inst.headToken length
    = fill inst.headBase (inst.headFields ++ [(OpcodeToken.length, UInt32.ofNat length)]) := by
  cases inst <;> rfl

/-- Beside the opcode the base holds nothing but global flags. -/
theorem get_headBase {r : BitRange} (hflags : r.get GlobalFlags.definedBits = 0)
    (inst : Instruction) : r.get inst.headBase = r.get (Coded.code inst.opcode) := by
  unfold headBase
  split
  · rw [GlobalFlags.truncate, get_or, get_and, hflags, UInt32.and_zero, UInt32.or_zero]
    rfl
  · rfl

/-- No field of the first token shares a bit with the opcode or the length. -/
theorem pairwise_disjoint_headFields (inst : Instruction) : (OpcodeToken.opcode ::
    (inst.headFields.map (·.1) ++ [OpcodeToken.length])).Pairwise BitRange.Disjoint := by
  cases inst with
  | dclConstantBuffer slot size access => cases access <;> simp only [headFields] <;> decide
  | _ =>
      simp only [headFields, List.map_cons, List.map_nil]
      decide

/-- What the fields of the first token hold fits them; of samples there are at most one. -/
theorem fits_headFields {inst : Instruction} {ts : List UInt32} (h : inst.HasBody ts) :
    ∀ field ∈ inst.headFields, field.1.fits field.2 := by
  cases inst with
  | dclConstantBuffer slot size access =>
      cases access <;> simp only [headFields, List.mem_singleton, forall_eq] <;> decide
  | dclSampler slot mode =>
      simp only [headFields, List.mem_singleton, forall_eq]
      exact fits_code (by decide) mode
  | dclResource slot dimension sampleCount returnTypes =>
      have hcount : sampleCount.toNat ≤ 1 := h.1
      simp only [headFields, List.mem_cons, List.not_mem_nil, or_false, forall_eq_or_imp, forall_eq]
      refine ⟨fits_code (by decide) dimension, ?_⟩
      rw [fits_iff_toNat_lt]
      exact Nat.lt_of_le_of_lt hcount (by decide)
  | sampleL =>
      simp only [headFields, List.mem_singleton, forall_eq]
      decide
  | _ => simp [headFields]

theorem shows_headToken {inst : Instruction} {ts : List UInt32} (h : inst.HasBody ts)
    {length : Nat} (hlen : length ≤ OpcodeToken.maxLength) : Shows (inst.headToken length)
      ((OpcodeToken.opcode, Coded.code inst.opcode) :: (inst.headFields
        ++ [(OpcodeToken.length, UInt32.ofNat length)])) := by
  obtain ⟨hopcode, hfields⟩ := List.pairwise_cons.1 inst.pairwise_disjoint_headFields
  have hmap : (inst.headFields ++ [(OpcodeToken.length, UInt32.ofNat length)]).map (·.1)
      = inst.headFields.map (·.1) ++ [OpcodeToken.length] := by simp
  rw [headToken_eq_fill, shows_cons]
  constructor
  · rw [get_fill_of_disjoint, get_headBase (by decide)]
    · exact get_of_fits rfl (fits_code (by decide) inst.opcode)
    · intro field hmem
      exact (hopcode field.1 (hmap ▸ List.mem_map_of_mem hmem)).symm
  · refine shows_fill (hmap ▸ hfields) ?_ _
    intro field hmem
    rcases List.mem_append.1 hmem with hmem | hmem
    · exact fits_headFields h field hmem
    · obtain rfl := List.mem_singleton.1 hmem
      have hsmall : length < 2 ^ 7 := Nat.lt_succ_of_le hlen
      rw [fits_iff_toNat_lt, UInt32.toNat_ofNat_of_lt' (Nat.lt_trans hsmall (by decide))]
      exact hsmall

/-- Only sampling announces extension tokens. -/
theorem extended_headToken {inst : Instruction} (h : inst.opcode ≠ .sampleL) (length : Nat) :
    OpcodeToken.extended.get (inst.headToken length) = 0 := by
  rw [headToken_eq_fill, get_fill_of_disjoint, get_headBase (by decide)]
  · exact get_of_toNat_lt (Nat.lt_trans (code_opcode_lt inst.opcode) (by decide))
  · cases inst with
    | sampleL => exact absurd rfl h
    | dclConstantBuffer slot size access => cases access <;> simp [headFields] <;> decide
    | _ =>
        simp only [headFields, List.nil_append, List.cons_append, List.forall_mem_cons,
          List.not_mem_nil, false_implies, implies_true, and_true]
        decide

/-- The first token of a declaration of global flags holds the flags that are defined. -/
theorem truncate_headToken (flags : GlobalFlags) (length : Nat) :
    GlobalFlags.truncate ⟨(dclGlobalFlags flags).headToken length⟩ = flags.truncate := by
  -- The defined flags lie outside the length field and meet no bit of the opcode.
  have hbits : ∀ i, i < 32 → bitAt GlobalFlags.definedBits i = true →
      ¬ (OpcodeToken.length.lo ≤ i ∧ i ≤ OpcodeToken.length.hi)
        ∧ bitAt (Coded.code Opcode.dclGlobalFlags) i = false := by decide
  apply congrArg GlobalFlags.mk
  apply eq_of_bitAt
  intro i hi
  rw [headToken_eq_fill]
  simp only [headFields, List.nil_append, fill_cons, fill_nil, headBase, GlobalFlags.truncate,
    bitAt_and]
  cases hdefined : bitAt GlobalFlags.definedBits i with
  | false => simp
  | true =>
      obtain ⟨hlength, hopcode⟩ := hbits i hi hdefined
      rw [bitAt_set _ _ _ hi, if_neg hlength, bitAt_or, bitAt_and, hopcode, hdefined]
      simp

/-- The token that the encoder writes first can stand first. -/
theorem isHead_headToken {inst : Instruction} {ts : List UInt32} (h : inst.HasBody ts)
    {length : Nat} (hlen : length ≤ OpcodeToken.maxLength) :
    inst.truncateFlags.IsHead (inst.headToken length) length := by
  obtain ⟨hopcode, hfields⟩ := shows_cons.1 (shows_headToken h hlen)
  obtain ⟨hfields, hlength⟩ := shows_append.1 hfields
  have htruncate : inst.truncateFlags.opcode = inst.opcode := by cases inst <;> rfl
  refine ⟨by rw [htruncate, hopcode], ?_, ?_, ?_⟩
  · rw [(shows_cons.1 hlength).1]
    exact UInt32.toNat_ofNat_of_lt' (Nat.lt_of_le_of_lt hlen (by decide))
  · intro hextended
    rw [htruncate]
    by_cases hop : inst.opcode = .sampleL
    · exact hop
    · exact absurd (extended_headToken hop length) hextended
  · cases inst with
    | dclGlobalFlags flags => exact (truncate_headToken flags length).symm
    | _ => exact hfields

/-! ## Whole instructions -/

theorem hasBody_truncateFlags {inst : Instruction} {ts : List UInt32} :
    inst.truncateFlags.HasBody ts ↔ inst.HasBody ts := by
  cases inst <;> rfl

/-- What the encoder writes is a form of the instruction without undefined flags. -/
theorem hasForm_of_encode {inst : Instruction} {ts : List UInt32} (h : inst.encode = .ok ts) :
    inst.truncateFlags.HasForm ts := by
  obtain ⟨body, hbody, h⟩ := bind_eq_ok_iff.1 h
  dsimp only at h
  split at h
  · cases h
  · next hlen =>
      obtain rfl := Except.ok.inj h
      have hbody := hasBody_of_encodeBody hbody
      refine ⟨_, body, rfl, ?_, hasBody_truncateFlags.2 hbody⟩
      rw [List.length_cons, Nat.add_comm body.length]
      exact isHead_headToken hbody (Nat.not_lt.1 hlen)

/-- An instruction that was read has no undefined flags and can be written, in as many tokens. -/
theorem HasForm.encode_eq_ok {inst : Instruction} {ts : List UInt32} (h : inst.HasForm ts) :
    inst.truncateFlags = inst ∧ ∃ us, inst.encode = .ok us ∧ us.length = ts.length := by
  obtain ⟨head, body, rfl, hhead, hbody⟩ := h
  constructor
  · cases inst with
    | dclGlobalFlags flags =>
        have hflags : flags = GlobalFlags.truncate ⟨head⟩ := hhead.goesWith
        rw [hflags, truncateFlags, GlobalFlags.truncate, GlobalFlags.truncate, UInt32.and_assoc,
          UInt32.and_self]
    | _ => rfl
  · obtain ⟨us, hencode, hlen⟩ := hbody.encodeBody_eq_ok
    -- The length was read from a field of seven bits, so the instruction is not too long to write.
    have hfits : (OpcodeToken.length.get head).toNat < 2 ^ 7 :=
      (fits_iff_toNat_lt _ _).1 (fits_get OpcodeToken.length head)
    have hshort : ¬ 1 + us.length > OpcodeToken.maxLength := by
      rw [hhead.length, List.length_cons] at hfits
      unfold OpcodeToken.maxLength
      omega
    refine ⟨inst.headToken (1 + us.length) :: us, ?_, by simp [hlen]⟩
    refine bind_eq_ok_iff.2 ⟨us, hencode, ?_⟩
    dsimp only
    rw [if_neg hshort]
    rfl

end Instruction

end ShaderBytecode
