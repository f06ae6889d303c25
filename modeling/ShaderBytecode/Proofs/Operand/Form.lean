import ShaderBytecode.Operand.Decoder
import ShaderBytecode.Operand.Encoder
import ShaderBytecode.Proofs.Token.BitRange
import ShaderBytecode.Proofs.Token.Reading

set_option autoImplicit false

/-! # The token forms of operands

An operand that passes the encoder's checks can be written with any first token that shows its
fields and announces no extension, followed by its indices and values (`Operand.HasForm`). The bits
of the first token that belong to no field are free; the encoder leaves them zero. The two main
statements say that the decoder reads these forms and no others (`Operand.reads_decode`), and that
what the encoder writes is one of them (`Operand.hasForm_tokens`). -/

namespace ShaderBytecode

open BitRange

/-! ## Components -/

/-- A narrow field survives being stored in a byte. -/
theorem toUInt32_toUInt8_get {r : BitRange} (hr : r.width ≤ 8) (token : UInt32) :
    (r.get token).toUInt8.toUInt32 = r.get token := by
  have hlt := (fits_iff_toNat_lt r _).1 (fits_get r token)
  have hpow : 2 ^ r.width ≤ 2 ^ 8 := Nat.pow_le_pow_right (by decide) hr
  apply UInt32.toNat_inj.1
  rw [UInt8.toNat_toUInt32, UInt32.toNat_toUInt8, Nat.mod_eq_of_lt (by omega)]

/-- A byte is at most 3 if it fits a field of two bits. -/
theorem le_three_iff_fits {r : BitRange} (hr : r.width = 2) (lane : UInt8) :
    lane ≤ 3 ↔ r.fits lane.toUInt32 := by
  rw [fits_iff_toNat_lt, hr, UInt8.toNat_toUInt32, UInt8.le_iff_toNat_le]
  have : (3 : UInt8).toNat = 3 := rfl
  omega

namespace Components

/-- The checks pass exactly if every field can hold its value. -/
theorem check_eq_ok_iff (components : Components) :
    components.check = .ok () ↔ ∀ field ∈ components.fields, field.1.fits field.2 := by
  have hcount : OperandToken.componentCount.fits 0 ∧ OperandToken.componentCount.fits 1
      ∧ OperandToken.componentCount.fits 2 := by decide
  have hmode : OperandToken.selectionMode.fits 0 ∧ OperandToken.selectionMode.fits 1
      ∧ OperandToken.selectionMode.fits 2 := by decide
  cases components with
  | none => simpa [check, fields] using hcount.1
  | scalar => simpa [check, fields] using hcount.2.1
  | mask bits => simp [check, fields, hcount, hmode]
  | swizzle lanes =>
      have hx := le_three_iff_fits (r := OperandToken.swizzle.x) rfl lanes.x
      have hy := le_three_iff_fits (r := OperandToken.swizzle.y) rfl lanes.y
      have hz := le_three_iff_fits (r := OperandToken.swizzle.z) rfl lanes.z
      have hw := le_three_iff_fits (r := OperandToken.swizzle.w) rfl lanes.w
      simp [check, fields, hcount, hmode, Lanes.toList, Lanes.zip, Lanes.map, hx, hy, hz, hw]
  | select component =>
      have hc := le_three_iff_fits (r := OperandToken.selectedComponent) rfl component
      simp [check, fields, hcount, hmode, hc]

/-- The components' fields share no bit with each other or with the fields behind them. -/
theorem pairwise_disjoint_fields (components : Components) :
    (components.fields.map (·.1) ++ ([OperandToken.kind, OperandToken.indexCount]
      ++ OperandToken.indexForms ++ [OperandToken.extended])).Pairwise BitRange.Disjoint := by
  cases components with
  | swizzle lanes =>
      simp only [fields, Lanes.zip, Lanes.toList, List.map_cons, List.map_nil]
      decide
  | _ =>
      simp only [fields, List.map_cons, List.map_nil]
      decide

end Components

namespace Operand

/-- The components are read off a token exactly if the token shows their fields. -/
theorem decodeComponents_eq_ok_iff {token : UInt32} {components : Components} :
    decodeComponents token = .ok components ↔ Shows token components.fields := by
  constructor
  · intro h
    unfold decodeComponents at h
    split at h
    · next hcount =>
        cases h
        simpa [Components.fields] using hcount
    · next hcount =>
        cases h
        simpa [Components.fields] using hcount
    · next hcount =>
        split at h
        · next hmode =>
            cases h
            simp only [Components.fields, shows_cons, shows_nil, and_true]
            exact ⟨hcount, hmode, (toUInt32_toUInt8_get (by decide) token).symm⟩
        · next hmode =>
            cases h
            simp only [Components.fields, shows_cons, shows_zip_toList]
            refine ⟨hcount, hmode, ?_⟩
            -- The lanes are kept as bytes, which loses nothing of fields this narrow.
            have hback : ∀ r ∈ OperandToken.swizzle.toList,
                (r.get token).toUInt8.toUInt32 = r.get token := by
              intro r hr
              have hwidth : ∀ r ∈ OperandToken.swizzle.toList, r.width ≤ 8 := by decide
              exact toUInt32_toUInt8_get (hwidth r hr) token
            simp only [Lanes.toList, List.mem_cons, forall_eq_or_imp] at hback
            simp only [Lanes.map, hback]
        · next hmode =>
            cases h
            simp only [Components.fields, shows_cons, shows_nil, and_true]
            exact ⟨hcount, hmode, (toUInt32_toUInt8_get (by decide) token).symm⟩
        · cases h
    · cases h
  · intro h
    cases components with
    | none =>
        simp only [Components.fields, shows_cons] at h
        simp only [decodeComponents, h.1]
    | scalar =>
        simp only [Components.fields, shows_cons] at h
        simp only [decodeComponents, h.1]
    | mask bits =>
        simp only [Components.fields, shows_cons] at h
        simp only [decodeComponents, h.1, h.2.1, h.2.2.1, UInt8.toUInt8_toUInt32]
    | swizzle lanes =>
        simp only [Components.fields, shows_cons, shows_zip_toList] at h
        have hlanes := congrArg (Lanes.map UInt32.toUInt8) h.2.2
        simp only [Lanes.map, UInt8.toUInt8_toUInt32] at hlanes
        simp only [decodeComponents, h.1, h.2.1, Lanes.map, hlanes]
    | select component =>
        simp only [Components.fields, shows_cons] at h
        simp only [decodeComponents, h.1, h.2.1, h.2.2.1, UInt8.toUInt8_toUInt32]

theorem decodeKind_eq_ok_iff {token : UInt32} {kind : OperandKind} :
    decodeKind token = .ok kind ↔ OperandToken.kind.get token = Coded.code kind := by
  have hcode := Coded.ofCode?_eq_some_iff (n := OperandToken.kind.get token) (a := kind)
  rw [eq_comm (b := Coded.code kind), ← hcode]
  unfold decodeKind
  dsimp only
  split
  · next found h => simp [h]
  · next h => simp [h]

theorem decodeHead_eq_ok_iff {token : UInt32} {kind : OperandKind} {components : Components} :
    decodeHead token = .ok (kind, components) ↔ OperandToken.extended.get token = 0
      ∧ Shows token components.fields ∧ OperandToken.kind.get token = Coded.code kind := by
  rw [← decodeComponents_eq_ok_iff, ← decodeKind_eq_ok_iff]
  unfold decodeHead
  by_cases hext : OperandToken.extended.get token = 0
  · cases hcomp : decodeComponents token with
    | error e => simp [hext, bind, Except.bind]
    | ok found =>
        cases hkind : decodeKind token with
        | error e => simp [hext, bind, Except.bind]
        | ok k => simp [hext, bind, Except.bind, pure, Except.pure, and_comm]
  · simp [hext, throw, throwThe, MonadExceptOf.throw, bind, Except.bind]

/-! ## Indices and values -/

theorem reads_decodeIndex (start : Nat) (token : UInt32) (r : BitRange) :
    (decodeIndex start token r).Reads fun index ts =>
      r.get token = index.form ∧ ts = index.tokens := by
  unfold decodeIndex
  split
  · next h =>
      refine (Decoder.reads_token.bind_pure RegisterIndex.imm32).congr fun index ts => ?_
      constructor
      · rintro ⟨value, rfl, rfl⟩
        exact ⟨h, rfl⟩
      · rintro ⟨hform, rfl⟩
        cases index with
        | imm32 value => exact ⟨value, rfl, rfl⟩
        | imm64 value => simp [h, RegisterIndex.form] at hform
  · next h =>
      refine (Decoder.reads_doubleToken.bind_pure RegisterIndex.imm64).congr fun index ts => ?_
      constructor
      · rintro ⟨value, rfl, rfl⟩
        exact ⟨h, rfl⟩
      · rintro ⟨hform, rfl⟩
        cases index with
        | imm32 value => simp [h, RegisterIndex.form] at hform
        | imm64 value => exact ⟨value, rfl, rfl⟩
  · next h0 h1 =>
      refine (Decoder.Reads.failAt _ _).congr fun index ts => ⟨False.elim, ?_⟩
      rintro ⟨hform, -⟩
      cases index with
      | imm32 value => exact h0 hform
      | imm64 value => exact h1 hform

theorem reads_decodeIndices (start : Nat) (token : UInt32) (ranges : List BitRange) :
    (decodeIndices start token ranges).Reads fun indices ts =>
      ranges.map (·.get token) = indices.map (·.form) ∧ ts = indices.flatMap (·.tokens) := by
  induction ranges with
  | nil =>
      refine (Decoder.Reads.pure []).congr fun indices ts => ?_
      constructor
      · rintro ⟨rfl, rfl⟩
        exact ⟨rfl, rfl⟩
      · rintro ⟨hforms, rfl⟩
        obtain rfl : indices = [] := by simpa using hforms.symm
        exact ⟨rfl, rfl⟩
  | cons r ranges ih =>
      refine ((reads_decodeIndex start token r).bind fun index => ih.bind_pure (index :: ·)).congr
        fun indices ts => ?_
      constructor
      · rintro ⟨index, us, vs, ⟨hform, rfl⟩, ⟨rest, ⟨hforms, rfl⟩, rfl⟩, rfl⟩
        exact ⟨by simp [hform, hforms], by simp⟩
      · rintro ⟨hforms, rfl⟩
        cases indices with
        | nil => simp at hforms
        | cons index indices =>
            obtain ⟨hform, hforms⟩ := List.cons.inj hforms
            exact ⟨index, _, _, ⟨hform, rfl⟩, ⟨indices, ⟨hforms, rfl⟩, rfl⟩, by simp⟩

/-- Immediate operands carry as many values as they have components; registers carry none. -/
theorem checkImmediate_eq_ok_iff (op : Operand) : op.checkImmediate = .ok () ↔
    match op.kind with
    | .immediate32 => ∃ values, values.length = op.components.valueCount
        ∧ op.immediate = some (.words values)
    | .immediate64 => ∃ values, values.length = op.components.valueCount
        ∧ op.immediate = some (.doubleWords values)
    | _ => op.immediate = none := by
  obtain ⟨kind, components, indices, immediate⟩ := op
  unfold checkImmediate
  cases kind <;> rcases immediate with _ | ⟨values⟩ | ⟨values⟩ <;> simp

theorem reads_decodeImmediate (kind : OperandKind) (components : Components)
    (indices : List RegisterIndex) :
    (decodeImmediate kind components.valueCount).Reads fun immediate ts =>
      (Operand.mk kind components indices immediate).checkImmediate = .ok ()
        ∧ ts = (immediate.map (·.tokens)).getD [] := by
  simp only [checkImmediate_eq_ok_iff]
  unfold decodeImmediate
  cases kind with
  | immediate32 =>
      refine ((Decoder.reads_times Decoder.reads_token _).bind_pure fun values =>
        some (Immediate.words values)).congr fun immediate ts => ?_
      constructor
      · rintro ⟨values, ⟨hlen, hts⟩, rfl⟩
        exact ⟨⟨values, hlen, rfl⟩, by simpa [Immediate.tokens] using hts⟩
      · rintro ⟨⟨values, hlen, rfl⟩, hts⟩
        exact ⟨values, ⟨hlen, by simpa [Immediate.tokens] using hts⟩, rfl⟩
  | immediate64 =>
      refine ((Decoder.reads_times Decoder.reads_doubleToken _).bind_pure fun values =>
        some (Immediate.doubleWords values)).congr fun immediate ts => ?_
      constructor
      · rintro ⟨values, ⟨hlen, rfl⟩, rfl⟩
        exact ⟨⟨values, hlen, rfl⟩, rfl⟩
      · rintro ⟨⟨values, hlen, rfl⟩, rfl⟩
        exact ⟨values, ⟨hlen, rfl⟩, rfl⟩
  | _ =>
      refine (Decoder.Reads.pure _).congr fun immediate ts => ?_
      constructor
      · rintro ⟨rfl, rfl⟩
        exact ⟨rfl, rfl⟩
      · rintro ⟨hnone, rfl⟩
        exact ⟨hnone, by rw [show immediate = none from hnone]; rfl⟩

/-! ## Whole operands -/

/-- The operand's tokens after the first. -/
def payload (op : Operand) : List UInt32 :=
  op.indices.flatMap (·.tokens) ++ (op.immediate.map (·.tokens)).getD []

theorem tokens_eq_cons (op : Operand) : op.tokens = fill 0 op.fields :: op.payload := rfl

/-- The token sequences that stand for an operand: it has a token form at all, the first token shows
    its fields and announces no extension, and its indices and values follow. -/
def HasForm (op : Operand) (ts : List UInt32) : Prop :=
  op.check = .ok () ∧ ∃ token, OperandToken.extended.get token = 0 ∧ Shows token op.fields
    ∧ ts = token :: op.payload

theorem check_eq_ok_iff (op : Operand) : op.check = .ok () ↔
    op.components.check = .ok () ∧ op.indices.length ≤ 3 ∧ op.checkImmediate = .ok () := by
  unfold check
  cases op.components.check with
  | error e => simp [bind, Except.bind]
  | ok =>
      by_cases hlen : op.indices.length > OperandToken.indexForms.length
      · have : ¬ op.indices.length ≤ 3 := Nat.not_le.2 hlen
        simp [hlen, this, bind, Except.bind, throw, throwThe, MonadExceptOf.throw]
      · have : op.indices.length ≤ 3 := Nat.not_lt.1 hlen
        simp [hlen, this, bind, Except.bind]

theorem shows_fields_iff {op : Operand} {token : UInt32} : Shows token op.fields ↔
    Shows token op.components.fields ∧ OperandToken.kind.get token = Coded.code op.kind
      ∧ OperandToken.indexCount.get token = UInt32.ofNat op.indices.length
      ∧ Shows token (OperandToken.indexForms.zip (op.indices.map (·.form))) := by
  simp only [fields, shows_append, shows_cons, shows_nil, and_true, and_assoc]

/-- As many form fields as the count tells read as the forms of the indices exactly if there are as
    many indices and the form field of each shows its form. -/
theorem map_get_take_eq_iff {indices : List RegisterIndex} {token : UInt32} :
    (OperandToken.indexForms.take (OperandToken.indexCount.get token).toNat).map (·.get token)
        = indices.map (·.form)
      ↔ indices.length ≤ 3 ∧ OperandToken.indexCount.get token = UInt32.ofNat indices.length
        ∧ Shows token (OperandToken.indexForms.zip (indices.map (·.form))) := by
  have hcount : (OperandToken.indexCount.get token).toNat < 4 :=
    (fits_iff_toNat_lt _ _).1 (fits_get OperandToken.indexCount token)
  have hforms : OperandToken.indexForms.length = 3 := rfl
  constructor
  · intro h
    have hlen : (OperandToken.indexCount.get token).toNat = indices.length := by
      have := congrArg List.length h
      simp only [List.length_map, List.length_take, hforms] at this
      omega
    refine ⟨by omega, ?_, ?_⟩
    · rw [← hlen, UInt32.ofNat_toNat]
    · rw [shows_zip (by rw [List.length_map]; omega), List.length_map, ← hlen]
      exact h
  · rintro ⟨hlen, heq, hshows⟩
    rw [shows_zip (by rw [List.length_map]; omega), List.length_map] at hshows
    rw [heq, UInt32.toNat_ofNat_of_lt' (Nat.lt_of_le_of_lt hlen (by decide))]
    exact hshows

/-- The decoder reads the forms of operands and nothing else. -/
theorem reads_decode : decode.Reads HasForm := by
  refine .position_bind fun start => (Decoder.Reads.bind (H := fun token op ts =>
    op.check = .ok () ∧ OperandToken.extended.get token = 0 ∧ Shows token op.fields
      ∧ ts = op.payload) Decoder.reads_token fun token => ?_).congr fun op ts => ?_
  · split
    · next fault hhead =>
        refine (Decoder.Reads.failAt _ _).congr fun op ts => ⟨False.elim, ?_⟩
        rintro ⟨-, hext, hshows, -⟩
        obtain ⟨hcomponents, hkind, -⟩ := shows_fields_iff.1 hshows
        have hok := decodeHead_eq_ok_iff.2 ⟨hext, hcomponents, hkind⟩
        rw [hhead] at hok
        cases hok
    · next kind components hhead =>
        -- Kind and components are settled by the first token, so an operand that shows the same
        -- fields has the same two; only its indices and values are still to be read.
        obtain ⟨hext, hcomponents, hkind⟩ := decodeHead_eq_ok_iff.1 hhead
        refine ((reads_decodeIndices start token _).bind fun indices =>
          (reads_decodeImmediate kind components indices).bind_pure
            (Operand.mk kind components indices)).congr fun op ts => ?_
        simp only [map_get_take_eq_iff]
        constructor
        · rintro ⟨indices, us, vs, ⟨⟨hlen, hcount, hforms⟩, rfl⟩, ⟨immediate, ⟨hcheck, rfl⟩, rfl⟩,
            rfl⟩
          refine ⟨?_, hext, shows_fields_iff.2 ⟨hcomponents, hkind, hcount, hforms⟩, rfl⟩
          rw [check_eq_ok_iff, Components.check_eq_ok_iff]
          exact ⟨fits_of_shows hcomponents, hlen, hcheck⟩
        · rintro ⟨hcheck, -, hshows, rfl⟩
          obtain ⟨hcomponents', hkind', hcount, hforms⟩ := shows_fields_iff.1 hshows
          have hhead' := decodeHead_eq_ok_iff.2 ⟨hext, hcomponents', hkind'⟩
          rw [hhead] at hhead'
          obtain ⟨rfl, rfl⟩ := Prod.mk.inj (Except.ok.inj hhead')
          obtain ⟨-, hlen, hcheck⟩ := (check_eq_ok_iff op).1 hcheck
          exact ⟨op.indices, _, _, ⟨⟨hlen, hcount, hforms⟩, rfl⟩,
            ⟨op.immediate, ⟨hcheck, rfl⟩, rfl⟩, rfl⟩
  · constructor
    · rintro ⟨token, _, ts, rfl, ⟨hcheck, hext, hshows, rfl⟩, rfl⟩
      exact ⟨hcheck, token, hext, hshows, rfl⟩
    · rintro ⟨hcheck, token, hext, hshows, rfl⟩
      exact ⟨token, _, _, rfl, ⟨hcheck, hext, hshows, rfl⟩, rfl⟩

/-! ## What the encoder writes -/

/-- The fields of the components come first; of the form fields as many are used as there are
    indices. -/
theorem map_fst_fields (op : Operand) : op.fields.map (·.1) = op.components.fields.map (·.1)
    ++ ([OperandToken.kind, OperandToken.indexCount]
      ++ OperandToken.indexForms.take op.indices.length) := by
  simp only [fields, List.map_append, List.map_cons, List.map_nil, map_fst_zip, List.length_map,
    List.append_assoc]

/-- The operand's fields share no bit with each other or with the flag of an extension. -/
theorem pairwise_disjoint_fields (op : Operand) :
    (op.fields.map (·.1) ++ [OperandToken.extended]).Pairwise BitRange.Disjoint := by
  refine op.components.pairwise_disjoint_fields.sublist ?_
  rw [map_fst_fields, List.append_assoc]
  refine (List.Sublist.refl _).append (List.Sublist.append ?_ (List.Sublist.refl _))
  exact (List.Sublist.refl _).append (List.take_sublist _ _)

/-- What passes the checks fits its fields. -/
theorem fits_fields {op : Operand} (h : op.check = .ok ()) :
    ∀ field ∈ op.fields, field.1.fits field.2 := by
  obtain ⟨hcomponents, hlen, -⟩ := (check_eq_ok_iff op).1 h
  intro field hmem
  simp only [fields, List.mem_append, List.mem_cons, List.not_mem_nil, or_false] at hmem
  rcases hmem with (hmem | rfl | rfl) | hmem
  · exact (Components.check_eq_ok_iff _).1 hcomponents field hmem
  · exact fits_code (r := OperandToken.kind) (by decide) op.kind
  · rw [fits_iff_toNat_lt, UInt32.toNat_ofNat_of_lt' (Nat.lt_of_le_of_lt hlen (by decide))]
    exact Nat.lt_succ_of_le hlen
  · obtain ⟨hrange, hform⟩ := List.of_mem_zip hmem
    obtain ⟨index, -, hindex⟩ := List.mem_map.1 hform
    have hnarrow : ∀ r ∈ OperandToken.indexForms, r.fits 0 = true ∧ r.fits 1 = true := by decide
    rw [← hindex]
    cases index with
    | imm32 value => exact (hnarrow _ hrange).1
    | imm64 value => exact (hnarrow _ hrange).2

/-- What the encoder writes is a form of the operand. -/
theorem hasForm_tokens {op : Operand} (h : op.check = .ok ()) : op.HasForm op.tokens := by
  have hdis := List.pairwise_append.1 op.pairwise_disjoint_fields
  refine ⟨h, fill 0 op.fields, ?_, shows_fill hdis.1 (fits_fields h) 0, rfl⟩
  rw [get_fill_of_disjoint fun field hmem =>
    hdis.2.2 field.1 (List.mem_map_of_mem hmem) _ (List.mem_singleton_self _)]
  decide

theorem encode_eq_ok_iff {op : Operand} {ts : List UInt32} :
    op.encode = .ok ts ↔ op.check = .ok () ∧ ts = op.tokens := by
  unfold encode
  cases op.check <;> simp [bind, Except.bind, pure, Except.pure, eq_comm]

theorem hasForm_of_encode {op : Operand} {ts : List UInt32} (h : op.encode = .ok ts) :
    op.HasForm ts := by
  obtain ⟨hcheck, rfl⟩ := encode_eq_ok_iff.1 h
  exact hasForm_tokens hcheck

theorem encodeDestination_eq_ok_iff {op : Operand} {ts : List UInt32} :
    op.encodeDestination = .ok ts ↔ op.isImmediate = false ∧ op.encode = .ok ts := by
  unfold encodeDestination
  cases op.isImmediate <;> simp

/-- An operand that was read can be written, in as many tokens. -/
theorem HasForm.encode_eq_ok {op : Operand} {ts : List UInt32} (h : op.HasForm ts) :
    op.encode = .ok op.tokens ∧ op.tokens.length = ts.length := by
  obtain ⟨hcheck, token, -, -, rfl⟩ := h
  exact ⟨encode_eq_ok_iff.2 ⟨hcheck, rfl⟩, rfl⟩

theorem HasForm.encodeDestination_eq_ok {op : Operand} {ts : List UInt32} (h : op.HasForm ts)
    (hdst : op.isImmediate = false) : op.encodeDestination = .ok op.tokens :=
  encodeDestination_eq_ok_iff.2 ⟨hdst, h.encode_eq_ok.1⟩

end Operand

end ShaderBytecode
