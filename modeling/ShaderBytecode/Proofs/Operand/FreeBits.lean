import ShaderBytecode.Proofs.Operand.Form

set_option autoImplicit false

/-! # The bits that say nothing about an operand

An operand's first token has bits that no field of the operand uses: some of those for the selection
of components, depending on how they are selected, and the form fields of indices that it does not
have (`Operand.freeBits`). The decoder passes over them and the encoder leaves them zero. They are
all that the forms of an operand leave open (`Operand.hasForm_iff_clear`), so writing what was read
gives the tokens that it was read from, with these bits cleared. -/

namespace ShaderBytecode

open BitRange

namespace Components

/-- The bits for the selection that say nothing about these components, as the mode and the fields
    of a swizzle divide them. -/
def freeBits : Components → List BitRange
  | .none | .scalar => OperandToken.selectionMode :: OperandToken.swizzle.toList
  | .mask _ => [OperandToken.swizzle.z, OperandToken.swizzle.w]
  | .swizzle _ => []
  | .select _ => [OperandToken.swizzle.y, OperandToken.swizzle.z, OperandToken.swizzle.w]

/-- The bit for the selection, by its number, says nothing about these components. -/
def IgnoresBit : Components → Nat → Prop
  | .none, i | .scalar, i => 2 ≤ i ∧ i ≤ 11
  | .mask _, i => 8 ≤ i ∧ i ≤ 11
  | .swizzle _, _ => False
  | .select _, i => 6 ≤ i ∧ i ≤ 11

theorem ignoresBit_iff {components : Components} {i : Nat} :
    components.IgnoresBit i ↔ ∃ r ∈ components.freeBits, r.Covers i := by
  cases components <;>
    simp only [IgnoresBit, freeBits, Lanes.toList, OperandToken.selectionMode,
      OperandToken.swizzle, Covers, List.mem_cons, List.not_mem_nil, or_false, exists_eq_or_imp,
      exists_eq_left, false_and, exists_false] <;>
    omega

/-- The fields of a first token and the free bits, if it has these components. -/
def ranges (components : Components) : List BitRange :=
  components.fields.map (·.1) ++ components.freeBits ++ ([OperandToken.kind, OperandToken.indexCount]
    ++ OperandToken.indexForms ++ [OperandToken.extended])

theorem pairwise_disjoint_ranges (components : Components) :
    components.ranges.Pairwise BitRange.Disjoint := by
  cases components with
  | swizzle lanes =>
      simp only [ranges, fields, freeBits, Lanes.zip, Lanes.toList, List.map_cons, List.map_nil]
      decide
  | _ =>
      simp only [ranges, fields, freeBits, List.map_cons, List.map_nil]
      decide

/-- They take up the whole token. -/
theorem exists_covers_ranges (components : Components) :
    ∀ i < 32, ∃ r ∈ components.ranges, r.Covers i := by
  cases components with
  | swizzle lanes =>
      simp only [ranges, fields, freeBits, Lanes.zip, Lanes.toList, List.map_cons, List.map_nil]
      decide
  | _ =>
      simp only [ranges, fields, freeBits, List.map_cons, List.map_nil]
      decide

end Components

namespace Operand

/-- The bits of the first token that say nothing about the operand. -/
def freeBits (op : Operand) : List BitRange :=
  op.components.freeBits ++ OperandToken.indexForms.drop op.indices.length

/-- The bit of the first token says nothing about the operand: it is one for another selection, or
    of a form field of an index that the operand does not have. -/
def IgnoresBit (op : Operand) (i : Nat) : Prop :=
  op.components.IgnoresBit i ∨ ∃ r ∈ OperandToken.indexForms.drop op.indices.length, r.Covers i

theorem ignoresBit_iff {op : Operand} {i : Nat} :
    op.IgnoresBit i ↔ ∃ r ∈ op.freeBits, r.Covers i := by
  simp only [IgnoresBit, Components.ignoresBit_iff, freeBits, List.mem_append, or_and_right,
    exists_or]

/-- What the first token shows: the fields, and that no extension follows. -/
def headFields (op : Operand) : List (BitRange × UInt32) :=
  op.fields ++ [(OperandToken.extended, 0)]

/-- The fields and the free bits divide the token, whatever indices there are. -/
theorem perm_ranges (op : Operand) :
    (op.headFields.map (·.1) ++ op.freeBits).Perm op.components.ranges := by
  refine List.perm_iff_count.2 fun r => ?_
  have hforms := congrArg (List.count r)
    (List.take_append_drop op.indices.length OperandToken.indexForms)
  rw [List.count_append] at hforms
  simp only [headFields, map_fst_fields, freeBits, Components.ranges, List.map_append,
    List.map_cons, List.map_nil, List.count_append]
  omega

theorem disjoint_freeBits (op : Operand) :
    ∀ r ∈ op.headFields.map (·.1), ∀ s ∈ op.freeBits, r.Disjoint s := by
  have hall := (op.perm_ranges.pairwise_iff BitRange.Disjoint.symm).2
    op.components.pairwise_disjoint_ranges
  exact (List.pairwise_append.1 hall).2.2

theorem exists_covers (op : Operand) :
    ∀ i < 32, ∃ r ∈ op.headFields.map (·.1) ++ op.freeBits, r.Covers i := by
  intro i hi
  obtain ⟨r, hr, hcovers⟩ := op.components.exists_covers_ranges i hi
  exact ⟨r, op.perm_ranges.mem_iff.2 hr, hcovers⟩

/-- What the encoder writes shows the fields, and has zeros for the free bits. -/
theorem shows_headFields_fill {op : Operand} (h : op.check = .ok ()) :
    Shows (fill 0 op.fields) op.headFields := by
  obtain ⟨-, token, hext, hshows, htokens⟩ := hasForm_tokens h
  rw [tokens_eq_cons] at htokens
  obtain ⟨rfl, -⟩ := List.cons.inj htokens
  simp [headFields, hshows, hext]

theorem clear_freeBits_fill (op : Operand) :
    clear op.freeBits (fill 0 op.fields) = fill 0 op.fields := by
  refine clear_fill_zero fun r hr => op.disjoint_freeBits r ?_
  rw [headFields, List.map_append]
  exact List.mem_append_left _ hr

/-- The forms of an operand are its tokens with any values for the free bits. -/
theorem hasForm_iff_clear {op : Operand} {ts : List UInt32} : op.HasForm ts ↔
    op.check = .ok () ∧ ∃ first, clear op.freeBits first = fill 0 op.fields
      ∧ ts = first :: op.payload := by
  refine and_congr_right fun hcheck => exists_congr fun first => ?_
  have hwritten := shows_headFields_fill hcheck
  have hzeros := op.clear_freeBits_fill
  rw [← and_assoc]
  refine and_congr_left fun _ => ?_
  constructor
  · rintro ⟨hext, hshows⟩
    have hfirst : Shows first op.headFields := by simp [headFields, hshows, hext]
    exact (clear_eq_clear_of_shows op.exists_covers hfirst hwritten).trans hzeros
  · intro hclear
    have hfirst := shows_of_clear_eq_clear op.disjoint_freeBits (hclear.trans hzeros.symm) hwritten
    simpa [headFields, and_comm] using hfirst

/-! ## Writing and reading -/

/-- The buffer grows by the operand's tokens, or the operand fails its checks. -/
theorem emit_eq_ok_iff {op : Operand} {out out' : List UInt32} :
    op.emit.run out = .ok () out' ↔ op.check = .ok () ∧ out' = out ++ op.tokens := by
  rw [emit, Emitter.run_append, encode]
  cases op.check <;> simp [bind, Except.bind, pure, Except.pure, eq_comm]

/-- What is written is read back between any other tokens. -/
theorem decode_tokens {op : Operand} (h : op.check = .ok ()) (before after : List UInt32) :
    decode.run (.ofTokens (before ++ op.tokens ++ after) before.length)
      = .ok op (.ofTokens (before ++ op.tokens ++ after) (before.length + op.tokens.length)) :=
  (reads_decode _ _ _).2 ⟨op.tokens,
    TokenCursor.advances_ofTokens_append before op.tokens after, hasForm_tokens h⟩

/-- What was read is written with the free bits of its first token cleared. -/
theorem tokens_eq_of_decode {op : Operand} {tokens : List UInt32} {p : Nat} {c : TokenCursor}
    (h : decode.run (.ofTokens tokens p) = .ok op c) : op.check = .ok ()
      ∧ ∃ first rest, (tokens.drop p).take (rest.length + 1) = first :: rest
        ∧ c = .ofTokens tokens (p + (rest.length + 1))
        ∧ op.tokens = clear op.freeBits first :: rest := by
  obtain ⟨ts, hadv, hform⟩ := (reads_decode _ _ _).1 h
  obtain ⟨hcheck, first, hclear, rfl⟩ := hasForm_iff_clear.1 hform
  obtain ⟨htake, hc⟩ := (TokenCursor.advances_ofTokens_iff (Nat.le_of_lt hadv.lt_length)).1 hadv
  refine ⟨hcheck, first, op.payload, htake, hc, ?_⟩
  rw [hclear, tokens_eq_cons]

/-- Writing and reading an operand are inverse to each other up to the free bits. An operand can be
    written exactly if it can be read from some tokens, and a refusal leaves the buffer as it was.
    What is written is as long as announced and read back as the operand, whatever stands around it.
    Writing what was read gives the tokens that it was read from, but for the ignored bits of the
    first one, which are zero in what is written. -/
theorem emit_inverts_decode (op : Operand) (out : List UInt32) :
    ((∃ out', op.emit.run out = .ok () out')
        ↔ ∃ tokens p c, decode.run (.ofTokens tokens p) = .ok op c)
      ∧ (∀ e out', op.emit.run out = .error e out' → out' = out)
      ∧ (∀ out', op.emit.run out = .ok () out' → ∃ ts, out' = out ++ ts
          ∧ ts.length = op.tokenCount
          ∧ ∀ before after, decode.run (.ofTokens (before ++ ts ++ after) before.length)
              = .ok op (.ofTokens (before ++ ts ++ after) (before.length + ts.length)))
      ∧ ∀ tokens p c, decode.run (.ofTokens tokens p) = .ok op c →
          ∃ first written rest, (tokens.drop p).take (rest.length + 1) = first :: rest
            ∧ c = .ofTokens tokens (p + (rest.length + 1))
            ∧ op.emit.run out = .ok () (out ++ written :: rest)
            ∧ ∀ i < 32, bitAt written i ↔ bitAt first i ∧ ¬ op.IgnoresBit i := by
  refine ⟨⟨?_, ?_⟩, ?_, ?_, ?_⟩
  · rintro ⟨out', hout⟩
    obtain ⟨hcheck, -⟩ := emit_eq_ok_iff.1 hout
    exact ⟨_, _, _, decode_tokens hcheck [] []⟩
  · rintro ⟨tokens, p, c, hread⟩
    obtain ⟨hcheck, -⟩ := tokens_eq_of_decode hread
    exact ⟨_, emit_eq_ok_iff.2 ⟨hcheck, rfl⟩⟩
  · intro e out' h
    rw [emit] at h
    exact Emitter.eq_of_run_append_eq_error h
  · intro out' h
    obtain ⟨hcheck, rfl⟩ := emit_eq_ok_iff.1 h
    exact ⟨op.tokens, rfl, op.length_tokens, decode_tokens hcheck⟩
  · intro tokens p c hread
    obtain ⟨hcheck, first, rest, htake, hc, htokens⟩ := tokens_eq_of_decode hread
    refine ⟨first, _, rest, htake, hc, emit_eq_ok_iff.2 ⟨hcheck, by rw [htokens]⟩, fun i hi => ?_⟩
    rw [bitAt_clear _ _ hi, ignoresBit_iff]
    by_cases hfree : ∃ r ∈ op.freeBits, r.Covers i
    · simp [hfree]
    · simp [hfree]

/-- A selection of one component and one index, with all bits set that mean nothing. -/
example :
    let op : Operand := ⟨.temp, .select 1, [.imm32 3], none⟩
    decode.run (.ofTokens [0x7E100FDA, 3] 0) = .ok op (.ofTokens [0x7E100FDA, 3] 2)
      ∧ op.encode = .ok [0x10001A, 3] :=
  ⟨rfl, rfl⟩

end Operand

end ShaderBytecode
