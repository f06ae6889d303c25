import ShaderBytecode.Proofs.Instruction.Encoding

set_option autoImplicit false

/-! # When an instruction has no token form

An instruction whose operands may stand where they do (`Instruction.WellPlaced`) can be written
exactly if each operand can, and if not the error blames an operand. Nothing else can go wrong: the
longest body has 53 tokens (`Instruction.HasBody.length_le`), so the length always fits its field.

Writers are put together from smaller ones, and so is what they refuse: `Writes x P` says of a
writer's result both when it succeeds and how it fails, and is closed under sequencing. -/

namespace ShaderBytecode

/-- The error is about an operand. -/
def EmitError.BlamesOperand (e : EmitError) : Prop := ∃ fault, e = .badOperand fault

/-- The result is a success if the condition holds; if not, the error blames an operand. -/
def Writes {α : Type} (x : Except EmitError α) (P : Prop) : Prop :=
  match x with
  | .ok _ => P
  | .error e => ¬ P ∧ e.BlamesOperand

namespace Writes

variable {α β : Type} {x : Except EmitError α} {P Q : Prop}

theorem pure (a : α) : Writes (Pure.pure a) True := trivial

theorem congr (h : Writes x P) (hiff : P ↔ Q) : Writes x Q := propext hiff ▸ h

/-- The second result is looked at only if the first is a success. -/
theorem bind {f : α → Except EmitError β} (hx : Writes x P)
    (hf : ∀ a, x = .ok a → Writes (f a) Q) : Writes (x >>= f) (P ∧ Q) := by
  cases x with
  | error e =>
      obtain ⟨hP, hfault⟩ := hx
      exact ⟨fun hPQ => hP hPQ.1, hfault⟩
  | ok a =>
      have hfa := hf a rfl
      show Writes (f a) (P ∧ Q)
      cases hresult : f a with
      | ok b =>
          rw [hresult] at hfa
          exact ⟨hx, hfa⟩
      | error e =>
          rw [hresult] at hfa
          exact ⟨fun hPQ => hfa.1 hPQ.2, hfa.2⟩

theorem exists_ok_iff (h : Writes x P) : (∃ a, x = .ok a) ↔ P := by
  cases x with
  | ok a => exact iff_of_true ⟨a, rfl⟩ h
  | error e => exact iff_of_false (fun ⟨_, ha⟩ => nomatch ha) h.1

theorem onlyFails (h : Writes x P) : OnlyFails EmitError.BlamesOperand x := by
  intro e he
  obtain rfl : x = .error e := he
  exact h.2

/-- A list is written if each member can be. -/
theorem mapM {f : α → Except EmitError β} {p : α → Prop} {as : List α}
    (h : ∀ a ∈ as, Writes (f a) (p a)) : Writes (as.mapM f) (∀ a ∈ as, p a) := by
  induction as with
  | nil => exact (pure []).congr (by simp)
  | cons a as ih =>
      obtain ⟨ha, has⟩ := List.forall_mem_cons.1 h
      rw [List.mapM_cons, List.forall_mem_cons]
      exact ha.bind fun b _ => ((ih has).bind fun bs _ => .pure (b :: bs)).congr
        (iff_of_eq (and_true _))

end Writes

namespace Operand

/-! ## Operands -/

theorem onlyFails_checkImmediate (op : Operand) :
    OnlyFails EmitError.BlamesOperand op.checkImmediate := by
  unfold checkImmediate
  split
  · split
    · exact .pure ()
    · exact .throw ⟨_, rfl⟩
  · split
    · exact .pure ()
    · exact .throw ⟨_, rfl⟩
  · exact .throw ⟨_, rfl⟩
  · exact .throw ⟨_, rfl⟩
  · exact .throw ⟨_, rfl⟩
  · exact .pure ()

theorem onlyFails_checkComponents (components : Components) :
    OnlyFails EmitError.BlamesOperand components.check := by
  cases components with
  | none | scalar => exact .pure ()
  | mask | swizzle | select =>
      simp only [Components.check]
      split
      · exact .pure ()
      · exact .throw ⟨_, rfl⟩

/-- Every check of an operand blames the operand. -/
theorem onlyFails_check (op : Operand) :
    OnlyFails EmitError.BlamesOperand op.check :=
  (onlyFails_checkComponents op.components).bind fun _ =>
    .refuse ⟨_, rfl⟩ (onlyFails_checkImmediate op)

theorem writes_encode (op : Operand) : Writes op.encode (op.check = .ok ()) := by
  unfold encode
  cases hcheck : op.check with
  | ok => exact rfl
  | error e => exact ⟨nofun, op.onlyFails_check e hcheck⟩

theorem writes_encodeDestination {op : Operand} (h : op.isImmediate = false) :
    Writes op.encodeDestination (op.check = .ok ()) := by
  unfold encodeDestination
  rw [h]
  exact op.writes_encode

/-- How many tokens an operand takes at most: one for itself, two for each of three indices and two
    for each of four values. -/
theorem tokenCount_le {op : Operand} (h : op.check = .ok ()) :
    op.tokenCount ≤ 15 ∧ (op.isImmediate = false → op.tokenCount ≤ 7) := by
  obtain ⟨-, hlen, himmediate⟩ := (check_eq_ok_iff op).1 h
  have hindices : op.indexTokenCount ≤ 2 * op.indices.length := by
    unfold indexTokenCount
    induction op.indices with
    | nil => exact Nat.le_refl _
    | cons index rest ih =>
        have hindex : index.tokenCount ≤ 2 := by
          cases index <;> simp [RegisterIndex.tokenCount]
        rw [List.foldr_cons, List.length_cons]
        omega
  have hvalues : op.components.valueCount ≤ 4 := by
    cases op.components <;> simp [Components.valueCount]
  rw [checkImmediate_eq_ok_iff] at himmediate
  unfold tokenCount isImmediate
  cases hkind : op.kind with
  | immediate32 =>
      obtain ⟨values, hcount, hsome⟩ := by simpa only [hkind] using himmediate
      have htokens : (op.immediate.map (·.tokenCount)).getD 0 = values.length := by rw [hsome]; rfl
      exact ⟨by omega, nofun⟩
  | immediate64 =>
      obtain ⟨values, hcount, hsome⟩ := by simpa only [hkind] using himmediate
      have htokens : (op.immediate.map (·.tokenCount)).getD 0 = 2 * values.length := by
        rw [hsome]; rfl
      exact ⟨by omega, nofun⟩
  | _ =>
      have hnone : op.immediate = none := by simpa only [hkind] using himmediate
      have htokens : (op.immediate.map (·.tokenCount)).getD 0 = 0 := by rw [hnone]; rfl
      exact ⟨by omega, fun _ => by omega⟩

theorem HasForm.length_le {op : Operand} {ts : List UInt32} (h : op.HasForm ts) :
    ts.length ≤ 15 ∧ (op.isImmediate = false → ts.length ≤ 7) := by
  have hlen : ts.length = op.tokenCount := by rw [← h.encode_eq_ok.2, length_tokens]
  rw [hlen]
  exact tokenCount_le h.1

/-- An operand of a kind that holds no values takes few tokens. -/
theorem HasForm.length_le_of_kind {op : Operand} {ts : List UInt32} {kind : OperandKind}
    (h : op.HasForm ts) (hkind : op.kind = kind) (himmediate : kind.isImmediate = false) :
    ts.length ≤ 7 :=
  h.length_le.2 (show op.kind.isImmediate = false from hkind ▸ himmediate)

theorem Names.length_le {kind : OperandKind} {indices : List RegisterIndex} {ts : List UInt32}
    (h : Names kind indices ts) (himmediate : kind.isImmediate = false) : ts.length ≤ 7 := by
  obtain ⟨op, hkind, -, hform⟩ := h
  exact hform.length_le_of_kind hkind himmediate

end Operand

namespace Instruction

/-! ## The longest instruction -/

/-- No body is longer than that of a sampling instruction or a product and sum of values. -/
theorem HasBody.length_le {inst : Instruction} {ts : List UInt32} (h : inst.HasBody ts) :
    ts.length ≤ 53 := by
  cases inst with
  | dclGlobalFlags flags | ret =>
      obtain rfl : ts = [] := h
      exact Nat.zero_le _
  | dclInput operand | dclOutput operand =>
      have hform : operand.HasForm ts := h
      exact Nat.le_trans hform.length_le.1 (by decide)
  | dclOutputSiv operand name =>
      obtain ⟨us, token, hus, -, rfl⟩ := h
      have := hus.length_le.1
      rw [List.length_append, List.length_singleton]
      omega
  | dclTemps count =>
      obtain rfl : ts = [count] := h
      exact Nat.le_add_left _ _
  | dclConstantBuffer slot size access =>
      have hnames : Operand.Names _ _ ts := h
      exact Nat.le_trans (hnames.length_le rfl) (by decide)
  | dclSampler slot mode =>
      have hnames : Operand.Names _ _ ts := h
      exact Nat.le_trans (hnames.length_le rfl) (by decide)
  | dclResource slot dimension sampleCount returnTypes =>
      obtain ⟨-, us, token, hus, -, rfl⟩ := h
      have := hus.length_le rfl
      rw [List.length_append, List.length_singleton]
      omega
  | mov dst src =>
      obtain ⟨us, vs, hdst, hus, hvs, rfl⟩ := h
      have := hus.length_le.2 hdst
      have := hvs.length_le.1
      rw [List.length_append]
      omega
  | add dst a b | mul dst a b =>
      obtain ⟨us, vs, ws, hdst, hus, hvs, hws, rfl⟩ := h
      have := hus.length_le.2 hdst
      have := hvs.length_le.1
      have := hws.length_le.1
      simp only [List.length_append]
      omega
  | mad dst a b c =>
      obtain ⟨us, vs, ws, xs, hdst, hus, hvs, hws, hxs, rfl⟩ := h
      have := hus.length_le.2 hdst
      have := hvs.length_le.1
      have := hws.length_le.1
      have := hxs.length_le.1
      simp only [List.length_append]
      omega
  | sampleL dimension returnTypes dst coord texture sampler lod =>
      obtain ⟨hdst, htexture, hsampler, first, second, us, vs, ws, xs, ys, -, -, hus, hvs, hws, hxs,
        hys, rfl⟩ := h
      have := hus.length_le.2 hdst
      have := hvs.length_le.1
      have := hws.length_le_of_kind htexture rfl
      have := hxs.length_le_of_kind hsampler rfl
      have := hys.length_le.1
      simp only [List.length_append, List.length_cons]
      omega

/-- What the encoder writes behind the first token leaves room in the length field. -/
theorem not_too_long_of_encodeBody {inst : Instruction} {body : List UInt32}
    (h : inst.encodeBody = .ok body) : ¬ 1 + body.length > OpcodeToken.maxLength := by
  have := (hasBody_of_encodeBody h).length_le
  unfold OpcodeToken.maxLength
  omega

/-! ## Refusals -/

/-- The operands may stand where they do, and a resource has at most one sample. -/
def WellPlaced : Instruction → Prop
  | .dclResource _ _ sampleCount _ => sampleCount ≤ 1
  | .mov dst _ | .add dst _ _ | .mul dst _ _ | .mad dst _ _ _ => dst.isImmediate = false
  | .sampleL _ _ dst _ texture sampler _ =>
      dst.isImmediate = false ∧ texture.kind = .resource ∧ sampler.kind = .sampler
  | _ => True

/-- The tokens behind the first exist exactly if the operands pass their checks. -/
theorem writes_encodeBody {inst : Instruction} (h : inst.WellPlaced) :
    Writes inst.encodeBody (∀ op ∈ inst.operands, op.check = .ok ()) := by
  have hdst := @Operand.writes_encodeDestination
  have hsrc := Operand.writes_encode
  cases inst with
  | dclInput operand | dclOutput operand =>
      exact (hsrc operand).congr (by simp [operands])
  | dclOutputSiv operand name =>
      exact ((hsrc operand).bind fun us _ => .pure _).congr (by simp [operands])
  | dclResource slot dimension sampleCount returnTypes =>
      simp only [encodeBody, if_neg (UInt32.not_lt.2 h)]
      exact (Writes.pure _).congr (by simp [operands])
  | mov dst src =>
      exact ((hdst h).bind fun us _ => (hsrc src).bind fun vs _ => .pure _).congr
        (by simp [operands])
  | add dst a b | mul dst a b =>
      exact ((hdst h).bind fun us _ => (hsrc a).bind fun vs _ => (hsrc b).bind fun ws _ =>
        .pure _).congr (by simp [operands])
  | mad dst a b c =>
      exact ((hdst h).bind fun us _ => (hsrc a).bind fun vs _ => (hsrc b).bind fun ws _ =>
        (hsrc c).bind fun xs _ => .pure _).congr (by simp [operands])
  | sampleL dimension returnTypes dst coord texture sampler lod =>
      obtain ⟨himmediate, htexture, hsampler⟩ := h
      simp only [encodeBody, checkKind_eq_ok_iff.2 htexture, checkKind_eq_ok_iff.2 hsampler]
      exact ((hdst himmediate).bind fun us _ => (hsrc coord).bind fun vs _ =>
        (hsrc texture).bind fun ws _ => (hsrc sampler).bind fun xs _ => (hsrc lod).bind fun ys _ =>
          .pure _).congr (by simp [operands])
  | _ => exact (Writes.pure _).congr (by simp [operands])

/-- An instruction is written exactly if its operands pass their checks. -/
theorem writes_encode {inst : Instruction} (h : inst.WellPlaced) :
    Writes inst.encode (∀ op ∈ inst.operands, op.check = .ok ()) := by
  refine ((writes_encodeBody h).bind (Q := True) fun body hbody => ?_).congr
    (iff_of_eq (and_true _))
  dsimp only
  rw [if_neg (not_too_long_of_encodeBody hbody)]
  exact .pure _

end Instruction

end ShaderBytecode
