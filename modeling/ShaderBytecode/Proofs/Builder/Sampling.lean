import Mathlib.Data.List.Induction
import ShaderBytecode.Proofs.Builder.Step
import ShaderBytecode.Proofs.Program.RoundTrip

set_option autoImplicit false

/-! # Samples and what they sample

A sampling instruction repeats the dimension and the types of the resource that it samples. A
builder takes both from the first declaration of the slot among the instructions recorded so far,
and nothing that is recorded later comes before that declaration. So every sampling instruction
agrees with the declarations in front of it (`Instruction.SamplesAgree`), whatever was declared again
and whatever failed in between, and with the first declaration of its slot in the whole list
(`Instruction.SamplesDeclared`).

The finished program has one more declaration, which is not one of a resource. What is said of
samples is kept by it and by writing and reading the program, where the declaration and the sample
hold the dimension and the types at different places of their tokens. -/

namespace ShaderBytecode

namespace Instruction

/-! ## Agreement with earlier declarations -/

/-- What an instruction says of the resource in a slot, if it declares that. -/
def declares? (slot : UInt32) : Instruction → Option (ResourceDimension × Lanes ReturnType)
  | .dclResource declared dimension _ types =>
      if declared = slot then some (dimension, types) else none
  | _ => none

/-- What the first declaration of a slot says. -/
def declared? (insts : List Instruction) (slot : UInt32) :
    Option (ResourceDimension × Lanes ReturnType) :=
  insts.findSome? (declares? slot)

/-- A sampling instruction says of the resource in a slot what the instructions before it do; other
    instructions say nothing. -/
def AgreesWith (before : List Instruction) : Instruction → Prop
  | .sampleL dimension types _ _ texture _ _ => ∃ slot,
      texture = .register .resource slot .identity ∧ declared? before slot = some (dimension, types)
  | _ => True

/-- Every instruction agrees with the ones before it. -/
def SamplesAgree (insts : List Instruction) : Prop :=
  ∀ before inst, before ++ [inst] <+: insts → inst.AgreesWith before

theorem declared?_map_truncateFlags (insts : List Instruction) (slot : UInt32) :
    declared? (insts.map (·.truncateFlags)) slot = declared? insts slot := by
  have hsame : ∀ inst : Instruction, inst.truncateFlags.declares? slot = inst.declares? slot := by
    intro inst
    cases inst <;> rfl
  rw [declared?, List.findSome?_map]
  exact congrArg (insts.findSome? ·) (funext hsame)

namespace SamplesAgree

variable {insts before rest : List Instruction} {inst : Instruction}

theorem nil : SamplesAgree [] := by
  intro before inst h
  simp at h

theorem of_isPrefix (h : SamplesAgree insts) (hfront : before <+: insts) : SamplesAgree before :=
  fun front inst hinst => h front inst (hinst.trans hfront)

theorem concat_iff :
    SamplesAgree (insts ++ [inst]) ↔ SamplesAgree insts ∧ inst.AgreesWith insts := by
  constructor
  · intro h
    exact ⟨h.of_isPrefix (List.prefix_append _ _), h insts inst (List.prefix_refl _)⟩
  · rintro ⟨hinsts, hinst⟩ before last hfront
    rcases List.prefix_concat_iff.1 hfront with heq | hfront
    · obtain ⟨rfl, hlast⟩ := List.append_inj' heq rfl
      obtain rfl := List.singleton_inj.1 hlast
      exact hinst
    · exact hinsts before last hfront

/-- What is neither a sample nor a declaration of a resource can be put anywhere. -/
theorem insert (h : SamplesAgree (before ++ rest)) (hagrees : ∀ insts, inst.AgreesWith insts)
    (hdeclares : ∀ slot, inst.declares? slot = none) : SamplesAgree (before ++ inst :: rest) := by
  induction rest using List.reverseRecOn with
  | nil =>
      rw [List.append_nil] at h
      exact concat_iff.2 ⟨h, hagrees _⟩
  | append_singleton rest last ih =>
      rw [← List.append_assoc, concat_iff] at h
      have hsame : declared? (before ++ inst :: rest) = declared? (before ++ rest) := by
        funext slot
        simp [declared?, hdeclares]
      rw [← List.cons_append, ← List.append_assoc, concat_iff]
      refine ⟨ih h.1, ?_⟩
      unfold AgreesWith at h ⊢
      rw [hsame]
      exact h.2

/-- Global flags have nothing to do with it. -/
theorem map_truncateFlags (h : SamplesAgree insts) :
    SamplesAgree (insts.map (·.truncateFlags)) := by
  induction insts using List.reverseRecOn with
  | nil => exact nil
  | append_singleton insts last ih =>
      obtain ⟨hinsts, hlast⟩ := concat_iff.1 h
      rw [List.map_append, List.map_singleton, concat_iff]
      refine ⟨ih hinsts, ?_⟩
      cases last with
      | sampleL =>
          obtain ⟨slot, htexture, hdeclared⟩ := hlast
          refine ⟨slot, htexture, ?_⟩
          rw [declared?_map_truncateFlags]
          exact hdeclared
      | _ => trivial

end SamplesAgree

/-! ## Places in the list -/

/-- Instruction number `place` is the first to declare the resource in the slot. -/
structure DeclaresFirst (insts : List Instruction) (slot : UInt32) (dimension : ResourceDimension)
    (types : Lanes ReturnType) (place : Nat) : Prop where
  declares : ∃ sampleCount, insts[place]? = some (.dclResource slot dimension sampleCount types)
  first : ∀ other dimension' sampleCount types',
    insts[other]? = some (.dclResource slot dimension' sampleCount types') → place ≤ other

/-- Every sampling instruction samples the resource in some slot, and agrees with the slot's first
    declaration, which stands before it. -/
def SamplesDeclared (insts : List Instruction) : Prop :=
  ∀ place dimension types dst coord texture sampler lod,
    insts[place]? = some (.sampleL dimension types dst coord texture sampler lod) →
    ∃ slot declaration, texture = .register .resource slot .identity ∧ declaration < place
      ∧ DeclaresFirst insts slot dimension types declaration

theorem declares?_eq_some_iff {slot : UInt32} {inst : Instruction} {dimension : ResourceDimension}
    {types : Lanes ReturnType} : inst.declares? slot = some (dimension, types)
      ↔ ∃ sampleCount, inst = .dclResource slot dimension sampleCount types := by
  cases inst <;> simp [declares?]

/-- The first declaration that is found in the front of a list is the first in the whole list. -/
theorem exists_declaresFirst {insts : List Instruction} {slot : UInt32}
    {dimension : ResourceDimension} {types : Lanes ReturnType} {place : Nat}
    (h : declared? (insts.take place) slot = some (dimension, types)) :
    ∃ declaration < place, DeclaresFirst insts slot dimension types declaration := by
  obtain ⟨before, inst, after, hsplit, hinst, hbefore⟩ := List.findSome?_eq_some_iff.1 h
  obtain ⟨sampleCount, rfl⟩ := declares?_eq_some_iff.1 hinst
  have hinsts : insts = before
      ++ .dclResource slot dimension sampleCount types :: (after ++ insts.drop place) := by
    conv_lhs => rw [← List.take_append_drop place insts, hsplit, List.append_assoc,
      List.cons_append]
  have hlength := congrArg List.length hsplit
  rw [List.length_take, List.length_append, List.length_cons] at hlength
  refine ⟨before.length, by omega, ⟨sampleCount, ?_⟩, ?_⟩
  · rw [hinsts, List.getElem?_append_right (Nat.le_refl _), Nat.sub_self]
    rfl
  · intro other dimension' sampleCount' types' hother
    by_contra hlt
    rw [hinsts, List.getElem?_append_left (Nat.not_le.1 hlt)] at hother
    -- Whatever stands before the one that was found declares nothing for the slot.
    have hnone := hbefore _ (List.mem_of_getElem? hother)
    simp [declares?] at hnone

theorem SamplesAgree.samplesDeclared {insts : List Instruction} (h : SamplesAgree insts) :
    SamplesDeclared insts := by
  intro place dimension types dst coord texture sampler lod hplace
  have hfront : insts.take place ++ [.sampleL dimension types dst coord texture sampler lod]
      <+: insts := by
    obtain ⟨hlt, hinst⟩ := List.getElem?_eq_some_iff.1 hplace
    rw [← hinst, List.take_append_getElem]
    exact List.take_prefix _ _
  obtain ⟨slot, htexture, hdeclared⟩ := h _ _ hfront
  obtain ⟨declaration, hlt, hfirst⟩ := exists_declaresFirst hdeclared
  exact ⟨slot, declaration, htexture, hlt, hfirst⟩

/-! ## Extended opcode tokens -/

/-- Read the extended opcode tokens of instruction number `place`: pass over the instructions before
    it and its first token. -/
def decodeExtensions (place : Nat) : Decoder (ResourceDimension × Lanes ReturnType) := do
  let _ ← decodeUpTo place
  let _ ← Decoder.token
  let dimension ← decodeDimensionExtension
  let types ← decodeReturnTypesExtension
  return (dimension, types)

/-- In a stream of forms the extended opcode tokens of a sampling instruction are read as its
    dimension and its types. -/
theorem HaveForms.decodeExtensions {insts : List Instruction} {tss : List (List UInt32)}
    (h : HaveForms insts tss) {place : Nat} {dimension : ResourceDimension}
    {types : Lanes ReturnType} {dst coord texture sampler lod : Operand}
    (hplace : insts[place]? = some (.sampleL dimension types dst coord texture sampler lod))
    (p : Nat) :
    ∃ c, (Instruction.decodeExtensions place).run ⟨p, tss.flatten⟩ = .ok (dimension, types) c := by
  obtain ⟨hlt, hinst⟩ := List.getElem?_eq_some_iff.1 hplace
  have hlt' : place < tss.length := h.length_eq ▸ hlt
  obtain ⟨head, body, hts, -, hbody⟩ := List.Forall₂.get h hlt hlt'
  rw [List.get_eq_getElem, hinst] at hbody
  -- Of the sample's form only the two tokens behind the first matter.
  obtain ⟨-, -, -, first, second, us, vs, ws, xs, ys, hfirst, hsecond, -, -, -, -, -, rfl⟩ := hbody
  have hrest : (tss.drop place).flatten = [head] ++ ([first] ++ ([second]
      ++ (us ++ (vs ++ (ws ++ (xs ++ ys))) ++ (tss.drop (place + 1)).flatten))) := by
    rw [List.drop_eq_getElem_cons hlt', List.flatten_cons]
    exact congrArg (· ++ (tss.drop (place + 1)).flatten) hts
  have hread := Decoder.reads_token.bind fun _ =>
    reads_decodeDimensionExtension.bind fun dimension =>
      reads_decodeReturnTypesExtension.bind_pure (Prod.mk dimension)
  have hadvances : TokenCursor.Advances
      ⟨p + (tss.take place).flatten.length, (tss.drop place).flatten⟩
      ([head] ++ ([first] ++ [second])) ⟨p + (tss.take place).flatten.length + 3,
        us ++ (vs ++ (ws ++ (xs ++ ys))) ++ (tss.drop (place + 1)).flatten⟩ := by
    refine ⟨?_, rfl⟩
    simp only [hrest, List.append_assoc]
  have hrun := (hread _ (dimension, types) _).2 ⟨_, hadvances, head, [head], _, rfl,
    ⟨dimension, [first], [second], ⟨first, hfirst, rfl⟩, ⟨types, ⟨second, hsecond, rfl⟩, rfl⟩, rfl⟩,
    rfl⟩
  refine ⟨_, Eq.trans ?_ hrun⟩
  rw [Instruction.decodeExtensions, EStateM.run_bind, h.decodeUpTo_take (Nat.le_of_lt hlt)]

end Instruction

namespace ProgramBuilder

/-! ## Steps -/

theorem declaredResource?_eq (b : ProgramBuilder) :
    b.declaredResource? = Instruction.declared? b.instructions := rfl

/-- A step appends no instruction, or one that agrees with those before it. -/
theorem instructions_of_ok {b b' : ProgramBuilder} {call : Call} {r : Option UInt32}
    (h : call.perform.run b = .ok r b') : b'.instructions = b.instructions
      ∨ ∃ inst, b'.instructions = b.instructions ++ [inst] ∧ inst.AgreesWith b.instructions := by
  have hcompute {step : Building Unit} {dst : Operand} {srcs : List Operand} {inst : Instruction}
      (heq : step = compute dst srcs inst) (hrun : (Call.unnumbered step).run b = .ok r b')
      (hagrees : inst.AgreesWith b.instructions) : ∃ inst,
        b'.instructions = b.instructions ++ [inst] ∧ inst.AgreesWith b.instructions := by
    subst heq
    obtain ⟨_, c, hrun', hr⟩ := run_bind_eq_ok.1 hrun
    obtain ⟨-, rfl⟩ := EStateM.Result.ok.inj hr
    obtain ⟨-, -, rfl⟩ := eq_record_of_compute_ok hrun'
    exact ⟨inst, rfl, hagrees⟩
  cases call with
  | allocTemp =>
      obtain ⟨index, c, halloc, hr⟩ := run_bind_eq_ok.1 h
      obtain ⟨-, rfl⟩ := EStateM.Result.ok.inj hr
      obtain ⟨-, -, rfl⟩ := eq_reserve_of_allocTemp_ok halloc
      exact .inl rfl
  | dclTemps count =>
      obtain ⟨_, c, hdcl, hr⟩ := run_bind_eq_ok.1 h
      obtain ⟨-, rfl⟩ := EStateM.Result.ok.inj hr
      obtain ⟨-, rfl⟩ := eq_reserve_of_dclTemps_ok hdcl
      exact .inl rfl
  | mov dst src => exact .inr (hcompute (mov_eq dst src) h trivial)
  | add dst a c => exact .inr (hcompute (add_eq dst a c) h trivial)
  | mul dst a c => exact .inr (hcompute (mul_eq dst a c) h trivial)
  | mad dst a c d => exact .inr (hcompute (mad_eq dst a c d) h trivial)
  | sampleL dst coord texture sampler lod =>
      obtain ⟨_, c, hsample, hr⟩ := run_bind_eq_ok.1 h
      obtain ⟨dimension, types, hdeclared, hrun⟩ := exists_compute_of_sampleL_ok hsample
      rw [declaredResource?_eq] at hdeclared
      exact .inr (hcompute rfl (run_bind_eq_ok.2 ⟨_, c, hrun, hr⟩) ⟨texture, rfl, hdeclared⟩)
  | _ =>
      obtain ⟨-, rfl⟩ := EStateM.Result.ok.inj h
      exact .inr ⟨_, rfl, trivial⟩

/-- A step keeps all samples in agreement with what they sample. -/
theorem samplesAgree_after {b : ProgramBuilder} (h : Instruction.SamplesAgree b.instructions)
    (call : Call) : Instruction.SamplesAgree (b.after call).instructions := by
  unfold after
  cases hrun : call.perform.run b with
  | ok r b' =>
      rcases instructions_of_ok hrun with hsame | ⟨inst, happend, hagrees⟩
      · exact hsame ▸ h
      · exact happend ▸ Instruction.SamplesAgree.concat_iff.2 ⟨h, hagrees⟩
  | error e b' =>
      -- A step that fails has noted operands at most.
      rw [eq_noteAll_of_error hrun, (noteAll_fields b _).2.2.1]
      exact h

theorem samplesAgree_afterAll {b : ProgramBuilder} (h : Instruction.SamplesAgree b.instructions)
    (calls : List Call) : Instruction.SamplesAgree (b.afterAll calls).instructions := by
  induction calls generalizing b with
  | nil => exact h
  | cons call calls ih => exact ih (samplesAgree_after h call)

/-- The declaration of temporary registers changes nothing. -/
theorem samplesAgree_program {b : ProgramBuilder} (h : Instruction.SamplesAgree b.instructions) :
    Instruction.SamplesAgree b.program.instructions := by
  show Instruction.SamplesAgree b.withTemps
  unfold withTemps
  split
  · exact h
  · refine Instruction.SamplesAgree.insert ?_ (fun _ => trivial) fun _ => rfl
    rw [List.takeWhile_append_dropWhile]
    exact h

/-- **Every sample agrees with the declaration of what it samples.** After any steps, in any order
    and whether or not they succeed, a sampling instruction samples the resource in some slot, a
    declaration of that slot stands before it, and it has the dimension and the types of the first
    such declaration; and so it is in the finished program. Once that is written, it is read back if
    its length can be told, and whatever is read of it agrees too. The extended opcode tokens of a
    sampling instruction are read as its dimension and its types. -/
theorem samples_declared (stage : ShaderStage) (model : ShaderModel) (calls : List Call) :
    let b := afterAll { stage, model } calls
    Instruction.SamplesDeclared b.instructions ∧ Instruction.SamplesDeclared b.program.instructions
      ∧ ∀ tokens, b.finish = .ok tokens →
        (tokens.length < 2 ^ 32 → ∃ q m,
            TokenProgram.ofBytes (LittleEndian.ofWords tokens) = .ok q ∧ q.decode = .ok m
              ∧ m.instructions = b.program.instructions.map (·.truncateFlags))
          ∧ (∀ q m, TokenProgram.ofBytes (LittleEndian.ofWords tokens) = .ok q → q.decode = .ok m →
            m.instructions <+: b.program.instructions.map (·.truncateFlags)
              ∧ Instruction.SamplesDeclared m.instructions)
          ∧ ∀ place dimension types dst coord texture sampler lod,
            b.program.instructions[place]?
                = some (.sampleL dimension types dst coord texture sampler lod) →
              ∃ c, (Instruction.decodeExtensions place).run (.ofTokens tokens 2)
                = .ok (dimension, types) c := by
  intro b
  have hrecorded : Instruction.SamplesAgree b.instructions :=
    samplesAgree_afterAll .nil calls
  have hprogram := samplesAgree_program hrecorded
  refine ⟨hrecorded.samplesDeclared, hprogram.samplesDeclared, fun tokens hfinish => ?_⟩
  obtain ⟨version, tss, -, htss, htokens⟩ := Program.encode_eq_ok_iff.1 hfinish
  have hforms := Instruction.haveForms_of_encode htss
  refine ⟨fun hlen => ?_, fun q m hq hm => ?_, ?_⟩
  · obtain ⟨hbytes, -, hdecode⟩ := Program.decode_ofTokens_of_encode hfinish hlen
    exact ⟨_, _, hbytes, hdecode, rfl⟩
  · obtain ⟨-, hq, -⟩ := TokenProgram.ofBytes_eq_ok_iff.1 hq
    obtain ⟨hframe, -, -, tss', hforms', hread⟩ := TokenProgram.decode_eq_ok_iff.1 hm
    have hstream : q.tokens.drop 2 = tss.flatten := by
      rw [hq, LittleEndian.toWords_ofWords, htokens]
      rfl
    have hfront : m.instructions <+: b.program.instructions.map (·.truncateFlags) :=
      hforms.isPrefix hforms' (by rw [← hstream, ← hread, q.drop_declaredTokens_append hframe])
    exact ⟨hfront, (hprogram.map_truncateFlags.of_isPrefix hfront).samplesDeclared⟩
  · intro place dimension types dst coord texture sampler lod hplace
    have htruncated : (b.program.instructions.map (·.truncateFlags))[place]?
        = some (.sampleL dimension types dst coord texture sampler lod) := by
      rw [List.getElem?_map, hplace]
      rfl
    rw [htokens]
    exact hforms.decodeExtensions htruncated _

/-- A slot is declared again after a sample of another slot has failed; the first declaration
    counts. -/
example :
    let place := Operand.register .temp 0 .identity
    let target := Operand.register .output 0 .fullMask
    let calls := [.dclResource 3 .texture2D .float, .sampleL target place 5 0 place,
      .dclResource 3 .buffer .uint, .sampleL target place 3 0 place]
    (afterAll { stage := .pixel, model := ⟨5, 0⟩ } calls).instructions
      = [.dclResource 3 .texture2D 0 (.all .float), .dclResource 3 .buffer 0 (.all .uint),
        .sampleL .texture2D (.all .float) target place (.register .resource 3 .identity)
          (.sampler 0) place] := by
  decide

end ProgramBuilder

end ShaderBytecode
