import Mathlib.Control.Monad.Basic
import ShaderBytecode.Proofs.Operand.Form
import ShaderBytecode.Shader

set_option autoImplicit false

/-! # Which chunk fills a role

A shader is put together in one pass over all chunks, and what the pass keeps is the last chunk of
a role: the last resource table, the last signature of either form, the last program of shader
model 5. A container that is asked for one of them answers with the first. Both take the first
program of shader model 4, and only if there is none of model 5.

The pass is followed by an invariant: after any number of chunks the roles reflect exactly these
chunks (`ShaderRoles.Reflects`). The two views of a container then agree if and only if in each role
the first chunk and the last are read alike (`Container.Unambiguous`), as they are when no role is
filled twice. -/

namespace ShaderBytecode

/-! ## The last chunk of a role -/

/-- The last chunk that has one of the given tags. -/
def lastChunk? (tags : List Tag) (chunks : List Chunk) : Option Chunk :=
  (chunks.filter fun chunk => tags.contains chunk.tag).getLast?

@[simp] theorem lastChunk?_nil (tags : List Tag) : lastChunk? tags [] = none := rfl

theorem lastChunk?_append_of_mem {tags : List Tag} {chunk : Chunk} (h : chunk.tag ∈ tags)
    (chunks : List Chunk) : lastChunk? tags (chunks ++ [chunk]) = some chunk := by
  unfold lastChunk?
  rw [List.filter_append, List.filter_cons_of_pos (by simpa using h), List.filter_nil,
    List.getLast?_concat]

theorem lastChunk?_append_of_notMem {tags : List Tag} {chunk : Chunk} (h : chunk.tag ∉ tags)
    (chunks : List Chunk) : lastChunk? tags (chunks ++ [chunk]) = lastChunk? tags chunks := by
  unfold lastChunk?
  rw [List.filter_append, List.filter_cons_of_neg (by simpa using h), List.filter_nil,
    List.append_nil]

namespace Chunk

/-- The resource table in a chunk. -/
def resources (chunk : Chunk) : Except ContainerError ResourceTable :=
  ResourceTable.parse chunk.data

/-- The signature in a chunk. -/
def signature (chunk : Chunk) : Except ContainerError Signature :=
  Signature.parseTagged chunk.tag chunk.data

/-- A chunk that is read in one pass is read without an error. -/
structure Readable (chunk : Chunk) : Prop where
  resources : chunk.tag ∈ [.rdef] → ∃ table, chunk.resources = .ok table
  signature : chunk.tag ∈ [.isgn, .isg1, .osgn, .osg1] →
    ∃ signature, chunk.signature = .ok signature

end Chunk

/-! ## One pass over the chunks -/

namespace ShaderRoles

variable {roles roles' : ShaderRoles} {chunks : List Chunk} {chunk : Chunk}

/-- Everything that one more chunk can do to the roles. -/
theorem add_cases (h : roles.add chunk = .ok roles') :
    (chunk.tag ∈ [.rdef] ∧ ∃ table, chunk.resources = .ok table
        ∧ roles' = { roles with resources := some table })
      ∨ (chunk.tag ∈ [.isgn, .isg1] ∧ ∃ signature, chunk.signature = .ok signature
        ∧ roles' = { roles with inputs := some signature })
      ∨ (chunk.tag ∈ [.osgn, .osg1] ∧ ∃ signature, chunk.signature = .ok signature
        ∧ roles' = { roles with outputs := some signature })
      ∨ (chunk.tag ∈ [.shex] ∧ roles' = { roles with program := some chunk })
      ∨ (chunk.tag ∈ [.shdr] ∧ roles' = { roles with program := roles.program <|> some chunk })
      ∨ (chunk.tag ∉ [.rdef, .isgn, .isg1, .osgn, .osg1, .shex, .shdr] ∧ roles' = roles) := by
  unfold add at h
  dsimp only at h
  split at h
  · next htag =>
      obtain ⟨table, htable, h⟩ := bind_eq_ok_iff.1 h
      exact .inl ⟨by simp [htag], table, htable, (Except.ok.inj h).symm⟩
  · split at h
    · next htag =>
        obtain ⟨signature, hsignature, h⟩ := bind_eq_ok_iff.1 h
        exact .inr (.inl ⟨by simpa using htag, signature, hsignature, (Except.ok.inj h).symm⟩)
    · split at h
      · next htag =>
          obtain ⟨signature, hsignature, h⟩ := bind_eq_ok_iff.1 h
          exact .inr (.inr (.inl ⟨by simpa using htag, signature, hsignature,
            (Except.ok.inj h).symm⟩))
      · split at h
        · next htag =>
            exact .inr (.inr (.inr (.inl ⟨by simp [htag], (Except.ok.inj h).symm⟩)))
        · split at h
          · next htag =>
              exact .inr (.inr (.inr (.inr (.inl ⟨by simp [htag], (Except.ok.inj h).symm⟩))))
          · next hrdef hinputs houtputs hshex hshdr =>
              refine .inr (.inr (.inr (.inr (.inr ⟨?_, (Except.ok.inj h).symm⟩))))
              simp_all

/-- A tag of one role is no tag of another. -/
theorem notMem_of_mem {tag : Tag} {tags others : List Tag} (h : tag ∈ tags)
    (hdis : ∀ t ∈ tags, t ∉ others) : tag ∉ others :=
  hdis tag h

/-- A tag of no role is not a tag of one. -/
theorem notMem_of_notMem {tag : Tag} {tags others : List Tag} (h : tag ∉ tags)
    (hsub : ∀ t ∈ others, t ∈ tags) : tag ∉ others :=
  fun hmem => h (hsub tag hmem)

/-- The pass goes on over readable chunks only. -/
theorem readable_of_add (h : roles.add chunk = .ok roles') : chunk.Readable := by
  rcases add_cases h with ⟨htag, table, htable, -⟩ | ⟨htag, signature, hsignature, -⟩
    | ⟨htag, signature, hsignature, -⟩ | ⟨htag, -⟩ | ⟨htag, -⟩ | ⟨htag, -⟩
  · exact ⟨fun _ => ⟨table, htable⟩, fun h => absurd h (notMem_of_mem htag (by decide))⟩
  · exact ⟨fun h => absurd h (notMem_of_mem htag (by decide)), fun _ => ⟨signature, hsignature⟩⟩
  · exact ⟨fun h => absurd h (notMem_of_mem htag (by decide)), fun _ => ⟨signature, hsignature⟩⟩
  · exact ⟨fun h => absurd h (notMem_of_mem htag (by decide)),
      fun h => absurd h (notMem_of_mem htag (by decide))⟩
  · exact ⟨fun h => absurd h (notMem_of_mem htag (by decide)),
      fun h => absurd h (notMem_of_mem htag (by decide))⟩
  · exact ⟨fun h => absurd h (notMem_of_notMem htag (by decide)),
      fun h => absurd h (notMem_of_notMem htag (by decide))⟩

/-- The pass goes on over every readable chunk. -/
theorem exists_add_of_readable (h : chunk.Readable) (roles : ShaderRoles) :
    ∃ roles', roles.add chunk = .ok roles' := by
  unfold add
  dsimp only
  split
  · next htag =>
      obtain ⟨table, htable⟩ := h.resources (by simp [htag])
      exact ⟨_, bind_eq_ok_iff.2 ⟨table, htable, rfl⟩⟩
  · split
    · next htag =>
        obtain ⟨signature, hsignature⟩ := h.signature (by
          rcases htag with htag | htag <;> simp [htag])
        exact ⟨_, bind_eq_ok_iff.2 ⟨signature, hsignature, rfl⟩⟩
    · split
      · next htag =>
          obtain ⟨signature, hsignature⟩ := h.signature (by
            rcases htag with htag | htag <;> simp [htag])
          exact ⟨_, bind_eq_ok_iff.2 ⟨signature, hsignature, rfl⟩⟩
      · split
        · exact ⟨_, rfl⟩
        · split
          · exact ⟨_, rfl⟩
          · exact ⟨_, rfl⟩

/-- The roles are what a pass over the given chunks makes of them. -/
structure Reflects (roles : ShaderRoles) (chunks : List Chunk) : Prop where
  readable : ∀ chunk ∈ chunks, chunk.Readable
  resources : roles.resources.map .ok = (lastChunk? [.rdef] chunks).map Chunk.resources
  inputs : roles.inputs.map .ok = (lastChunk? [.isgn, .isg1] chunks).map Chunk.signature
  outputs : roles.outputs.map .ok = (lastChunk? [.osgn, .osg1] chunks).map Chunk.signature
  program : roles.program = (lastChunk? [.shex] chunks <|> chunks.find? (·.tag == .shdr))

theorem reflects_nil : Reflects {} [] := by
  constructor <;> simp

/-- One more chunk is reflected too. -/
theorem Reflects.add (hr : roles.Reflects chunks) (h : roles.add chunk = .ok roles') :
    roles'.Reflects (chunks ++ [chunk]) := by
  have hreadable : ∀ c ∈ chunks ++ [chunk], c.Readable := by
    intro c hmem
    rcases List.mem_append.1 hmem with hmem | hmem
    · exact hr.readable c hmem
    · exact List.mem_singleton.1 hmem ▸ readable_of_add h
  -- A role keeps what it has unless the new chunk has a tag of the role.
  have resources : chunk.tag ∉ [.rdef] → roles.resources.map .ok
      = (lastChunk? [.rdef] (chunks ++ [chunk])).map Chunk.resources := by
    intro hne
    rw [lastChunk?_append_of_notMem hne, hr.resources]
  have inputs : chunk.tag ∉ [.isgn, .isg1] → roles.inputs.map .ok
      = (lastChunk? [.isgn, .isg1] (chunks ++ [chunk])).map Chunk.signature := by
    intro hne
    rw [lastChunk?_append_of_notMem hne, hr.inputs]
  have outputs : chunk.tag ∉ [.osgn, .osg1] → roles.outputs.map .ok
      = (lastChunk? [.osgn, .osg1] (chunks ++ [chunk])).map Chunk.signature := by
    intro hne
    rw [lastChunk?_append_of_notMem hne, hr.outputs]
  have program : chunk.tag ∉ [.shex] → chunk.tag ∉ [.shdr] → roles.program
      = (lastChunk? [.shex] (chunks ++ [chunk])
        <|> (chunks ++ [chunk]).find? (·.tag == .shdr)) := by
    intro hshex hshdr
    rw [List.mem_singleton] at hshdr
    rw [lastChunk?_append_of_notMem hshex, hr.program]
    simp [List.find?_append, hshdr]
  rcases add_cases h with ⟨htag, table, htable, rfl⟩ | ⟨htag, signature, hsignature, rfl⟩
    | ⟨htag, signature, hsignature, rfl⟩ | ⟨htag, rfl⟩ | ⟨htag, rfl⟩ | ⟨htag, rfl⟩
  · refine ⟨hreadable, ?_, inputs (notMem_of_mem htag (by decide)),
      outputs (notMem_of_mem htag (by decide)),
      program (notMem_of_mem htag (by decide)) (notMem_of_mem htag (by decide))⟩
    rw [lastChunk?_append_of_mem htag, Option.map_some, Option.map_some, htable]
  · refine ⟨hreadable, resources (notMem_of_mem htag (by decide)), ?_,
      outputs (notMem_of_mem htag (by decide)),
      program (notMem_of_mem htag (by decide)) (notMem_of_mem htag (by decide))⟩
    rw [lastChunk?_append_of_mem htag, Option.map_some, Option.map_some, hsignature]
  · refine ⟨hreadable, resources (notMem_of_mem htag (by decide)),
      inputs (notMem_of_mem htag (by decide)), ?_,
      program (notMem_of_mem htag (by decide)) (notMem_of_mem htag (by decide))⟩
    rw [lastChunk?_append_of_mem htag, Option.map_some, Option.map_some, hsignature]
  · refine ⟨hreadable, resources (notMem_of_mem htag (by decide)),
      inputs (notMem_of_mem htag (by decide)), outputs (notMem_of_mem htag (by decide)), ?_⟩
    rw [lastChunk?_append_of_mem htag]
    rfl
  · refine ⟨hreadable, resources (notMem_of_mem htag (by decide)),
      inputs (notMem_of_mem htag (by decide)), outputs (notMem_of_mem htag (by decide)), ?_⟩
    -- A program of shader model 4 only fills the role if it is the first of any model.
    have hshdr : chunk.tag = .shdr := List.mem_singleton.1 htag
    rw [lastChunk?_append_of_notMem (notMem_of_mem htag (by decide)), hr.program]
    simp [List.find?_append, hshdr]
  · exact ⟨hreadable, resources (notMem_of_notMem htag (by decide)),
      inputs (notMem_of_notMem htag (by decide)), outputs (notMem_of_notMem htag (by decide)),
      program (notMem_of_notMem htag (by decide)) (notMem_of_notMem htag (by decide))⟩

/-- After a pass the roles reflect all chunks it went over. -/
theorem Reflects.foldlM (hr : roles.Reflects chunks) {rest : List Chunk}
    (h : rest.foldlM ShaderRoles.add roles = .ok roles') : roles'.Reflects (chunks ++ rest) := by
  induction rest generalizing roles chunks with
  | nil =>
      obtain rfl := Except.ok.inj h
      rw [List.append_nil]
      exact hr
  | cons chunk rest ih =>
      rw [List.foldlM_cons] at h
      obtain ⟨next, hnext, h⟩ := bind_eq_ok_iff.1 h
      rw [List.append_cons]
      exact ih (hr.add hnext) h

theorem reflects_of_ofChunks (h : ofChunks chunks = .ok roles) : roles.Reflects chunks :=
  reflects_nil.foldlM h

/-- A pass over readable chunks gets to their end. -/
theorem exists_foldlM_of_readable (h : ∀ chunk ∈ chunks, chunk.Readable) (roles : ShaderRoles) :
    ∃ roles', chunks.foldlM ShaderRoles.add roles = .ok roles' := by
  induction chunks generalizing roles with
  | nil => exact ⟨roles, rfl⟩
  | cons chunk rest ih =>
      obtain ⟨next, hnext⟩ := exists_add_of_readable (h chunk List.mem_cons_self) roles
      obtain ⟨roles', hrest⟩ := ih (fun c hc => h c (List.mem_cons_of_mem chunk hc)) next
      refine ⟨roles', ?_⟩
      rw [List.foldlM_cons]
      exact bind_eq_ok_iff.2 ⟨next, hnext, hrest⟩

/-- No other roles reflect the same chunks. -/
theorem Reflects.unique (h : roles.Reflects chunks) (h' : roles'.Reflects chunks) :
    roles = roles' := by
  have hok : ∀ {α : Type} {x y : Option α}, x.map (Except.ok (ε := ContainerError)) = y.map .ok →
      x = y := fun heq => Option.map_injective (fun _ _ => Except.ok.inj) heq
  have hresources := hok (h.resources.trans h'.resources.symm)
  have hinputs := hok (h.inputs.trans h'.inputs.symm)
  have houtputs := hok (h.outputs.trans h'.outputs.symm)
  have hprogram := h.program.trans h'.program.symm
  cases roles
  cases roles'
  simp_all

/-- A pass over chunks succeeds exactly with the roles that reflect them. -/
theorem ofChunks_eq_ok_iff : ofChunks chunks = .ok roles ↔ roles.Reflects chunks := by
  constructor
  · exact reflects_of_ofChunks
  · intro h
    obtain ⟨roles', hroles'⟩ := exists_foldlM_of_readable h.readable {}
    rw [h.unique (reflects_of_ofChunks hroles')]
    exact hroles'

end ShaderRoles

/-! ## The two views of a container -/

namespace Container

/-- The program that a container holds, decoded from the tokens it is asked for. -/
def program? (container : Container) : Option (Except ShaderError Program) :=
  container.shaderChunk?.map fun _ => do
    (← TokenProgram.ofContainer container).decode.mapError .decode

theorem program?_eq (container : Container) :
    container.program? = container.shaderChunk?.map Shader.programOf := by
  unfold program? TokenProgram.ofContainer
  cases container.shaderChunk? with
  | none => rfl
  | some chunk => rfl

/-- If every chunk is readable, the container's resource table is that of its first. -/
theorem resources?_eq {container : Container} (h : ∀ chunk ∈ container.chunks, chunk.Readable) :
    container.resources? = (container.chunk? .rdef).map Chunk.resources := by
  refine Option.map_congr fun chunk hchunk => ?_
  have htag : chunk.tag = .rdef := by simpa using List.find?_some hchunk
  obtain ⟨table, htable⟩ := (h chunk (List.mem_of_find?_eq_some hchunk)).resources (by simp [htag])
  show (chunk.resources).mapError _ = chunk.resources
  rw [htable]
  rfl

/-- A signature is looked for in chunks with a tag of a signature. -/
theorem mem_of_signatureChunk? {container : Container} {tag : Tag} (htag : tag ∈ [.isgn, .osgn])
    {chunk : Chunk} (h : container.signatureChunk? tag = some chunk) :
    chunk ∈ container.chunks ∧ chunk.tag ∈ [.isgn, .isg1, .osgn, .osg1] := by
  have hfound : ∀ {t : Tag}, t ∈ [.isgn, .isg1, .osgn, .osg1] → container.chunk? t = some chunk →
      chunk ∈ container.chunks ∧ chunk.tag ∈ [.isgn, .isg1, .osgn, .osg1] := by
    intro t ht hchunk
    have hteq : chunk.tag = t := by simpa using List.find?_some hchunk
    exact ⟨List.mem_of_find?_eq_some hchunk, hteq ▸ ht⟩
  have hname : ∀ t ∈ [Tag.isgn, .osgn], t ∈ [Tag.isgn, .isg1, .osgn, .osg1] := by decide
  have hform : ∀ t ∈ [Tag.isgn, .osgn], t.otherForm? = some .isg1 ∨ t.otherForm? = some .osg1 := by
    decide
  unfold signatureChunk? at h
  rw [Option.orElse_eq_orElse, Option.orElse_eq_or, Option.or_eq_some_iff] at h
  rcases h with h | ⟨-, h⟩
  · exact hfound (hname tag htag) h
  · rcases hform tag htag with hother | hother
    · rw [hother] at h
      exact hfound (by decide) h
    · rw [hother] at h
      exact hfound (by decide) h

theorem signature?_eq {container : Container} (h : ∀ chunk ∈ container.chunks, chunk.Readable)
    {tag : Tag} (htag : tag ∈ [.isgn, .osgn]) :
    container.signature? tag = (container.signatureChunk? tag).map Chunk.signature := by
  refine Option.map_congr fun chunk hchunk => ?_
  obtain ⟨hmem, hrole⟩ := mem_of_signatureChunk? htag hchunk
  obtain ⟨signature, hsignature⟩ := (h chunk hmem).signature hrole
  show (chunk.signature).mapError _ = chunk.signature
  rw [hsignature]
  rfl

end Container

namespace Shader

/-- The shader says what its container says when asked for the parts one by one. -/
structure Agrees (shader : Shader) (container : Container) : Prop where
  resources : shader.resources.map .ok = container.resources?
  inputs : shader.inputs.map .ok = container.signature? .isgn
  outputs : shader.outputs.map .ok = container.signature? .osgn
  program : shader.program.map .ok = container.program?

end Shader

/-! ## Ambiguity -/

namespace Container

/-- In each role the first chunk and the last are read alike. -/
structure Unambiguous (container : Container) : Prop where
  resources : (lastChunk? [.rdef] container.chunks).map Chunk.resources
    = (container.chunk? .rdef).map Chunk.resources
  inputs : (lastChunk? [.isgn, .isg1] container.chunks).map Chunk.signature
    = (container.signatureChunk? .isgn).map Chunk.signature
  outputs : (lastChunk? [.osgn, .osg1] container.chunks).map Chunk.signature
    = (container.signatureChunk? .osgn).map Chunk.signature
  program : (lastChunk? [.shex] container.chunks).map Shader.programOf
    = (container.chunk? .shex).map Shader.programOf

/-- No role has two chunks; programs of shader model 4 do not count. -/
def FillsRolesOnce (container : Container) : Prop :=
  ∀ tags ∈ [[.rdef], [.isgn, .isg1], [.osgn, .osg1], [.shex]],
    (container.chunks.map (·.tag)).countP (List.contains tags) ≤ 1

/-- The only chunk of a role is the one that is found by asking for the tags of the role in turn. -/
theorem lastChunk?_eq_findSome? {tags : List Tag} {chunks : List Chunk}
    (h : (chunks.filter fun chunk => tags.contains chunk.tag).length ≤ 1) :
    lastChunk? tags chunks = tags.findSome? fun tag => chunks.find? (·.tag == tag) := by
  have hfind : ∀ tag ∈ tags, chunks.find? (·.tag == tag)
      = (chunks.filter fun chunk => tags.contains chunk.tag).find? (·.tag == tag) := by
    intro tag htag
    rw [List.find?_filter]
    refine congrArg (fun p => chunks.find? p) (funext fun chunk => ?_)
    by_cases heq : chunk.tag = tag
    · simp [heq, htag]
    · simp [heq]
  have hmem : ∀ chunk ∈ chunks.filter fun chunk => tags.contains chunk.tag, chunk.tag ∈ tags := by
    intro chunk hchunk
    simpa using (List.mem_filter.1 hchunk).2
  -- Every search by a tag of the role is a search among the chunks of the role, at most one.
  unfold lastChunk?
  generalize (chunks.filter fun chunk => tags.contains chunk.tag) = kept at h hfind hmem ⊢
  rcases kept with _ | ⟨chunk, _ | ⟨second, rest⟩⟩
  · rw [List.getLast?_nil, eq_comm, List.findSome?_eq_none_iff]
    intro tag htag
    rw [hfind tag htag, List.find?_nil]
  · -- Whatever tag is asked for, only this chunk can be found, and by its own tag it is.
    have htag : chunk.tag ∈ tags := hmem chunk (List.mem_singleton_self chunk)
    have hself : chunks.find? (·.tag == chunk.tag) = some chunk := by
      rw [hfind _ htag]
      simp
    have hsome : (tags.findSome? fun tag => chunks.find? (·.tag == tag)).isSome := by
      rw [List.findSome?_isSome_iff]
      exact ⟨_, htag, by rw [hself]; rfl⟩
    obtain ⟨found, hfound⟩ := Option.isSome_iff_exists.1 hsome
    obtain ⟨tag, htag', hchunk⟩ := List.exists_of_findSome?_eq_some hfound
    rw [hfind tag htag'] at hchunk
    rw [hfound, List.mem_singleton.1 (List.mem_of_find?_eq_some hchunk), List.getLast?_singleton]
  · simp at h

/-- Where no role is filled twice there is nothing to choose. -/
theorem FillsRolesOnce.unambiguous {container : Container} (h : container.FillsRolesOnce) :
    container.Unambiguous := by
  have hfilter : ∀ tags ∈ [[.rdef], [.isgn, .isg1], [.osgn, .osg1], [.shex]],
      (container.chunks.filter fun chunk => List.contains tags chunk.tag).length ≤ 1 := by
    intro tags htags
    have honce := h tags htags
    rw [List.countP_map] at honce
    rw [← List.countP_eq_length_filter]
    exact honce
  have hone : ∀ tag : Tag, [tag] ∈ [[.rdef], [.isgn, .isg1], [.osgn, .osg1], [.shex]] →
      lastChunk? [tag] container.chunks = container.chunk? tag := by
    intro tag hrole
    rw [lastChunk?_eq_findSome? (hfilter _ hrole)]
    simp [chunk?]
  have htwo : ∀ tag other : Tag,
      [tag, other] ∈ [[.rdef], [.isgn, .isg1], [.osgn, .osg1], [.shex]] →
        lastChunk? [tag, other] container.chunks
          = (container.chunk? tag <|> container.chunk? other) := by
    intro tag other hrole
    rw [lastChunk?_eq_findSome? (hfilter _ hrole), List.findSome?_cons]
    cases hfirst : container.chunk? tag with
    | none =>
        unfold chunk? at hfirst
        simp [hfirst, chunk?]
    | some first =>
        unfold chunk? at hfirst
        simp [hfirst]
  refine ⟨?_, ?_, ?_, ?_⟩
  · rw [hone .rdef (by decide)]
  · rw [htwo .isgn .isg1 (by decide)]
    rfl
  · rw [htwo .osgn .osg1 (by decide)]
    rfl
  · rw [hone .shex (by decide)]

end Container

namespace Shader

theorem mapM_program_eq_ok_iff {chunk : Option Chunk} {program : Option Program} :
    chunk.mapM programOf = .ok program ↔ program.map .ok = chunk.map programOf := by
  cases chunk with
  | none => cases program <;> simp [pure, Except.pure]
  | some chunk =>
      cases hprogram : programOf chunk <;> cases program <;>
        simp [hprogram, Functor.map, Except.map, eq_comm]

/-- A shader that was read has the parts that the pass over all chunks found. -/
theorem roles_of_ofContainer {container : Container} {shader : Shader}
    (h : ofContainer container = .ok shader) :
    ∃ roles : ShaderRoles, roles.Reflects container.chunks ∧ shader.resources = roles.resources
      ∧ shader.inputs = roles.inputs ∧ shader.outputs = roles.outputs
      ∧ shader.program.map .ok = roles.program.map programOf := by
  obtain ⟨roles, hroles, h⟩ := bind_eq_ok_iff.1 h
  obtain ⟨program, hprogram, h⟩ := bind_eq_ok_iff.1 h
  obtain rfl := Except.ok.inj h
  exact ⟨roles, ShaderRoles.reflects_of_ofChunks (mapError_eq_ok_iff.1 hroles), rfl, rfl, rfl,
    mapM_program_eq_ok_iff.1 hprogram⟩

/-- Of two programs of shader model 5 the last is kept and the first is asked for; a program of
    shader model 4 counts only if there is neither. -/
theorem program_eq_iff (container : Container) :
    (lastChunk? [.shex] container.chunks <|> container.chunk? .shdr).map programOf
        = container.shaderChunk?.map programOf
      ↔ (lastChunk? [.shex] container.chunks).map programOf
        = (container.chunk? .shex).map programOf := by
  have hnone : lastChunk? [.shex] container.chunks = none ↔ container.chunk? .shex = none := by
    unfold lastChunk? Container.chunk?
    rw [List.getLast?_eq_none_iff, List.filter_eq_nil_iff, List.find?_eq_none]
    simp
  unfold Container.shaderChunk?
  cases hfirst : container.chunk? .shex with
  | none => simp [hnone.2 hfirst]
  | some first =>
      cases hlast : lastChunk? [.shex] container.chunks with
      | none => simp [hnone.1 hlast] at hfirst
      | some last => rfl

/-- A container without its digest that holds a program with one return and then an empty program,
    in chunks with the given tags. -/
def twoPrograms (first second : Tag) : List UInt8 :=
  Tag.dxbc.toList ++ List.replicate 16 0 ++ LittleEndian.ofWords [1, 76, 2, 40, 60]
    ++ first.toList ++ LittleEndian.ofWords [12, 0x40, 3, 0x100003E]
    ++ second.toList ++ LittleEndian.ofWords [8, 0x40, 2]

/-- **When the two readings of a container agree.** Whatever the chunk table holds, the shader that
    is read in one pass says what the container says when asked for the parts one by one exactly if
    the container is unambiguous. In particular they agree if no role is filled twice. -/
theorem agrees_iff_unambiguous {options : ParseOptions} {bytes : List UInt8} {shader : Shader}
    (h : parseWith options bytes = .ok shader) :
    ∃ container, Container.parseWith options bytes = .ok container
      ∧ (shader.Agrees container ↔ container.Unambiguous)
      ∧ (container.FillsRolesOnce → shader.Agrees container) := by
  obtain ⟨container, hcontainer, h⟩ := bind_eq_ok_iff.1 h
  obtain ⟨roles, hroles, hresources, hinputs, houtputs, hprogram⟩ := roles_of_ofContainer h
  have hparts : shader.Agrees container ↔ roles.resources.map .ok = container.resources?
      ∧ roles.inputs.map .ok = container.signature? .isgn
      ∧ roles.outputs.map .ok = container.signature? .osgn
      ∧ roles.program.map programOf = container.program? := by
    rw [← hresources, ← hinputs, ← houtputs, ← hprogram]
    exact ⟨fun h => ⟨h.resources, h.inputs, h.outputs, h.program⟩,
      fun ⟨h₁, h₂, h₃, h₄⟩ => ⟨h₁, h₂, h₃, h₄⟩⟩
  have hiff : shader.Agrees container ↔ container.Unambiguous := by
    rw [hparts, hroles.resources, hroles.inputs, hroles.outputs, hroles.program,
      Container.resources?_eq hroles.readable, Container.signature?_eq hroles.readable (by decide),
      Container.signature?_eq hroles.readable (by decide), Container.program?_eq]
    constructor
    · rintro ⟨hresources, hinputs, houtputs, hprogram⟩
      exact ⟨hresources, hinputs, houtputs, (program_eq_iff container).1 hprogram⟩
    · intro h
      exact ⟨h.resources, h.inputs, h.outputs, (program_eq_iff container).2 h.program⟩
  exact ⟨container, mapError_eq_ok_iff.1 hcontainer, hiff, fun honce => hiff.2 honce.unambiguous⟩

/-- Programs of both shader models fill the role once. -/
theorem agrees_of_both_models : ∃ shader container,
    parseWith { verifyChecksum := false } (twoPrograms .shdr .shex) = .ok shader
      ∧ Container.parseWith { verifyChecksum := false } (twoPrograms .shdr .shex) = .ok container
      ∧ shader.program = some ⟨.pixel, ⟨4, 0⟩, []⟩ ∧ shader.Agrees container := by
  have hshader : (parseWith { verifyChecksum := false } (twoPrograms .shdr .shex)).map (·.program)
      = .ok (some ⟨.pixel, ⟨4, 0⟩, []⟩) := by decide +kernel
  have hchunks : (Container.parseWith { verifyChecksum := false } (twoPrograms .shdr .shex)).map
      (·.chunks.map (·.tag)) = .ok [.shdr, .shex] := by decide +kernel
  obtain ⟨shader, hshader, hprogram⟩ := map_eq_ok_iff.1 hshader
  obtain ⟨container, hcontainer, htags⟩ := map_eq_ok_iff.1 hchunks
  obtain ⟨container', hcontainer', -, hagrees⟩ := agrees_iff_unambiguous hshader
  obtain rfl := Except.ok.inj (hcontainer.symm.trans hcontainer')
  have honce : container.FillsRolesOnce := by
    unfold Container.FillsRolesOnce
    rw [htags]
    decide
  exact ⟨shader, container, hshader, hcontainer, hprogram, hagrees honce⟩

/-- Of two programs of shader model 5 the tokens are taken from the first and the instructions from
    the last. -/
theorem not_agrees_of_two_programs : ∃ shader container,
    parseWith { verifyChecksum := false } (twoPrograms .shex .shex) = .ok shader
      ∧ Container.parseWith { verifyChecksum := false } (twoPrograms .shex .shex) = .ok container
      ∧ shader.program = some ⟨.pixel, ⟨4, 0⟩, []⟩
      ∧ container.program? = some (.ok ⟨.pixel, ⟨4, 0⟩, [.ret]⟩)
      ∧ ¬ shader.Agrees container := by
  have hshader : (parseWith { verifyChecksum := false } (twoPrograms .shex .shex)).map (·.program)
      = .ok (some ⟨.pixel, ⟨4, 0⟩, []⟩) := by decide +kernel
  have hcontainer : (Container.parseWith { verifyChecksum := false } (twoPrograms .shex .shex)).map
      (·.program?) = .ok (some (.ok ⟨.pixel, ⟨4, 0⟩, [.ret]⟩)) := by decide +kernel
  obtain ⟨shader, hshader, hprogram⟩ := map_eq_ok_iff.1 hshader
  obtain ⟨container, hcontainer, hfirst⟩ := map_eq_ok_iff.1 hcontainer
  refine ⟨shader, container, hshader, hcontainer, hprogram, hfirst, ?_⟩
  intro hagrees
  have hsame := hagrees.program
  rw [hprogram, hfirst] at hsame
  simp at hsame

end Shader

end ShaderBytecode
