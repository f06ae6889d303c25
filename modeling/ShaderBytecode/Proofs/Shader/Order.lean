import ShaderBytecode.Proofs.Shader.Contents

set_option autoImplicit false

/-! # The order of chunks

Where a role is filled twice, the order of the chunks decides which is kept. Where none is, it only
decides which of several errors comes first: a container is accepted in any order or in none, and it
says the same in each. A program of shader model 5 hides one of shader model 4, before or behind it,
and whatever that one holds. -/

namespace ShaderBytecode

/-! ## Lists that fill the roles alike -/

/-- The tags of each role; programs of shader model 4 only fill a role that nothing else does. -/
def roleTags : List (List Tag) := [[.rdef], [.isgn, .isg1], [.osgn, .osg1], [.shex]]

/-- Both lists have the same chunks of each role. Programs of shader model 4 count only where there
    is none of shader model 5. -/
structure FillAlike (chunks chunks' : List Chunk) : Prop where
  roles : ∀ tags ∈ roleTags,
    chunks.filter (tags.contains ·.tag) = chunks'.filter (tags.contains ·.tag)
  program : (∀ chunk ∈ chunks, chunk.tag ≠ .shex) →
    chunks.find? (·.tag == .shdr) = chunks'.find? (·.tag == .shdr)

namespace FillAlike

variable {chunks chunks' : List Chunk}

theorem mem (h : FillAlike chunks chunks') (tags : List Tag) (hrole : tags ∈ roleTags)
    {chunk : Chunk} (htag : chunk.tag ∈ tags) (hmem : chunk ∈ chunks) : chunk ∈ chunks' := by
  have hkept : chunk ∈ chunks.filter (tags.contains ·.tag) :=
    List.mem_filter.2 ⟨hmem, List.contains_iff_mem.2 htag⟩
  rw [h.roles tags hrole] at hkept
  exact (List.mem_filter.1 hkept).1

theorem symm (h : FillAlike chunks chunks') : FillAlike chunks' chunks where
  roles tags hrole := (h.roles tags hrole).symm
  program hnone := by
    refine (h.program fun chunk hmem htag => ?_).symm
    exact hnone chunk (h.mem [.shex] (by decide) (by simp [htag]) hmem) htag

theorem trans {chunks'' : List Chunk} (h : FillAlike chunks chunks')
    (h' : FillAlike chunks' chunks'') : FillAlike chunks chunks'' where
  roles tags hrole := (h.roles tags hrole).trans (h'.roles tags hrole)
  program hnone := by
    refine (h.program hnone).trans (h'.program fun chunk hmem htag => ?_)
    exact hnone chunk (h.symm.mem [.shex] (by decide) (by simp [htag]) hmem) htag

theorem lastChunk?_eq (h : FillAlike chunks chunks') (tags : List Tag)
    (hrole : tags ∈ roleTags) : lastChunk? tags chunks = lastChunk? tags chunks' :=
  congrArg List.getLast? (h.roles tags hrole)

/-- What is reflected in one list is reflected in the other. -/
theorem reflects (h : FillAlike chunks chunks') {roles : ShaderRoles}
    (hroles : roles.Reflects chunks) : roles.Reflects chunks' where
  readable := by
    intro chunk hmem
    constructor
    · intro htag
      exact (hroles.readable chunk (h.symm.mem [.rdef] (by decide) htag hmem)).resources htag
    · intro htag
      have hside : chunk.tag ∈ [.isgn, .isg1] ∨ chunk.tag ∈ [.osgn, .osg1] := by
        simpa [or_assoc] using htag
      rcases hside with hside | hside
      · have hmem' := h.symm.mem [.isgn, .isg1] (by decide) hside hmem
        exact (hroles.readable chunk hmem').signature htag
      · have hmem' := h.symm.mem [.osgn, .osg1] (by decide) hside hmem
        exact (hroles.readable chunk hmem').signature htag
  resources := h.lastChunk?_eq [.rdef] (by decide) ▸ hroles.resources
  inputs := h.lastChunk?_eq [.isgn, .isg1] (by decide) ▸ hroles.inputs
  outputs := h.lastChunk?_eq [.osgn, .osg1] (by decide) ▸ hroles.outputs
  program := by
    rw [hroles.program, ← h.lastChunk?_eq [.shex] (by decide)]
    by_cases hnone : ∀ chunk ∈ chunks, chunk.tag ≠ .shex
    · rw [h.program hnone]
    · -- The program of shader model 5 is found in both lists, and no other is looked for.
      have hsome : lastChunk? [.shex] chunks ≠ none := by
        unfold lastChunk?
        rw [ne_eq, List.getLast?_eq_none_iff, List.filter_eq_nil_iff]
        simpa using hnone
      obtain ⟨last, hlast⟩ := Option.ne_none_iff_exists'.1 hsome
      rw [hlast]
      rfl

theorem ofPayloads_eq_ok_iff {payloads others : List Payload}
    (h : FillAlike (payloads.map (·.unplaced)) (others.map (·.unplaced)))
    {contents : ShaderContents} : ShaderContents.ofPayloads payloads = .ok contents
      ↔ ShaderContents.ofPayloads others = .ok contents := by
  simp only [ShaderContents.ofPayloads_eq_ok_iff]
  constructor
  · intro hread
    obtain ⟨roles, hroles, hcontents⟩ := hread
    exact ⟨roles, h.reflects hroles, hcontents⟩
  · intro hread
    obtain ⟨roles, hroles, hcontents⟩ := hread
    exact ⟨roles, h.symm.reflects hroles, hcontents⟩

end FillAlike

/-! ## Another order -/

/-- No role is filled twice; there may be a program of each of the two shader models. -/
def EachRoleOnce (tags : List Tag) : Prop :=
  ∀ role ∈ [.shdr] :: roleTags, tags.countP role.contains ≤ 1

instance (tags : List Tag) : Decidable (EachRoleOnce tags) :=
  List.decidableBAll (fun role => tags.countP (List.contains role) ≤ 1) _

/-- Of one element there is only one order. -/
theorem filter_eq_of_perm {α : Type} {p : α → Bool} {as bs : List α} (hperm : as.Perm bs)
    (hone : as.countP p ≤ 1) : as.filter p = bs.filter p := by
  have hkept := hperm.filter p
  rw [List.countP_eq_length_filter] at hone
  generalize as.filter p = kept at hkept hone
  rcases kept with _ | ⟨a, _ | ⟨b, rest⟩⟩
  · exact hkept.nil_eq
  · exact (List.singleton_perm.1 hkept).symm ▸ rfl
  · simp at hone

theorem EachRoleOnce.countP_le {chunks : List Chunk} (h : EachRoleOnce (chunks.map (·.tag)))
    {role : List Tag} (hrole : role ∈ [.shdr] :: roleTags) :
    chunks.countP (role.contains ·.tag) ≤ 1 := by
  have hone := h role hrole
  rwa [List.countP_map] at hone

theorem fillAlike_of_perm {chunks chunks' : List Chunk} (hperm : chunks.Perm chunks')
    (honce : EachRoleOnce (chunks.map (·.tag))) : FillAlike chunks chunks' where
  roles tags hrole := filter_eq_of_perm hperm (honce.countP_le (List.mem_cons_of_mem _ hrole))
  program _ := by
    have hsingle : (fun chunk : Chunk => chunk.tag == .shdr) = ([Tag.shdr].contains ·.tag) := by
      funext chunk
      rw [Bool.eq_iff_iff]
      simp
    rw [hsingle, ← List.head?_filter, ← List.head?_filter,
      filter_eq_of_perm hperm (honce.countP_le (by decide))]

/-! ## Other data in a program that is hidden -/

/-- The chunk, with other data if it is a program of shader model 4. -/
def Payload.withShdr (data : List UInt8) (payload : Payload) : Payload :=
  if payload.tag = .shdr then { payload with data } else payload

theorem Payload.tag_withShdr (data : List UInt8) (payload : Payload) :
    (payload.withShdr data).tag = payload.tag := by
  unfold withShdr
  split <;> rfl

theorem Payload.withShdr_of_ne {payload : Payload} (h : payload.tag ≠ .shdr) (data : List UInt8) :
    payload.withShdr data = payload := if_neg h

theorem fillAlike_withShdr {payloads : List Payload} (hshex : ∃ shex ∈ payloads, shex.tag = .shex)
    (data : List UInt8) : FillAlike (payloads.map (·.unplaced))
      ((payloads.map (·.withShdr data)).map (·.unplaced)) where
  roles tags hrole := by
    have hshdr : ∀ tags ∈ roleTags, .shdr ∉ tags := by decide
    rw [List.map_map, List.filter_map, List.filter_map]
    have hsame : (fun chunk : Chunk => tags.contains chunk.tag)
        ∘ (Payload.unplaced ∘ Payload.withShdr data)
        = (fun chunk : Chunk => tags.contains chunk.tag) ∘ Payload.unplaced :=
      funext fun payload => congrArg tags.contains (payload.tag_withShdr data)
    rw [hsame]
    refine List.map_congr_left fun payload hkept => ?_
    have htag : payload.tag ∈ tags := List.contains_iff_mem.1 (List.mem_filter.1 hkept).2
    have hne : payload.tag ≠ .shdr := fun heq => hshdr tags hrole (heq ▸ htag)
    exact congrArg Payload.unplaced (Payload.withShdr_of_ne hne data).symm
  program hnone := by
    obtain ⟨shex, hmem, htag⟩ := hshex
    exact absurd htag (hnone shex.unplaced (List.mem_map_of_mem hmem))

/-! ## Containers -/

/-- The only chunk of a role is the last. -/
theorem lastChunk?_eq_of_mem {tags : List Tag} {chunks : List Chunk} {chunk : Chunk}
    (hone : chunks.countP (tags.contains ·.tag) ≤ 1) (hmem : chunk ∈ chunks)
    (htag : chunk.tag ∈ tags) : lastChunk? tags chunks = some chunk := by
  have hkept : chunk ∈ chunks.filter (tags.contains ·.tag) :=
    List.mem_filter.2 ⟨hmem, List.contains_iff_mem.2 htag⟩
  rw [List.countP_eq_length_filter] at hone
  unfold lastChunk?
  generalize chunks.filter (tags.contains ·.tag) = kept at hkept hone
  rcases kept with _ | ⟨only, _ | ⟨second, rest⟩⟩
  · simp at hkept
  · rw [List.mem_singleton.1 hkept, List.getLast?_singleton]
  · simp at hone

namespace Shader

/-- What the shader in a container says, if the container is accepted. -/
def contents? (bytes : List UInt8) : Option ShaderContents := (parse bytes).toOption.map contents

theorem contents?_eq_some_iff {payloads : List Payload} {bytes : List UInt8}
    (h : Container.write payloads = .ok bytes) (hcount : payloads.length ≤ 4096)
    {said : ShaderContents} :
    contents? bytes = some said ↔ ShaderContents.ofPayloads payloads = .ok said := by
  rw [← map_contents_of_write h hcount, contents?]
  cases parse bytes <;> simp [Except.toOption, Except.map]

/-- Containers are read alike if their chunks fill the roles alike. -/
theorem contents?_eq_of_fillAlike {payloads others : List Payload} {bytes bytes' : List UInt8}
    (h : Container.write payloads = .ok bytes) (hcount : payloads.length ≤ 4096)
    (h' : Container.write others = .ok bytes') (hcount' : others.length ≤ 4096)
    (halike : FillAlike (payloads.map (·.unplaced)) (others.map (·.unplaced))) :
    contents? bytes' = contents? bytes := by
  refine Option.ext fun said => ?_
  rw [contents?_eq_some_iff h hcount, contents?_eq_some_iff h' hcount']
  exact halike.ofPayloads_eq_ok_iff.symm

/-- The only program of shader model 5 is the program of the shader. -/
theorem program_of_shex {payloads : List Payload} (honce : EachRoleOnce (payloads.map (·.tag)))
    {shex : Payload} (hmem : shex ∈ payloads) (htag : shex.tag = .shex) {said : ShaderContents}
    (h : ShaderContents.ofPayloads payloads = .ok said) :
    ∃ program, said.program = some program ∧ programOf shex.unplaced = .ok program := by
  obtain ⟨roles, hroles, hcontents⟩ := ShaderContents.ofPayloads_eq_ok_iff.1 h
  have hone : (payloads.map Payload.unplaced).countP ([Tag.shex].contains ·.tag) ≤ 1 := by
    refine EachRoleOnce.countP_le ?_ (by decide)
    rw [List.map_map]
    exact honce
  have hlast : lastChunk? [.shex] (payloads.map Payload.unplaced) = some shex.unplaced :=
    lastChunk?_eq_of_mem hone (List.mem_map_of_mem hmem) (List.mem_singleton.2 htag)
  have hprogram := hroles.program
  rw [hlast] at hprogram
  obtain ⟨program, hread, hcontents⟩ := bind_eq_ok_iff.1 hcontents
  obtain rfl := Except.ok.inj hcontents
  rw [mapM_program_eq_ok_iff, hprogram] at hread
  obtain ⟨decoded, hdecoded, hok⟩ := Option.map_eq_some_iff.1 hread
  exact ⟨decoded, hdecoded, hok.symm⟩

/-- **The order of chunks does not matter where no role is filled twice.** Whether a container with
    at most 4096 chunks is accepted, and what it says then, is the same for every order of its
    chunks. If it has a program of shader model 5, that is the program of the shader, and any data
    can stand in the place of a program of shader model 4. -/
theorem contents_of_perm {payloads : List Payload} {bytes : List UInt8}
    (h : Container.write payloads = .ok bytes) (hcount : payloads.length ≤ 4096)
    (honce : EachRoleOnce (payloads.map (·.tag))) :
    (∀ others : List Payload, others.Perm payloads → ∃ bytes',
        Container.write others = .ok bytes' ∧ contents? bytes' = contents? bytes)
      ∧ ∀ shex ∈ payloads, shex.tag = .shex →
        (∀ said, contents? bytes = some said → ∃ program, said.program = some program
          ∧ programOf shex.unplaced = .ok program)
        ∧ ∀ data others bytes', others.Perm (payloads.map (·.withShdr data)) →
          Container.write others = .ok bytes' → contents? bytes' = contents? bytes := by
  have honce' : ∀ {parts : List Payload}, parts.map (·.tag) = payloads.map (·.tag) →
      EachRoleOnce ((parts.map Payload.unplaced).map (·.tag)) := by
    intro parts htags
    rw [List.map_map]
    exact htags ▸ honce
  refine ⟨fun others hperm => ?_, fun shex hmem htag => ⟨fun said hsaid => ?_, ?_⟩⟩
  · obtain ⟨bytes', h'⟩ := Container.exists_write_of_subperm h hperm.subperm
    have halike := fillAlike_of_perm (hperm.symm.map Payload.unplaced) (honce' rfl)
    exact ⟨bytes', h', contents?_eq_of_fillAlike h hcount h' (hperm.length_eq ▸ hcount) halike⟩
  · exact program_of_shex honce hmem htag ((contents?_eq_some_iff h hcount).1 hsaid)
  · intro data others bytes' hperm h'
    have htags : (payloads.map (·.withShdr data)).map (·.tag) = payloads.map (·.tag) := by
      rw [List.map_map]
      exact List.map_congr_left fun payload _ => payload.tag_withShdr data
    have hlength := hperm.length_eq
    rw [List.length_map] at hlength
    -- First the data changes where they stand, then the order.
    have halike := (fillAlike_withShdr ⟨shex, hmem, htag⟩ data).trans
      (fillAlike_of_perm (hperm.symm.map Payload.unplaced) (honce' htags))
    exact contents?_eq_of_fillAlike h hcount h' (hlength ▸ hcount) halike

/-- A chunk of shader model 4 that is no program, before and behind a program of shader model 5, and
    an empty program in its place. -/
theorem contents_of_perm_hidden :
    let shex : Payload := ⟨.shex, LittleEndian.ofWords [0x40, 3, 0x100003E]⟩
    let empty := LittleEndian.ofWords [0x40, 2]
    ∃ bytes bytes' bytes'' said, Container.write [⟨.shdr, [1]⟩, shex] = .ok bytes
      ∧ Container.write [shex, ⟨.shdr, [1]⟩] = .ok bytes'
      ∧ Container.write [shex, ⟨.shdr, empty⟩] = .ok bytes''
      ∧ said.program = some ⟨.pixel, ⟨4, 0⟩, [.ret]⟩
      ∧ contents? bytes = some said ∧ contents? bytes' = some said
      ∧ contents? bytes'' = some said := by
  intro shex empty
  have hsmall : Container.layoutLength [⟨.shdr, [1]⟩, shex] < 2 ^ 32 := by decide +revert
  have hsmall' : Container.layoutLength [shex, ⟨.shdr, empty⟩] < 2 ^ 32 := by decide +revert
  have hread : (ShaderContents.ofPayloads [⟨.shdr, [1]⟩, shex]).map (·.program)
      = .ok (some ⟨.pixel, ⟨4, 0⟩, [.ret]⟩) := by decide +revert +kernel
  obtain ⟨bytes, h⟩ := Container.exists_write_iff.2 hsmall
  obtain ⟨bytes'', h''⟩ := Container.exists_write_iff.2 hsmall'
  have hcount : [(⟨.shdr, [1]⟩ : Payload), shex].length ≤ 4096 := Nat.le_of_ble_eq_true rfl
  obtain ⟨horder, hshex⟩ := contents_of_perm h hcount (by decide)
  obtain ⟨bytes', h', hsame⟩ := horder [shex, ⟨.shdr, [1]⟩] (List.Perm.swap _ _ _)
  obtain ⟨-, hdata⟩ := hshex shex (by simp) rfl
  have hsame' := hdata empty [shex, ⟨.shdr, empty⟩] bytes'' (List.Perm.swap _ _ _) h''
  obtain ⟨said, hsaid, hprogram⟩ := map_eq_ok_iff.1 hread
  rw [← contents?_eq_some_iff h hcount] at hsaid
  exact ⟨bytes, bytes', bytes'', said, h, h', h'', hprogram, hsaid, hsame.trans hsaid,
    hsame'.trans hsaid⟩

end Shader

end ShaderBytecode
