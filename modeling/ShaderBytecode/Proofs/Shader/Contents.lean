import ShaderBytecode.Proofs.Container.Layout
import ShaderBytecode.Proofs.Shader.Roles

set_option autoImplicit false

/-! # What a container says

Reading a shader looks at the tags and the data of the chunks and at nothing else: where a chunk
lies changes neither what is read nor any error (`Shader.ofContainer_eq`). So what is read from a
written container, or the error in its place, is known from the chunks that were written
(`Shader.parse_of_write_payloads`), and chunks that fill no role can be left out of them. -/

namespace ShaderBytecode

/-- What the chunks of a container say, the table and the header left aside. -/
structure ShaderContents where
  resources : Option ResourceTable
  inputs : Option Signature
  outputs : Option Signature
  program : Option Program

/-- What a shader says. -/
def Shader.contents (shader : Shader) : ShaderContents where
  resources := shader.resources
  inputs := shader.inputs
  outputs := shader.outputs
  program := shader.program

/-- The shader with the given header and tags. -/
def ShaderContents.toShader (contents : ShaderContents) (header : Header) (tags : List Tag) :
    Shader where
  header := header
  tags := tags
  resources := contents.resources
  inputs := contents.inputs
  outputs := contents.outputs
  program := contents.program

/-! ## Chunks without a place -/

/-- A chunk with nothing said about its place. -/
def Payload.unplaced (payload : Payload) : Chunk := ⟨payload.tag, 0, payload.data⟩

namespace ShaderRoles

/-- The roles with nothing said about where the program lies. -/
def unplaced (roles : ShaderRoles) : ShaderRoles :=
  { roles with program := roles.program.map (·.payload.unplaced) }

/-- One more chunk does the same wherever it lies. -/
theorem add_unplaced (roles : ShaderRoles) (chunk : Chunk) :
    roles.unplaced.add chunk.payload.unplaced = (roles.add chunk).map unplaced := by
  unfold add
  dsimp only [Payload.unplaced, Chunk.payload]
  split
  · cases ResourceTable.parse chunk.data <;> rfl
  · split
    · cases Signature.parseTagged chunk.tag chunk.data <;> rfl
    · split
      · cases Signature.parseTagged chunk.tag chunk.data <;> rfl
      · split
        · rfl
        · split
          · -- A program of shader model 4 is kept if there is none, with or without a place.
            unfold unplaced
            cases roles.program <;> rfl
          · rfl

theorem foldlM_unplaced (chunks : List Chunk) (roles : ShaderRoles) :
    (chunks.map (·.payload.unplaced)).foldlM add roles.unplaced
      = (chunks.foldlM add roles).map unplaced := by
  induction chunks generalizing roles with
  | nil => rfl
  | cons chunk rest ih =>
      rw [List.map_cons, List.foldlM_cons, List.foldlM_cons, add_unplaced]
      cases roles.add chunk with
      | error e => rfl
      | ok next => exact ih next

/-- What the roles say, once the program is decoded. -/
def contents (roles : ShaderRoles) : Except ShaderError ShaderContents := do
  return {
    resources := roles.resources
    inputs := roles.inputs
    outputs := roles.outputs
    program := (← roles.program.mapM Shader.programOf) }

theorem contents_unplaced (roles : ShaderRoles) : roles.unplaced.contents = roles.contents := by
  unfold contents unplaced
  cases roles.program <;> rfl

end ShaderRoles

/-- What chunks with the given tags and data say in this order, or why they cannot be read. -/
def ShaderContents.ofPayloads (payloads : List Payload) : Except ShaderError ShaderContents := do
  let roles ← (ShaderRoles.ofChunks (payloads.map (·.unplaced))).mapError .container
  roles.contents

theorem ShaderContents.ofPayloads_eq_ok_iff {payloads : List Payload} {contents : ShaderContents} :
    ofPayloads payloads = .ok contents ↔ ∃ roles : ShaderRoles,
      roles.Reflects (payloads.map (·.unplaced)) ∧ roles.contents = .ok contents := by
  simp only [ofPayloads, bind_eq_ok_iff, mapError_eq_ok_iff, ShaderRoles.ofChunks_eq_ok_iff]

/-! ## Reading a shader -/

namespace Shader

/-- A shader is made from what the chunks of its container say. -/
theorem ofContainer_eq (container : Container) : ofContainer container
    = (ShaderContents.ofPayloads (container.chunks.map Chunk.payload)).map
      (·.toShader container.header (container.chunks.map (·.tag))) := by
  have hroles : ShaderRoles.ofChunks ((container.chunks.map Chunk.payload).map Payload.unplaced)
      = (ShaderRoles.ofChunks container.chunks).map ShaderRoles.unplaced := by
    rw [List.map_map]
    exact ShaderRoles.foldlM_unplaced container.chunks {}
  unfold ofContainer ShaderContents.ofPayloads
  rw [hroles]
  cases ShaderRoles.ofChunks container.chunks with
  | error e => rfl
  | ok roles =>
      show _ = (roles.unplaced.contents).map _
      rw [ShaderRoles.contents_unplaced]
      unfold ShaderRoles.contents
      show (roles.program.mapM programOf >>= _) = _
      cases roles.program.mapM programOf <;> rfl

/-- What is read from a written container, or why nothing is, the chunks alone tell. -/
theorem parse_of_write_payloads {payloads : List Payload} {bytes : List UInt8}
    (h : Container.write payloads = .ok bytes) (hcount : payloads.length ≤ 4096) :
    parse bytes = (ShaderContents.ofPayloads payloads).map
      (·.toShader (Container.headerOf bytes) (payloads.map (·.tag))) := by
  have hfew : payloads.length ≤ ({} : ParseOptions).maxChunks := hcount
  obtain ⟨container, hparse, -, hheader, hpayloads⟩ := Container.parseWith_of_write h hfew
  have htags : container.chunks.map (·.tag) = payloads.map (·.tag) := by
    rw [← hpayloads, List.map_map]
    rfl
  unfold parse parseWith
  rw [hparse]
  show ofContainer container = _
  rw [ofContainer_eq, hpayloads, hheader, htags]

end Shader

/-! ## Chunks of no role -/

/-- The tags of the chunks that are read. -/
def Tag.recognized : List Tag := [.rdef, .isgn, .isg1, .osgn, .osg1, .shex, .shdr]

namespace ShaderRoles

/-- Other chunks are passed over, whatever is in them. -/
theorem add_of_notMem {chunk : Chunk} (h : chunk.tag ∉ Tag.recognized) (roles : ShaderRoles) :
    roles.add chunk = .ok roles := by
  unfold add
  simp_all [Tag.recognized]
  rfl

theorem ofChunks_filter (chunks : List Chunk) :
    ofChunks (chunks.filter (·.tag ∈ Tag.recognized)) = ofChunks chunks := by
  have hstep : (fun roles chunk => if decide (chunk.tag ∈ Tag.recognized) then add roles chunk
      else pure roles) = add := by
    funext roles chunk
    split
    · rfl
    · next hnot => exact (add_of_notMem (by simpa using hnot) roles).symm
  unfold ofChunks
  rw [List.foldlM_filter, hstep]

end ShaderRoles

theorem ShaderContents.ofPayloads_filter (payloads : List Payload) :
    ofPayloads (payloads.filter (·.tag ∈ Tag.recognized)) = ofPayloads payloads := by
  have hunplaced : (payloads.filter (·.tag ∈ Tag.recognized)).map Payload.unplaced
      = (payloads.map Payload.unplaced).filter (·.tag ∈ Tag.recognized) := by
    rw [List.filter_map]
    rfl
  unfold ofPayloads
  rw [hunplaced, ShaderRoles.ofChunks_filter]

namespace Shader

/-- The tags of a shader that was read from a written container are those that were written. -/
theorem tags_of_write {payloads : List Payload} {bytes : List UInt8}
    (h : Container.write payloads = .ok bytes) (hcount : payloads.length ≤ 4096) {shader : Shader}
    (hshader : parse bytes = .ok shader) : shader.tags = payloads.map (·.tag) := by
  rw [parse_of_write_payloads h hcount] at hshader
  obtain ⟨contents, -, rfl⟩ := map_eq_ok_iff.1 hshader
  rfl

theorem map_contents_of_write {payloads : List Payload} {bytes : List UInt8}
    (h : Container.write payloads = .ok bytes) (hcount : payloads.length ≤ 4096) :
    (parse bytes).map contents = ShaderContents.ofPayloads payloads := by
  rw [parse_of_write_payloads h hcount]
  cases ShaderContents.ofPayloads payloads <;> rfl

/-- **Chunks of no role say nothing.** If they are left out of a container with at most 4096 chunks,
    reading what is left gives the same parts, or fails with the same error; only the tags of the
    shader, which are always those of all chunks in order, show that they are missing. -/
theorem parse_filter_recognized {payloads : List Payload} {bytes : List UInt8}
    (h : Container.write payloads = .ok bytes) (hcount : payloads.length ≤ 4096) :
    ∃ bytes', Container.write (payloads.filter (·.tag ∈ Tag.recognized)) = .ok bytes'
      ∧ (parse bytes').map contents = (parse bytes).map contents
      ∧ (∀ shader, parse bytes = .ok shader → shader.tags = payloads.map (·.tag))
      ∧ ∀ shader, parse bytes' = .ok shader →
        shader.tags = (payloads.filter (·.tag ∈ Tag.recognized)).map (·.tag) := by
  have hsub : (payloads.filter (·.tag ∈ Tag.recognized)).Sublist payloads := List.filter_sublist
  obtain ⟨bytes', h'⟩ := Container.exists_write_of_subperm h hsub.subperm
  have hcount' := Nat.le_trans hsub.length_le hcount
  refine ⟨bytes', h', ?_, fun _ => tags_of_write h hcount, fun _ => tags_of_write h' hcount'⟩
  rw [map_contents_of_write h hcount, map_contents_of_write h' hcount',
    ShaderContents.ofPayloads_filter]

/-- A program behind a chunk of debug information. -/
theorem parse_filter_recognized_debug :
    let payloads : List Payload := [⟨.ofChars 'S' 'D' 'B' 'G', [1, 2, 3]⟩,
      ⟨.shex, LittleEndian.ofWords [0x40, 3, 0x100003E]⟩]
    ∃ bytes bytes' shader, Container.write payloads = .ok bytes
      ∧ Container.write (payloads.drop 1) = .ok bytes' ∧ parse bytes' = .ok shader
      ∧ shader.program = some ⟨.pixel, ⟨4, 0⟩, [.ret]⟩ ∧ shader.tags = [.shex]
      ∧ (parse bytes).map contents = .ok shader.contents := by
  intro payloads
  have hsmall : Container.layoutLength payloads < 2 ^ 32 := by decide +revert
  have hcount : payloads.length ≤ 4096 := by decide +revert
  have hread : (ShaderContents.ofPayloads (payloads.drop 1)).map (·.program)
      = .ok (some ⟨.pixel, ⟨4, 0⟩, [.ret]⟩) := by decide +revert +kernel
  have hrest : payloads.filter (·.tag ∈ Tag.recognized) = payloads.drop 1 := by decide +revert
  obtain ⟨bytes, hwrite⟩ := Container.exists_write_iff.2 hsmall
  obtain ⟨bytes', hwrite', hsame, -, htags⟩ := parse_filter_recognized hwrite hcount
  rw [hrest] at hwrite' htags
  obtain ⟨contents, hcontents, hprogram⟩ := map_eq_ok_iff.1 hread
  rw [← map_contents_of_write hwrite' (Nat.le_of_succ_le hcount)] at hcontents
  obtain ⟨shader, hshader, rfl⟩ := map_eq_ok_iff.1 hcontents
  refine ⟨bytes, bytes', shader, hwrite, hwrite', hshader, hprogram, htags shader hshader, ?_⟩
  rw [← hsame, hshader]
  rfl

end Shader

end ShaderBytecode
