import ShaderBytecode.Container.Contents
import ShaderBytecode.Proofs.Container.Layout
import ShaderBytecode.Proofs.Signature.LongEntries

set_option autoImplicit false

/-! # Signatures in containers

A signature is looked up under two tags, one for each form of its entries. What is found is read in
the form that the chunk's own tag suggests, whichever tag was asked for. So a signature with long
entries that is stored under the tag for them comes back as it is, for all that streams and precisions
may hold, also to those who ask for short entries (`Container.signature?_longBytes`). -/

namespace ShaderBytecode

namespace Container

/-- The chunks that a signature may be read from, their places left aside. -/
def signaturePayloads (container : Container) (tag : Tag) : List Payload :=
  (container.chunks.map Chunk.payload).filter fun payload =>
    payload.tag = tag ∨ tag.otherForm? = some payload.tag

/-- The first chunk with a tag is among them if the tag is one of the two. -/
theorem map_payload_chunk? {container : Container} {tag other : Tag}
    (h : other = tag ∨ tag.otherForm? = some other) :
    (container.chunk? other).map Chunk.payload
      = (container.signaturePayloads tag).find? (·.tag == other) := by
  rw [signaturePayloads, List.find?_filter, List.find?_map]
  refine congrArg (fun p => (container.chunks.find? p).map Chunk.payload) (funext fun chunk => ?_)
  by_cases heq : chunk.tag = other
  · simp [Chunk.payload, heq, h]
  · simp [Chunk.payload, heq]

/-- Where there is only one chunk to choose it is read, under its own tag. -/
theorem signature?_of_only {container : Container} {tag : Tag} {payload : Payload}
    (h : container.signaturePayloads tag = [payload]) :
    container.signature? tag = some ((Signature.parseTagged payload.tag payload.data).mapError
      (.badSignatureChunk payload.tag)) := by
  have hfind : ∀ other, other = tag ∨ tag.otherForm? = some other →
      (container.chunk? other).map Chunk.payload = [payload].find? (·.tag == other) := by
    intro other hother
    rw [map_payload_chunk? hother, h]
  have hmem : payload.tag = tag ∨ tag.otherForm? = some payload.tag := by
    have hin : payload ∈ container.signaturePayloads tag := by simp [h]
    simpa using (List.mem_filter.1 hin).2
  have hown := hfind payload.tag hmem
  rw [List.find?_cons_of_pos (by simp)] at hown
  obtain ⟨chunk, hchunk, rfl⟩ := Option.map_eq_some_iff.1 hown
  have hfound : container.signatureChunk? tag = some chunk := by
    by_cases heq : chunk.tag = tag
    · have hasked : container.chunk? tag = some chunk := heq ▸ hchunk
      simp [signatureChunk?, hasked]
    · -- Nothing has the tag asked for, so the other one is tried, which is the chunk's.
      have hnone := hfind tag (.inl rfl)
      rw [List.find?_cons_of_neg (by simpa [Chunk.payload] using heq), List.find?_nil,
        Option.map_eq_none_iff] at hnone
      have hother : tag.otherForm? = some chunk.tag := hmem.resolve_left heq
      have hlast : container.chunk? chunk.tag = some chunk := hchunk
      simp [signatureChunk?, hnone, hother, hlast]
  rw [signature?, hfound]
  rfl

/-- **Signatures with long entries are read as they are under their own tag.** Whatever the elements
    and the bytes between their fields are, every tag that ends in `1` gives them back. So does
    looking for the input signature of a container that has only this one, stored under the tag for
    long entries. -/
theorem signature?_longBytes {entries : List (SignatureElement × UInt16)}
    (hnames : ∀ entry ∈ entries, NulFree entry.1.name)
    (hsize : (Signature.longBytes entries).length < 2 ^ 32) :
    (∀ tag : Tag, tag.fourth = '1'.toUInt8 →
        Signature.parseTagged tag (Signature.longBytes entries) = .ok (entries.map (·.1)))
      ∧ ∀ container : Container,
          container.signaturePayloads .isgn = [⟨.isg1, Signature.longBytes entries⟩] →
          container.signature? .isgn = some (.ok (entries.map (·.1))) := by
  have hparse : ∀ tag : Tag, tag.fourth = '1'.toUInt8 →
      Signature.parseTagged tag (Signature.longBytes entries) = .ok (entries.map (·.1)) := by
    intro tag htag
    rw [Signature.parseTagged, Signature.layoutOf, if_pos htag]
    exact Signature.parseTrying_of_read (Signature.read_long_longBytes entries hnames hsize)
  refine ⟨hparse, fun container honly => ?_⟩
  rw [signature?_of_only honly, hparse .isg1 rfl]
  rfl

/-- Two elements with streams and precisions of 32 bits, a name that is not ASCII and something
    between the fields, in a container with an output signature in front. -/
theorem signature?_longBytes_wide :
    let entries : List (SignatureElement × UInt16) :=
      [(⟨"SV_Größe", 0, 1, 3, 0, 15, 0, 0xFFFFFFFF, 0x80000000⟩, 0xBEEF),
        (⟨"", 7, 0, 1, 0xFFFFFFFF, 255, 8, 0x102, 9⟩, 1)]
    let data := Signature.longBytes entries
    ∃ bytes container, write [⟨.osgn, [0, 0, 0, 0, 8, 0, 0, 0]⟩, ⟨.isg1, data⟩] = .ok bytes
      ∧ parseWith { verifyChecksum := true, maxChunks := 2 } bytes = .ok container
      ∧ container.signature? .isgn = some (.ok (entries.map (·.1)))
      ∧ Signature.parseTagged (.ofChars 'P' 'S' 'G' '1') data = .ok (entries.map (·.1)) := by
  intro entries data
  have hnames : ∀ entry ∈ entries, NulFree entry.1.name := by decide +revert +kernel
  have hsize : data.length < 2 ^ 32 := by decide +revert +kernel
  have hsmall : layoutLength [⟨.osgn, [0, 0, 0, 0, 8, 0, 0, 0]⟩, ⟨.isg1, data⟩] < 2 ^ 32 := by
    decide +revert +kernel
  obtain ⟨hparse, hlookup⟩ := signature?_longBytes hnames hsize
  obtain ⟨bytes, hwrite⟩ := exists_write_iff.2 hsmall
  obtain ⟨container, hcontainer, -, -, hpayloads⟩ :=
    @parseWith_of_write _ _ hwrite ⟨true, 2⟩ (Nat.le_refl 2)
  refine ⟨bytes, container, hwrite, hcontainer, hlookup container ?_, hparse _ rfl⟩
  rw [signaturePayloads, hpayloads]
  rfl

end Container

end ShaderBytecode
