import Mathlib.Data.List.Forall2
import ShaderBytecode.Container.Writer
import ShaderBytecode.Proofs.Container.Checks

set_option autoImplicit false

/-! # Containers that are written are read

Behind the table of a written container the chunks lie one after another, each where the table says
(`Container.liesAt_chunkOffsets`). So none of the checks that a reader makes is violated, and what
it finds are the chunks that were written (`Container.parseWith_of_write`). -/

namespace ShaderBytecode

open LittleEndian (wordAt encodeAll)

/-! ## Chunks in their places -/

/-- What a chunk says, its place left aside. -/
def Chunk.payload (chunk : Chunk) : Payload where
  tag := chunk.tag
  data := chunk.data

namespace Payload

/-- The bytes of the chunk stand at the offset. -/
def LiesAt (payload : Payload) (bytes : List UInt8) (offset : Nat) : Prop :=
  payload.toBytes <+: bytes.drop offset

variable {payload : Payload} {bytes : List UInt8} {offset : Nat}

theorem LiesAt.le_length (h : payload.LiesAt bytes offset) :
    offset + payload.toBytes.length ≤ bytes.length := by
  have hle := h.length_le
  rw [List.length_drop, length_toBytes] at hle
  rw [length_toBytes]
  omega

/-- A reader finds the chunk there. -/
theorem LiesAt.stored_eq (h : payload.LiesAt bytes offset) (hsize : bytes.length < 2 ^ 32) :
    Chunk.stored bytes offset = ⟨payload.tag, offset, payload.data⟩
      ∧ offset + 8 + wordAt bytes (offset + 4) ≤ bytes.length := by
  have hle := h.le_length
  rw [length_toBytes] at hle
  obtain ⟨rest, hrest⟩ := h
  have htail : bytes.drop offset = payload.tag.toList ++ (LittleEndian.encode 4 payload.data.length
      ++ (payload.data ++ (List.replicate ((4 - payload.data.length % 4) % 4) 0 ++ rest))) := by
    rw [← hrest, toBytes, paddedData]
    simp only [List.append_assoc]
  have htag : Tag.at bytes offset = payload.tag := by
    rw [← Nat.add_zero offset, ← Tag.at_drop, htail]
    rfl
  have hword : wordAt bytes (offset + 4) = payload.data.length := by
    rw [← LittleEndian.wordAt_drop, htail]
    exact (LittleEndian.wordAt_append payload.tag.toList _ 0).trans
      (LittleEndian.wordAt_encode_append (by omega) _)
  have hdata : (bytes.drop (offset + 8)).take payload.data.length = payload.data := by
    rw [← List.drop_drop, htail, ← List.append_assoc]
    rw [List.drop_left' (by rw [List.length_append, LittleEndian.length_encode]; rfl)]
    exact List.take_left
  refine ⟨?_, by omega⟩
  rw [Chunk.stored, htag, hword, hdata]

end Payload

namespace Container

/-- Chunks that follow each other lie where the table says. -/
theorem liesAt_chunkOffsets {bytes : List UInt8} {start : Nat} {payloads : List Payload}
    (h : bytes.drop start = payloads.flatMap (·.toBytes)) :
    List.Forall₂ (fun offset payload => start ≤ offset ∧ payload.LiesAt bytes offset)
      (chunkOffsets start payloads) payloads := by
  induction payloads generalizing start with
  | nil => exact .nil
  | cons payload payloads ih =>
      rw [List.flatMap_cons] at h
      -- Behind the first chunk the others start where the table goes on.
      have hrest : bytes.drop (start + payload.toBytes.length) = payloads.flatMap (·.toBytes) := by
        rw [← List.drop_drop, h, List.drop_left]
      refine .cons ⟨Nat.le_refl start, ⟨_, h.symm⟩⟩ ((ih hrest).imp ?_)
      rintro offset payload ⟨hle, hlies⟩
      exact ⟨Nat.le_of_add_right_le hle, hlies⟩

/-! ## The layout of a written container -/

/-- The length of all chunks together. -/
def bodyLength (payloads : List Payload) : Nat := (payloads.flatMap (·.toBytes)).length

/-- The numbers that stand before the chunks, behind the digest. -/
def leadingWords (payloads : List Payload) : List Nat :=
  [1, Header.tableEnd payloads.length + bodyLength payloads, payloads.length]
    ++ chunkOffsets (Header.tableEnd payloads.length) payloads

theorem coveredBytes_eq (payloads : List Payload) : coveredBytes payloads
    = encodeAll 4 (leadingWords payloads) ++ payloads.flatMap (·.toBytes) := by
  rw [leadingWords, encodeAll, List.flatMap_append]
  rfl

@[simp] theorem length_chunkOffsets (start : Nat) (payloads : List Payload) :
    (chunkOffsets start payloads).length = payloads.length := by
  induction payloads generalizing start with
  | nil => rfl
  | cons payload payloads ih => rw [chunkOffsets, List.length_cons, List.length_cons, ih]

theorem length_leadingWords (payloads : List Payload) :
    (leadingWords payloads).length = 3 + payloads.length := by
  rw [leadingWords, List.length_append, length_chunkOffsets]
  rfl

theorem length_coveredBytes (payloads : List Payload) :
    (coveredBytes payloads).length = 12 + 4 * payloads.length + bodyLength payloads := by
  rw [coveredBytes_eq, List.length_append, LittleEndian.length_encodeAll, length_leadingWords,
    bodyLength]
  omega

theorem length_digest (data : List UInt8) : (digest data).length = 16 := by
  rw [digest]
  exact LittleEndian.length_ofWords _

theorem length_toBytes_eq_add (payloads : List Payload) :
    (toBytes payloads).length = digestStart + (coveredBytes payloads).length := by
  rw [toBytes, toBytesWith, List.length_append, List.length_append, length_digest]
  rfl

theorem length_toBytes (payloads : List Payload) :
    (toBytes payloads).length = Header.tableEnd payloads.length + bodyLength payloads := by
  rw [length_toBytes_eq_add, length_coveredBytes, digestStart, Header.tableEnd, Header.length]
  omega

theorem drop_toBytes (payloads : List Payload) :
    (toBytes payloads).drop 20 = coveredBytes payloads := by
  rw [toBytes, toBytesWith]
  exact List.drop_left' (by rw [List.length_append, length_digest]; rfl)

theorem tag_at_toBytes (payloads : List Payload) : Tag.at (toBytes payloads) 0 = .dxbc := rfl

theorem storedDigest_toBytes (payloads : List Payload) :
    storedDigest (toBytes payloads) = digest (coveredBytes payloads) := by
  rw [storedDigest, toBytes, toBytesWith, List.append_assoc]
  exact List.take_left' (length_digest _)

theorem drop_toBytes_tableEnd (payloads : List Payload) :
    (toBytes payloads).drop (Header.tableEnd payloads.length) = payloads.flatMap (·.toBytes) := by
  have hend : Header.tableEnd payloads.length
      = 20 + (encodeAll 4 (leadingWords payloads)).length := by
    rw [LittleEndian.length_encodeAll, length_leadingWords, Header.tableEnd, Header.length]
    omega
  rw [hend, ← List.drop_drop, drop_toBytes, coveredBytes_eq, List.drop_left]

/-- The table and the chunks agree. -/
theorem liesAt_toBytes (payloads : List Payload) :
    List.Forall₂ (fun offset payload => Header.tableEnd payloads.length ≤ offset
        ∧ payload.LiesAt (toBytes payloads) offset)
      (chunkOffsets (Header.tableEnd payloads.length) payloads) payloads :=
  liesAt_chunkOffsets (drop_toBytes_tableEnd payloads)

section Small

variable {payloads : List Payload} (hsize : (toBytes payloads).length < 2 ^ 32)

include hsize

/-- A chunk of the table is where a reader looks for it. -/
theorem inside_of_mem_chunkOffsets {offset : Nat}
    (h : offset ∈ chunkOffsets (Header.tableEnd payloads.length) payloads) :
    Header.tableEnd payloads.length ≤ offset
      ∧ offset + 8 + wordAt (toBytes payloads) (offset + 4) ≤ (toBytes payloads).length := by
  have hall := (liesAt_toBytes payloads).imp fun offset payload hlies =>
    And.intro (And.intro hlies.1 (hlies.2.stored_eq hsize).2) trivial
  exact ((List.forall₂_and_left _ _).1 hall).1 offset h

theorem lt_of_mem_leadingWords {n : Nat} (h : n ∈ leadingWords payloads) : n < 2 ^ 32 := by
  have hlength := length_toBytes payloads
  have hend : Header.tableEnd payloads.length = 32 + 4 * payloads.length := rfl
  rcases List.mem_append.1 h with h | h
  · simp only [List.mem_cons, List.not_mem_nil, or_false] at h
    omega
  · have := inside_of_mem_chunkOffsets hsize h
    omega

theorem wordAt_toBytes {i : Nat} (hi : i < (leadingWords payloads).length) :
    wordAt (toBytes payloads) (20 + 4 * i) = (leadingWords payloads)[i] := by
  rw [← LittleEndian.wordAt_drop, drop_toBytes, coveredBytes_eq]
  exact LittleEndian.wordAt_encodeAll_append (fun _ => lt_of_mem_leadingWords hsize) _ hi

theorem declaredCount_toBytes : declaredCount (toBytes payloads) = payloads.length := by
  have hlen : 2 < (leadingWords payloads).length := by
    rw [length_leadingWords]
    omega
  exact wordAt_toBytes hsize hlen

theorem wordAt_toBytes_size : wordAt (toBytes payloads) 24 = (toBytes payloads).length := by
  have hlen : 1 < (leadingWords payloads).length := by
    rw [length_leadingWords]
    omega
  exact (wordAt_toBytes hsize hlen).trans (length_toBytes payloads).symm

theorem map_tableEntry_toBytes :
    (List.range payloads.length).map (tableEntry (toBytes payloads))
      = chunkOffsets (Header.tableEnd payloads.length) payloads := by
  refine List.ext_getElem (by simp) fun i hi hi' => ?_
  rw [length_chunkOffsets] at hi'
  have hlen : i + 3 < (leadingWords payloads).length := by
    rw [length_leadingWords]
    omega
  have hplace : 32 + 4 * i = 20 + 4 * (i + 3) := by omega
  rw [List.getElem_map, List.getElem_range, tableEntry, hplace, wordAt_toBytes hsize hlen]
  rfl

/-- No check is violated. -/
theorem firstError_toBytes {options : ParseOptions} (hcount : payloads.length ≤ options.maxChunks) :
    firstError (checks options (toBytes payloads)) = none := by
  have htable : 32 + 4 * payloads.length ≤ (toBytes payloads).length := by
    rw [length_toBytes, Header.tableEnd, Header.length]
    omega
  refine firstError_eq_none_iff.2 fun check hmem => ?_
  rcases List.mem_append.1 hmem with hmem | hmem
  · simp only [headerChecks, shapeChecks, digestCheck, declaredCount_toBytes hsize,
      wordAt_toBytes_size hsize, drop_toBytes, storedDigest_toBytes, List.mem_cons,
      List.not_mem_nil, or_false] at hmem
    rcases hmem with rfl | rfl | rfl | rfl | rfl | rfl
    · exact decide_eq_false (Nat.not_lt.2 (Nat.le_of_add_right_le htable))
    · simp
    · exact decide_eq_false (not_not.2 (tag_at_toBytes payloads))
    · simp
    · exact decide_eq_false (Nat.not_lt.2 hcount)
    · exact decide_eq_false (Nat.not_lt.2 htable)
  · obtain ⟨index, hindex, hmem⟩ := List.mem_flatMap.1 hmem
    rw [declaredCount_toBytes hsize] at hindex
    have hentry : tableEntry (toBytes payloads) index
        ∈ chunkOffsets (Header.tableEnd payloads.length) payloads := by
      rw [← map_tableEntry_toBytes hsize]
      exact List.mem_map_of_mem hindex
    obtain ⟨hstart, hfinish⟩ := inside_of_mem_chunkOffsets hsize hentry
    rw [chunkChecks, declaredCount_toBytes hsize] at hmem
    simp only [chunkChecksAt, List.mem_cons, List.not_mem_nil, or_false] at hmem
    rcases hmem with rfl | rfl | rfl
    · exact decide_eq_false (Nat.not_lt.2 hstart)
    · exact decide_eq_false (Nat.not_lt.2 (Nat.le_of_add_right_le hfinish))
    · exact decide_eq_false (Nat.not_lt.2 hfinish)

end Small

/-- A container is written unless its length does not fit into 32 bits. -/
theorem write_eq_ok_iff {payloads : List Payload} {bytes : List UInt8} :
    write payloads = .ok bytes ↔ bytes.length < 2 ^ 32 ∧ bytes = toBytes payloads := by
  unfold write
  rw [← length_toBytes_eq_add]
  split
  · next hfits =>
      constructor
      · intro h
        obtain rfl := Except.ok.inj h
        exact ⟨hfits, rfl⟩
      · rintro ⟨-, rfl⟩
        rfl
  · next hlarge =>
      constructor
      · intro h
        cases h
      · rintro ⟨hsize, rfl⟩
        exact absurd hsize hlarge

/-- A reader finds in the bytes the table that was written. -/
theorem parseWith_toBytes {payloads : List Payload} (hsize : (toBytes payloads).length < 2 ^ 32)
    {options : ParseOptions} (hcount : payloads.length ≤ options.maxChunks) :
    parseWith options (toBytes payloads) = .ok ⟨toBytes payloads, headerOf (toBytes payloads),
      chunkOffsets (Header.tableEnd payloads.length) payloads⟩ := by
  rw [parseWith_eq, guarded_eq_ok (firstError_toBytes hsize hcount), declaredCount_toBytes hsize,
    map_tableEntry_toBytes hsize]

/-- And the chunks are where the table says. -/
theorem chunks_toBytes {payloads : List Payload} (hsize : (toBytes payloads).length < 2 ^ 32)
    (header : Header) :
    (Container.mk (toBytes payloads) header
        (chunkOffsets (Header.tableEnd payloads.length) payloads)).chunks
      = (chunkOffsets (Header.tableEnd payloads.length) payloads).map
        (Chunk.stored (toBytes payloads)) := by
  have hcount : payloads.length ≤ (ParseOptions.mk true payloads.length).maxChunks :=
    Nat.le_refl payloads.length
  have hpass := firstError_toBytes hsize hcount
  rw [← map_tableEntry_toBytes hsize, ← declaredCount_toBytes hsize, chunks_eq hpass, List.map_map]
  rfl

/-- **A container that was written is read**, by any reader that bears so many chunks, and its
    chunks are what was written. -/
theorem parseWith_of_write {payloads : List Payload} {bytes : List UInt8}
    (h : write payloads = .ok bytes) {options : ParseOptions}
    (hcount : payloads.length ≤ options.maxChunks) :
    ∃ container, parseWith options bytes = .ok container
      ∧ container.bytes = bytes ∧ container.header = headerOf bytes
      ∧ container.chunks.map Chunk.payload = payloads := by
  obtain ⟨hsize, rfl⟩ := write_eq_ok_iff.1 h
  have hstored : List.Forall₂
      (fun offset payload => (Chunk.stored (toBytes payloads) offset).payload = payload)
      (chunkOffsets (Header.tableEnd payloads.length) payloads) payloads :=
    (liesAt_toBytes payloads).imp fun offset payload hlies =>
      congrArg Chunk.payload (hlies.2.stored_eq hsize).1
  rw [← List.forall₂_map_left_iff (f := fun offset => (Chunk.stored _ offset).payload),
    List.forall₂_eq_eq_eq] at hstored
  refine ⟨_, parseWith_toBytes hsize hcount, rfl, rfl, ?_⟩
  rw [chunks_toBytes hsize, List.map_map]
  exact hstored

end Container

end ShaderBytecode
