import Mathlib.Algebra.GroupWithZero.Nat
import Mathlib.Data.List.Flatten
import Mathlib.Data.List.Perm.Subperm
import ShaderBytecode.Proofs.Container.Writing

set_option autoImplicit false

/-! # The layout of written containers

A container is as long as its header, its table and its chunks together, each chunk filled up to a
multiple of four (`Container.layoutLength`). It can be written exactly if this length fits into 32
bits. A reader then finds the chunks one behind the other, each at a multiple of four: no two of
them overlap, and none overlaps the header or the table. -/

namespace ShaderBytecode

open LittleEndian (wordAt)

/-- Where the data of a chunk ends. -/
def Chunk.finish (chunk : Chunk) : Nat := chunk.offset + headerLength + chunk.data.length

/-! ## Lengths -/

/-- How many bytes a chunk with the given data takes up. -/
def Payload.storedLength (payload : Payload) : Nat := 8 + (payload.data.length + 3) / 4 * 4

theorem Payload.length_toBytes_eq (payload : Payload) :
    payload.toBytes.length = payload.storedLength := by
  rw [length_toBytes, storedLength]
  omega

namespace Container

/-- The length of a container with the given chunks. -/
def layoutLength (payloads : List Payload) : Nat :=
  32 + 4 * payloads.length + (payloads.map Payload.storedLength).sum

theorem length_toBytes_eq_layoutLength (payloads : List Payload) :
    (toBytes payloads).length = layoutLength payloads := by
  have hlengths : payloads.map (fun payload => payload.toBytes.length)
      = payloads.map Payload.storedLength :=
    List.map_congr_left fun payload _ => payload.length_toBytes_eq
  rw [length_toBytes, bodyLength, List.length_flatMap, hlengths]
  rfl

/-- A container can be written exactly if its length fits into 32 bits. -/
theorem exists_write_iff {payloads : List Payload} :
    (∃ bytes, write payloads = .ok bytes) ↔ layoutLength payloads < 2 ^ 32 := by
  simp only [write_eq_ok_iff, ← length_toBytes_eq_layoutLength]
  constructor
  · intro h
    obtain ⟨bytes, hsize, rfl⟩ := h
    exact hsize
  · intro hsize
    exact ⟨_, hsize, rfl⟩

/-- With some chunks, any part of them can be written in any order. -/
theorem exists_write_of_subperm {payloads others : List Payload} {bytes : List UInt8}
    (h : write payloads = .ok bytes) (hpart : others.Subperm payloads) :
    ∃ bytes', write others = .ok bytes' := by
  obtain ⟨hsize, rfl⟩ := write_eq_ok_iff.1 h
  obtain ⟨chosen, hperm, hsub⟩ := hpart
  have hbody : bodyLength others ≤ bodyLength payloads := by
    unfold bodyLength
    rw [← (hperm.flatMap_right _).length_eq]
    exact (hsub.flatMap _).length_le
  have hcount : others.length ≤ payloads.length := hperm.length_eq ▸ hsub.length_le
  refine ⟨_, write_eq_ok_iff.2 ⟨?_, rfl⟩⟩
  rw [length_toBytes, Header.tableEnd] at hsize ⊢
  omega

/-! ## Places -/

/-- The chunks as a reader finds them, the first at `start` and the others behind it. -/
def chunksFrom (start : Nat) : List Payload → List Chunk
  | [] => []
  | payload :: rest =>
      ⟨payload.tag, start, payload.data⟩ :: chunksFrom (start + payload.storedLength) rest

theorem map_payload_chunksFrom (start : Nat) (payloads : List Payload) :
    (chunksFrom start payloads).map Chunk.payload = payloads := by
  induction payloads generalizing start with
  | nil => rfl
  | cons payload rest ih =>
      rw [chunksFrom, List.map_cons, ih]
      rfl

theorem map_stored_chunkOffsets {bytes : List UInt8} (hsize : bytes.length < 2 ^ 32) {start : Nat}
    {payloads : List Payload} (h : bytes.drop start = payloads.flatMap (·.toBytes)) :
    (chunkOffsets start payloads).map (Chunk.stored bytes) = chunksFrom start payloads := by
  induction payloads generalizing start with
  | nil => rfl
  | cons payload rest ih =>
      rw [List.flatMap_cons] at h
      have hlies : payload.LiesAt bytes start := ⟨_, h.symm⟩
      have hrest : bytes.drop (start + payload.toBytes.length) = rest.flatMap (·.toBytes) := by
        rw [← List.drop_drop, h, List.drop_left]
      rw [chunkOffsets, chunksFrom, List.map_cons, (hlies.stored_eq hsize).1, ih hrest,
        payload.length_toBytes_eq]

theorem le_of_mem_chunksFrom {start : Nat} {payloads : List Payload} {chunk : Chunk}
    (h : chunk ∈ chunksFrom start payloads) : start ≤ chunk.offset := by
  induction payloads generalizing start with
  | nil => simp [chunksFrom] at h
  | cons payload rest ih =>
      rw [chunksFrom, List.mem_cons] at h
      rcases h with rfl | h
      · exact Nat.le_refl start
      · exact Nat.le_of_add_right_le (ih h)

/-- From a multiple of four on, all chunks start at multiples of four. -/
theorem aligned_of_mem_chunksFrom {start : Nat} {payloads : List Payload} {chunk : Chunk}
    (hstart : 4 ∣ start) (h : chunk ∈ chunksFrom start payloads) : 4 ∣ chunk.offset := by
  induction payloads generalizing start with
  | nil => simp [chunksFrom] at h
  | cons payload rest ih =>
      rw [chunksFrom, List.mem_cons] at h
      rcases h with rfl | h
      · exact hstart
      · refine ih ?_ h
        unfold Payload.storedLength
        omega

/-- A chunk ends before the next begins. -/
theorem pairwise_chunksFrom (start : Nat) (payloads : List Payload) :
    (chunksFrom start payloads).Pairwise fun before after => before.finish ≤ after.offset := by
  induction payloads generalizing start with
  | nil => exact .nil
  | cons payload rest ih =>
      rw [chunksFrom, List.pairwise_cons]
      refine ⟨fun after hafter => ?_, ih _⟩
      -- The filling stands between the data of the first chunk and whatever comes behind it.
      have hle := le_of_mem_chunksFrom hafter
      simp only [Payload.storedLength] at hle
      simp only [Chunk.finish, Chunk.headerLength]
      omega

theorem finish_le_of_mem_chunksFrom {start : Nat} {payloads : List Payload} {chunk : Chunk}
    (h : chunk ∈ chunksFrom start payloads) :
    chunk.finish ≤ start + (payloads.map Payload.storedLength).sum := by
  induction payloads generalizing start with
  | nil => simp [chunksFrom] at h
  | cons payload rest ih =>
      rw [chunksFrom, List.mem_cons] at h
      rw [List.map_cons, List.sum_cons]
      rcases h with rfl | h
      · simp only [Chunk.finish, Chunk.headerLength, Payload.storedLength]
        omega
      · have hle := ih h
        omega

/-! ## Reading what was written -/

/-- The digest that was written is found again. -/
theorem checksumMatches_toBytes (payloads : List Payload) (offsets : List Nat) :
    (Container.mk (toBytes payloads) (headerOf (toBytes payloads)) offsets).checksumMatches
      = true := by
  have hlong : 20 ≤ (toBytes payloads).length := by
    rw [length_toBytes_eq_add, digestStart]
    omega
  simp [checksumMatches, digest?, hlong, headerOf, storedDigest_toBytes, digestStart, drop_toBytes]

/-- **What is written is read, chunk by chunk.** Any chunks can be written as a container exactly if
    the layout is shorter than 2³² bytes. Every reader that verifies the digest and bears so many
    chunks accepts the bytes and finds the same tags and data in the same order; the digest is
    right, and the header tells the length. Each chunk begins at a multiple of four, behind the
    table and behind all chunks before it, and ends within the bytes. -/
theorem write_reads_back_in_place (payloads : List Payload) :
    ((∃ bytes, write payloads = .ok bytes) ↔ layoutLength payloads < 2 ^ 32)
      ∧ ∀ bytes, write payloads = .ok bytes → bytes.length = layoutLength payloads
        ∧ ∀ maxChunks, payloads.length ≤ maxChunks → ∃ container,
          parseWith { verifyChecksum := true, maxChunks } bytes = .ok container
            ∧ container.chunks.map Chunk.payload = payloads
            ∧ container.checksumMatches = true
            ∧ container.header.totalSize = bytes.length
            ∧ (∀ chunk ∈ container.chunks, 4 ∣ chunk.offset
              ∧ Header.tableEnd payloads.length ≤ chunk.offset ∧ chunk.finish ≤ bytes.length)
            ∧ container.chunks.Pairwise fun before after => before.finish ≤ after.offset := by
  refine ⟨exists_write_iff, fun bytes hwrite => ?_⟩
  obtain ⟨hsize, rfl⟩ := write_eq_ok_iff.1 hwrite
  refine ⟨length_toBytes_eq_layoutLength payloads, fun maxChunks hcount => ?_⟩
  have hchunks := (chunks_toBytes hsize (headerOf (toBytes payloads))).trans
    (map_stored_chunkOffsets hsize (drop_toBytes_tableEnd payloads))
  have haligned : 4 ∣ Header.tableEnd payloads.length := by
    rw [Header.tableEnd, Header.length]
    omega
  refine ⟨_, parseWith_toBytes hsize hcount, ?_, checksumMatches_toBytes payloads _,
    wordAt_toBytes_size hsize, ?_, ?_⟩
  · rw [hchunks, map_payload_chunksFrom]
  · intro chunk hmem
    rw [hchunks] at hmem
    refine ⟨aligned_of_mem_chunksFrom haligned hmem, le_of_mem_chunksFrom hmem, ?_⟩
    rw [length_toBytes_eq_layoutLength]
    exact finish_le_of_mem_chunksFrom hmem
  · rw [hchunks]
    exact pairwise_chunksFrom _ payloads

/-- Two chunks of one tag, the second empty, and one that needs no filling. -/
theorem write_reads_back_in_place_repeated :
    let payloads : List Payload := [⟨.shex, [1, 2, 3]⟩, ⟨.shex, []⟩, ⟨.shdr, [4, 5, 6, 7]⟩]
    ∃ bytes container, write payloads = .ok bytes ∧ bytes.length = 76
      ∧ parseWith { verifyChecksum := true, maxChunks := 3 } bytes = .ok container
      ∧ container.chunks.map Chunk.payload = payloads
      ∧ container.chunks.Pairwise fun before after => before.finish ≤ after.offset := by
  intro payloads
  have hsmall : layoutLength payloads < 2 ^ 32 := by decide +revert
  obtain ⟨hwritable, hread⟩ := write_reads_back_in_place payloads
  obtain ⟨bytes, hwrite⟩ := hwritable.2 hsmall
  obtain ⟨hlength, hparse⟩ := hread bytes hwrite
  obtain ⟨container, hcontainer, hpayloads, -, -, -, hapart⟩ := hparse 3 (Nat.le_refl 3)
  exact ⟨bytes, container, hwrite, hlength, hcontainer, hpayloads, hapart⟩

end Container

end ShaderBytecode
