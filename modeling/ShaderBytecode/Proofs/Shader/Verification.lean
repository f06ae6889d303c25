import Mathlib.Algebra.Group.Nat.Defs
import ShaderBytecode.Proofs.Container.Writing
import ShaderBytecode.Proofs.Digest.Blocks
import ShaderBytecode.Proofs.Shader.Integrity

set_option autoImplicit false

/-! # What the digest is good for

A reader that verifies the digest accepts what any reader accepts, less the bytes that do not store
their own digest (`Container.parseWith_verified`). Nothing else changes, neither what is read nor
which error is given.

So whoever changes a container is found out. The magic tag, the stored digest and the rest make up
the bytes, and of the last two one determines the other; what is left is to keep the stored digest
and to find other bytes with the same one, that is, two sequences of blocks that are compressed to
the same state (`Container.SharesDigest`, `Container.CollidingBlocks`). -/

namespace ShaderBytecode

namespace Container

/-! ## Verifying the digest -/

/-- With enough bytes for a header, to verify is to compare the digests first. -/
theorem parseWith_verified {bytes : List UInt8} (hlong : 32 ≤ bytes.length) (maxChunks : Nat) :
    parseWith { verifyChecksum := true, maxChunks } bytes
      = if storedDigest bytes = digest (bytes.drop 20) then
          parseWith { verifyChecksum := false, maxChunks } bytes
        else .error (.checksumMismatch (storedDigest bytes) (digest (bytes.drop 20))) := by
  have hheader : ¬ bytes.length < 32 := by omega
  simp only [parseWith_eq, checks, headerChecks, digestCheck, List.cons_append, guarded_cons]
  by_cases hdigest : storedDigest bytes = digest (bytes.drop 20)
  · simp [hheader, hdigest]
  · simp [hheader, hdigest]

/-- A container that was read looks for its digest where the reader does. -/
theorem checksumMatches_iff {bytes : List UInt8} (hlong : 32 ≤ bytes.length) (offsets : List Nat) :
    (Container.mk bytes (headerOf bytes) offsets).checksumMatches = true
      ↔ storedDigest bytes = digest (bytes.drop 20) := by
  have hstart : ¬ bytes.length < digestStart := by
    rw [digestStart]
    omega
  rw [checksumMatches, digest?, if_neg hstart, beq_iff_eq, Option.some.injEq]
  exact eq_comm

theorem eq_mk_of_parseWith {options : ParseOptions} {bytes : List UInt8} {container : Container}
    (h : parseWith options bytes = .ok container) :
    32 ≤ bytes.length ∧ ∃ offsets, container = ⟨bytes, headerOf bytes, offsets⟩ := by
  rw [parseWith_eq] at h
  have hpass : firstError (checks options bytes) = none := by
    cases hfirst : firstError (checks options bytes) with
    | none => rfl
    | some e =>
        rw [guarded_eq_error hfirst] at h
        cases h
  rw [guarded_eq_ok hpass] at h
  have hheader := firstError_eq_none_iff.1 hpass _ List.mem_cons_self
  exact ⟨Nat.not_lt.1 (of_decide_eq_false hheader), _, (Except.ok.inj h).symm⟩

theorem parse_eq_ok_iff (bytes : List UInt8) (container : Container) :
    parse bytes = .ok container
      ↔ parseUnverified bytes = .ok container ∧ container.checksumMatches = true := by
  by_cases hlong : 32 ≤ bytes.length
  · have hverified : parse bytes = _ := parseWith_verified hlong 4096
    change _ = if _ then parseUnverified bytes else _ at hverified
    rw [hverified]
    constructor
    · intro h
      split at h
      · next hdigest =>
          obtain ⟨-, offsets, rfl⟩ := eq_mk_of_parseWith h
          exact ⟨h, (checksumMatches_iff hlong offsets).2 hdigest⟩
      · cases h
    · rintro ⟨h, hmatches⟩
      obtain ⟨-, offsets, rfl⟩ := eq_mk_of_parseWith h
      rw [if_pos ((checksumMatches_iff hlong offsets).1 hmatches), h]
  · -- Without a header there is nothing to read, verified or not.
    constructor
    · intro h
      exact absurd (eq_mk_of_parseWith h).1 hlong
    · rintro ⟨h, -⟩
      exact absurd (eq_mk_of_parseWith h).1 hlong

end Container

/-- **Verified reading is reading and comparing digests.** If there are enough bytes for a header, a
    reader that verifies the digest refuses the bytes that do not store their own; of all others it
    makes what a reader makes that does not verify. So it is with containers and with whole shaders,
    and a container is accepted with its digest verified exactly if it is accepted and the digest is
    right. -/
theorem Shader.verified_iff_digest_matches (bytes : List UInt8) (maxChunks : Nat) :
    (32 ≤ bytes.length →
      Container.parseWith { verifyChecksum := true, maxChunks } bytes
          = (if (bytes.drop 4).take 16 = digest (bytes.drop 20) then
              Container.parseWith { verifyChecksum := false, maxChunks } bytes
            else .error (.checksumMismatch ((bytes.drop 4).take 16) (digest (bytes.drop 20))))
        ∧ Shader.parseWith { verifyChecksum := true, maxChunks } bytes
          = (if (bytes.drop 4).take 16 = digest (bytes.drop 20) then
              Shader.parseWith { verifyChecksum := false, maxChunks } bytes
            else .error (.container
              (.checksumMismatch ((bytes.drop 4).take 16) (digest (bytes.drop 20))))))
      ∧ ∀ container, Container.parse bytes = .ok container
        ↔ Container.parseUnverified bytes = .ok container
          ∧ container.checksumMatches = true := by
  refine ⟨fun hlong => ?_, Container.parse_eq_ok_iff bytes⟩
  have hverified := Container.parseWith_verified hlong maxChunks
  rw [Container.storedDigest] at hverified
  refine ⟨hverified, ?_⟩
  unfold Shader.parseWith
  rw [hverified]
  split
  · rfl
  · rfl

/-- Of bytes that are no container at all the digest is compared first, and it is wrong. -/
theorem Shader.verified_iff_digest_matches_zeros :
    let bytes : List UInt8 := List.replicate 32 0
    let mismatch : ContainerError :=
      .checksumMismatch (List.replicate 16 0) (digest (List.replicate 12 0))
    32 ≤ bytes.length
      ∧ (bytes.drop 4).take 16 ≠ digest (bytes.drop 20)
      ∧ Container.parse bytes = .error mismatch
      ∧ Shader.parse bytes = .error (.container mismatch) := by
  intro bytes mismatch
  have hlong : 32 ≤ bytes.length := by decide
  have hwrong : (bytes.drop 4).take 16 ≠ digest (bytes.drop 20) := by decide +kernel
  obtain ⟨hcontainer, hshader⟩ := (verified_iff_digest_matches bytes 4096).1 hlong
  rw [if_neg hwrong] at hcontainer hshader
  exact ⟨hlong, hwrong, hcontainer, hshader⟩

/-! ## Tampering -/

namespace Container

theorem exists_integrity_iff (options : ParseOptions) (bytes : List UInt8) :
    (∃ e, parseWith options bytes = .error e ∧ e.category.isIntegrity = true)
      ↔ FindsDamage (checks options bytes) := by
  rw [parseWith_eq, FindsDamage, guarded]
  cases firstError (checks options bytes) with
  | none => simp
  | some e => simp

/-- What all readers agree on that accept some bytes and verify the digest. -/
theorem sealed_of_parse {bytes : List UInt8} {container : Container}
    (h : parse bytes = .ok container) : 32 ≤ bytes.length
      ∧ storedDigest bytes = digest (bytes.drop 20) ∧ Tag.at bytes 0 = .dxbc := by
  have hlong := (eq_mk_of_parseWith h).1
  have hsound : ¬ FindsDamage (checks {} bytes) := by
    rw [← exists_integrity_iff]
    rintro ⟨e, herror, -⟩
    rw [parse, herror] at h
    cases h
  rw [findsDamage_checks_iff] at hsound
  simp only [hlong, true_and, not_or, not_not] at hsound
  exact ⟨hlong, hsound.1, hsound.2.1⟩

/-- The magic tag, the stored digest and what it covers are all there is. -/
theorem eq_append {bytes : List UInt8} (h : 4 ≤ bytes.length) :
    bytes = (Tag.at bytes 0).toList ++ (storedDigest bytes ++ bytes.drop 20) := by
  have htag : (Tag.at bytes 0).toList = bytes.take 4 := by
    match bytes, h with
    | _ :: _ :: _ :: _ :: _, _ => rfl
  have hrest : storedDigest bytes ++ bytes.drop 20 = bytes.drop 4 := by
    have hcovered : bytes.drop 20 = (bytes.drop 4).drop 16 := by rw [List.drop_drop]
    rw [storedDigest, hcovered, List.take_append_drop]
  rw [htag, hrest, List.take_append_drop]

/-- Other bytes store the same digest, and rightly so. -/
def SharesDigest (bytes other : List UInt8) : Prop :=
  storedDigest other = storedDigest bytes ∧ other.drop 20 ≠ bytes.drop 20
    ∧ digest (other.drop 20) = digest (bytes.drop 20)

/-- Different sequences of blocks are compressed to the same state. -/
def CollidingBlocks (blocks others : List (List UInt8)) : Prop :=
  blocks ≠ others ∧ (∀ block ∈ blocks ++ others, block.length = 64)
    ∧ blocks.foldl DigestState.compress .initial = others.foldl DigestState.compress .initial

theorem SharesDigest.collidingBlocks {bytes other : List UInt8} (h : SharesDigest bytes other)
    (hbytes : bytes.length < 2 ^ 31) (hother : other.length < 2 ^ 31) :
    CollidingBlocks (Digest.blocks (other.drop 20)) (Digest.blocks (bytes.drop 20)) := by
  obtain ⟨-, hne, hdigest⟩ := h
  have hshorter : ∀ data : List UInt8, data.length < 2 ^ 31 → (data.drop 20).length < 2 ^ 31 := by
    intro data hdata
    rw [List.length_drop]
    omega
  refine ⟨mt (Digest.blocks_inj (hshorter _ hother) (hshorter _ hbytes)) hne, ?_, ?_⟩
  · intro block hmem
    rcases List.mem_append.1 hmem with hmem | hmem
    · exact Digest.length_of_mem_blocks hmem
    · exact Digest.length_of_mem_blocks hmem
  · rw [Digest.digest_eq_foldl, Digest.digest_eq_foldl] at hdigest
    exact DigestState.toBytes_inj hdigest

/-- **A change is found out, or it is a collision of the digest.** If a container was accepted and
    other bytes, enough for a header, store the same digest or agree in all that the digest covers,
    then these are reported as damaged; or else they have the same digest for something else that it
    covers. Below 2³¹ bytes that means two sequences of blocks that are compressed to the same
    state. -/
theorem tampering_shows_or_collides {bytes other : List UInt8} {container : Container}
    (haccepted : parse bytes = .ok container) (hne : other ≠ bytes) (hlong : 32 ≤ other.length)
    (hpart : storedDigest other = storedDigest bytes ∨ other.drop 20 = bytes.drop 20) :
    ((∃ e, parse other = .error e ∧ e.category.isIntegrity = true) ∨ SharesDigest bytes other)
      ∧ (SharesDigest bytes other → bytes.length < 2 ^ 31 → other.length < 2 ^ 31 →
        CollidingBlocks (Digest.blocks (other.drop 20)) (Digest.blocks (bytes.drop 20))) := by
  refine ⟨or_iff_not_imp_left.2 fun hunseen => ?_, SharesDigest.collidingBlocks⟩
  obtain ⟨hheader, hdigest, hmagic⟩ := sealed_of_parse haccepted
  -- Bytes that are not reported as damaged store their own digest and begin with the magic tag.
  rw [parse, exists_integrity_iff, findsDamage_checks_iff] at hunseen
  simp only [hlong, true_and, not_or, not_not] at hunseen
  obtain ⟨hdigest', hmagic', -⟩ := hunseen
  have hcovered : other.drop 20 ≠ bytes.drop 20 := by
    intro hcovered
    have hstored : storedDigest other = storedDigest bytes := by
      rw [hdigest', hdigest, hcovered]
    apply hne
    rw [eq_append (Nat.le_trans (by decide) hlong), eq_append (Nat.le_trans (by decide) hheader),
      hmagic, hmagic', hstored, hcovered]
  have hstored := hpart.resolve_right hcovered
  exact ⟨hstored, hcovered, by rw [← hdigest', ← hdigest, hstored]⟩

/-- A byte is appended to a container without chunks. What the digest covers has another digest
    then, so the change is reported as damage. -/
theorem tampering_shows_or_collides_extended :
    let bytes := toBytes []
    let other := bytes ++ [0]
    ∃ container, parse bytes = .ok container ∧ other ≠ bytes ∧ 32 ≤ other.length
      ∧ storedDigest other = storedDigest bytes
      ∧ ¬ SharesDigest bytes other
      ∧ ∃ e, parse other = .error e ∧ e.category.isIntegrity = true := by
  intro bytes other
  have hlength : bytes.length = 32 := length_toBytes []
  have haccepted : parse bytes = .ok _ := parseWith_toBytes (by rw [hlength]; decide) (by decide)
  have hne : other ≠ bytes := by simp [other]
  have hlong : 32 ≤ other.length := by simp [other, hlength]
  have hstored : storedDigest other = storedDigest bytes := by
    have hdrop : 4 ≤ bytes.length := by omega
    rw [storedDigest, List.drop_append_of_le_length hdrop, List.take_append_of_le_length]
    · rfl
    · simp [hlength]
  have hdigest : digest (other.drop 20) ≠ digest (bytes.drop 20) := by decide +revert +kernel
  have hshares : ¬ SharesDigest bytes other := fun h => hdigest h.2.2
  exact ⟨_, haccepted, hne, hlong, hstored, hshares,
    (tampering_shows_or_collides haccepted hne hlong (.inl hstored)).1.resolve_right hshares⟩

end Container

end ShaderBytecode
