import ShaderBytecode.Proofs.Container.Checks
import ShaderBytecode.Shader

set_option autoImplicit false

/-! # Which bytes are refused, and why

Bytes are refused for the first check that they violate; if there is none, the container that is
read has all the chunks of its table, each with the bytes that belong to it.

Only the checks of a container as a whole can find damage. Whatever is read from its chunks, with
all their records, names and types, fails for its structure if it fails at all
(`ShaderRoles.onlyFails_ofChunks`), so that it is known from the checks which bytes are reported as
damaged. -/

namespace ShaderBytecode

/-- The error is about structure and not about damage. -/
def ContainerError.IsStructural (e : ContainerError) : Prop := e.category.isIntegrity = false

open ContainerError (IsStructural)
open LittleEndian (wordAt)

/-! ## Reading bytes -/

namespace ByteReader

theorem onlyFails_get : OnlyFails IsStructural (get : ByteReader ByteCursor) := by
  rintro e ⟨s, s', h⟩
  cases h

theorem onlyFails_set (c : ByteCursor) : OnlyFails IsStructural (set c : ByteReader PUnit) := by
  rintro e ⟨s, s', h⟩
  cases h

theorem onlyFails_take (count : Nat) : OnlyFails IsStructural (take count) :=
  onlyFails_get.bind fun _ => .refuse rfl (.refuse rfl ((onlyFails_set _).bind fun _ => .pure _))

theorem onlyFails_number (count : Nat) : OnlyFails IsStructural (number count) :=
  (onlyFails_take count).bind fun _ => .pure _

theorem onlyFails_uint8 : OnlyFails IsStructural uint8 := (onlyFails_number 1).bind fun _ => .pure _

theorem onlyFails_uint16 : OnlyFails IsStructural uint16 :=
  (onlyFails_number 2).bind fun _ => .pure _

theorem onlyFails_uint32 : OnlyFails IsStructural uint32 :=
  (onlyFails_number 4).bind fun _ => .pure _

theorem onlyFails_seek (offset : Nat) : OnlyFails IsStructural (seek offset) :=
  onlyFails_get.bind fun _ => .refuse rfl (onlyFails_set _)

theorem onlyFails_runAt {α : Type} {reader : ByteReader α} (h : OnlyFails IsStructural reader)
    (bytes : List UInt8) (offset : Nat) : OnlyFails IsStructural (reader.runAt bytes offset) := by
  intro e he
  change reader.runAt bytes offset = .error e at he
  unfold runAt at he
  split at he
  · cases he
  · next e' c hrun =>
      cases he
      exact (onlyFails_seek offset).bind (fun _ => h) e ⟨_, c, hrun⟩

end ByteReader

/-! ## Resource tables -/

namespace ResourceTable

open ByteReader

theorem onlyFails_checkRecords (bytes : List UInt8) (kind : RecordKind) (offset count size : Nat) :
    OnlyFails IsStructural (checkRecords bytes kind offset count size) := by
  unfold checkRecords
  split
  · exact .pure ()
  · exact .throw rfl

theorem onlyFails_nameAt (bytes : List UInt8) (owner : NameOwner) (offset : Nat) :
    OnlyFails IsStructural (nameAt bytes owner offset) := by
  unfold nameAt
  split
  · exact .pure _
  · exact .throw rfl

theorem onlyFails_readTypeRecord : OnlyFails IsStructural readTypeRecord :=
  onlyFails_uint16.bind fun _ => onlyFails_uint16.bind fun _ => onlyFails_uint16.bind fun _ =>
    onlyFails_uint16.bind fun _ => onlyFails_uint16.bind fun _ => onlyFails_uint16.bind fun _ =>
      onlyFails_uint32.bind fun _ => .pure _

theorem onlyFails_readMemberRecord : OnlyFails IsStructural readMemberRecord :=
  (onlyFails_number 4).bind fun _ => (onlyFails_number 4).bind fun _ =>
    onlyFails_uint32.bind fun _ => .pure _

theorem onlyFails_countType (length : Nat) : OnlyFails IsStructural (countType length) := by
  have hget : OnlyFails IsStructural (get : TypeReader Nat) := by
    rintro e ⟨n, h⟩
    cases h
  have hset : ∀ n : Nat, OnlyFails IsStructural (set n : TypeReader PUnit) := by
    rintro n e ⟨m, h⟩
    cases h
  exact hget.bind fun _ => .refuse rfl (hset _)

theorem onlyFails_readType (bytes : List UInt8) (levels offset : Nat) :
    OnlyFails IsStructural (readType bytes levels offset) := by
  -- The levels bound how deep types nest, so the types of members are covered by the induction.
  induction levels generalizing offset with
  | zero => exact .throw rfl
  | succ levels ih =>
      refine (onlyFails_countType _).bind fun _ => .refuse rfl ?_
      refine (onlyFails_runAt onlyFails_readTypeRecord _ _).lift.bind fun record => ?_
      refine (onlyFails_checkRecords _ _ _ _ _).lift.bind fun _ => ?_
      refine (OnlyFails.mapM (fun number => ?_) _).bind fun members => .pure _
      refine (onlyFails_runAt onlyFails_readMemberRecord _ _).lift.bind fun member => ?_
      exact (onlyFails_nameAt _ _ _).lift.bind fun _ => (ih _).bind fun _ => .pure _

theorem onlyFails_readVariable (bytes : List UInt8) (offset : Nat) :
    OnlyFails IsStructural (readVariable bytes offset) := by
  have hrecord : OnlyFails IsStructural readVariableRecord :=
    (onlyFails_number 4).bind fun _ => onlyFails_uint32.bind fun _ => onlyFails_uint32.bind fun _ =>
      onlyFails_uint32.bind fun _ => (onlyFails_number 4).bind fun _ =>
        onlyFails_uint32.bind fun _ => .pure _
  exact (onlyFails_runAt hrecord _ _).lift.bind fun record =>
    (onlyFails_nameAt _ _ _).lift.bind fun _ => (onlyFails_readType _ _ _).bind fun _ => .pure _

theorem onlyFails_readBuffer (bytes : List UInt8) (variableLength offset : Nat) :
    OnlyFails IsStructural (readBuffer bytes variableLength offset) := by
  have hrecord : OnlyFails IsStructural readBufferRecord :=
    (onlyFails_number 4).bind fun _ => (onlyFails_number 4).bind fun _ =>
      (onlyFails_number 4).bind fun _ => onlyFails_uint32.bind fun _ =>
        onlyFails_uint32.bind fun _ => onlyFails_uint32.bind fun _ => .pure _
  refine (onlyFails_runAt hrecord _ _).lift.bind fun record => ?_
  refine (onlyFails_checkRecords _ _ _ _ _).lift.bind fun _ => ?_
  refine (OnlyFails.mapM (fun number => onlyFails_readVariable _ _) _).bind fun vars => ?_
  exact (onlyFails_nameAt _ _ _).lift.bind fun _ => .pure _

theorem onlyFails_readBinding (bytes : List UInt8) (offset : Nat) :
    OnlyFails IsStructural (readBinding bytes offset) := by
  have hrecord : OnlyFails IsStructural readBindingRecord :=
    (onlyFails_number 4).bind fun _ => onlyFails_uint32.bind fun _ => onlyFails_uint32.bind fun _ =>
      onlyFails_uint32.bind fun _ => onlyFails_uint32.bind fun _ => onlyFails_uint32.bind fun _ =>
        onlyFails_uint32.bind fun _ => onlyFails_uint32.bind fun _ => .pure _
  exact (onlyFails_runAt hrecord _ _).bind fun record =>
    (onlyFails_nameAt _ _ _).bind fun _ => .pure _

theorem onlyFails_readHeader : OnlyFails IsStructural readHeader :=
  (onlyFails_number 4).bind fun _ => (onlyFails_number 4).bind fun _ =>
    (onlyFails_number 4).bind fun _ => (onlyFails_number 4).bind fun _ =>
      onlyFails_uint8.bind fun _ => onlyFails_uint8.bind fun _ => onlyFails_uint16.bind fun _ =>
        onlyFails_uint32.bind fun _ => (onlyFails_number 4).bind fun _ => .pure _

theorem onlyFails_parse (bytes : List UInt8) : OnlyFails IsStructural (parse bytes) := by
  refine .refuse rfl ((onlyFails_runAt onlyFails_readHeader _ _).bind fun header => ?_)
  refine (onlyFails_nameAt _ _ _).bind fun creator => ?_
  refine (onlyFails_checkRecords _ _ _ _ _).bind fun _ => ?_
  have hbuffers : OnlyFails IsStructural (readBuffers bytes header) :=
    .mapM (fun number => onlyFails_readBuffer _ _ _) _
  refine OnlyFails.bind (fun e h => hbuffers e ⟨_, h⟩) fun buffers => ?_
  refine (onlyFails_checkRecords _ _ _ _ _).bind fun _ => ?_
  exact (OnlyFails.mapM (fun number => onlyFails_readBinding _ _) _).bind fun _ => .pure _

end ResourceTable

/-! ## Signatures -/

namespace Signature

/-- Whatever goes wrong with one form of the table and the other, the chunk is to blame. -/
theorem onlyFails_parseTagged (tag : Tag) (bytes : List UInt8) :
    OnlyFails IsStructural (parseTagged tag bytes) := by
  unfold parseTagged parseTrying
  split
  · exact .pure _
  · -- The errors of both attempts end up inside one about the chunk, so neither is looked at.
    split
    · exact .pure _
    · exact .throw rfl

end Signature

/-! ## Shaders -/

theorem ShaderRoles.onlyFails_ofChunks (chunks : List Chunk) :
    OnlyFails IsStructural (ofChunks chunks) := by
  refine .foldlM (fun roles chunk => ?_) _ _
  unfold add
  dsimp only
  split
  · exact (ResourceTable.onlyFails_parse _).bind fun _ => .pure _
  · split
    · exact (Signature.onlyFails_parseTagged _ _).bind fun _ => .pure _
    · split
      · exact (Signature.onlyFails_parseTagged _ _).bind fun _ => .pure _
      · split
        · exact .pure _
        · split
          · exact .pure _
          · exact .pure _

/-- What is wrong with the contents of a container is never reported as damage. -/
theorem Shader.onlyFails_ofContainer (container : Container) :
    OnlyFails (fun e : ShaderError => e.isIntegrity = false) (ofContainer container) := by
  have hroles : OnlyFails (fun e : ShaderError => e.isIntegrity = false)
      ((ShaderRoles.ofChunks container.chunks).mapError ShaderError.container) :=
    (ShaderRoles.onlyFails_ofChunks container.chunks).mapError fun _ h => h
  have hprogram : ∀ chunk, OnlyFails (fun e : ShaderError => e.isIntegrity = false)
      (programOf chunk) := by
    have hany : ∀ {ε α : Type} (x : Except ε α), OnlyFails (fun _ => True) x := fun _ _ _ => trivial
    intro chunk
    refine .bind ?_ fun tokens => ?_
    · exact (hany _).mapError fun _ _ => rfl
    · exact (hany _).mapError fun _ _ => rfl
  refine hroles.bind fun roles => OnlyFails.bind ?_ fun _ => .pure _
  cases roles.program with
  | none => exact .pure none
  | some chunk => exact (hprogram chunk).bind fun _ => .pure _

/-! ## The outcome of reading -/

namespace Container

/-- Some check is violated, and the first that is tells of damage. -/
def FindsDamage (checks : List Check) : Prop :=
  ∃ e, firstError checks = some e ∧ e.category.isIntegrity = true

theorem findsDamage_cons_iff {violated : Bool} {error : ContainerError} {checks : List Check} :
    FindsDamage (⟨violated, error⟩ :: checks)
      ↔ if violated then error.category.isIntegrity = true else FindsDamage checks := by
  unfold FindsDamage
  rw [firstError_cons]
  cases violated <;> simp

theorem not_findsDamage_of_isStructural {checks : List Check}
    (h : ∀ check ∈ checks, check.error.IsStructural) : ¬ FindsDamage checks := by
  rintro ⟨e, hfirst, hdamage⟩
  obtain ⟨check, hmem, rfl⟩ := exists_check_of_firstError hfirst
  exact Bool.false_ne_true ((h check hmem).symm.trans hdamage)

/-- The checks of the table and of the chunks are about structure. -/
theorem isStructural_of_mem_chunkChecks {bytes : List UInt8} {check : Check}
    (h : check ∈ (List.range (declaredCount bytes)).flatMap (chunkChecks bytes)) :
    check.error.IsStructural := by
  obtain ⟨index, -, hmem⟩ := List.mem_flatMap.1 h
  simp only [chunkChecks, chunkChecksAt, List.mem_cons, List.not_mem_nil, or_false] at hmem
  rcases hmem with rfl | rfl | rfl <;> rfl

theorem findsDamage_checks_iff (options : ParseOptions) (bytes : List UInt8) :
    FindsDamage (checks options bytes) ↔ 32 ≤ bytes.length
      ∧ (options.verifyChecksum = true ∧ storedDigest bytes ≠ digest (bytes.drop 20)
        ∨ Tag.at bytes 0 ≠ .dxbc ∨ wordAt bytes 24 ≠ bytes.length) := by
  have hchunks :
      ¬ FindsDamage ((List.range (declaredCount bytes)).flatMap (chunkChecks bytes)) :=
    not_findsDamage_of_isStructural fun _ => isStructural_of_mem_chunkChecks
  unfold checks headerChecks digestCheck shapeChecks
  simp only [List.cons_append, List.nil_append, findsDamage_cons_iff, hchunks,
    ContainerError.category, ErrorCategory.isIntegrity]
  grind

theorem map_category_checks (options : ParseOptions) (bytes : List UInt8) :
    (checks options bytes).map (·.error.category)
      = [.header, .checksum, .magic, .size, .offsets, .offsets]
        ++ (List.range (declaredCount bytes)).flatMap fun _ => [.offsets, .range, .range] := by
  unfold checks
  rw [List.map_append, List.map_flatMap]
  rfl

end Container

theorem Shader.exists_integrity_iff (options : ParseOptions) (bytes : List UInt8) :
    (∃ e, parseWith options bytes = .error e ∧ e.isIntegrity = true)
      ↔ Container.FindsDamage (Container.checks options bytes) := by
  unfold parseWith
  rw [Container.parseWith_eq, Container.FindsDamage, guarded]
  cases hfirst : firstError (Container.checks options bytes) with
  | some e =>
      constructor
      · rintro ⟨e', h, hintegrity⟩
        cases h
        exact ⟨e, rfl, hintegrity⟩
      · rintro ⟨e', h, hintegrity⟩
        cases h
        exact ⟨.container e, rfl, hintegrity⟩
  | none =>
      constructor
      · rintro ⟨e, h, hintegrity⟩
        exact absurd hintegrity (by simp [onlyFails_ofContainer _ e h])
      · rintro ⟨e, h, -⟩
        cases h

/-- **Bytes are refused for the first check that they violate, and no chunk of a container is
    lost.** The checks come in a fixed order of categories. If none is violated, there are as many
    chunks as the header declares, in the order of the table, each with its tag and with exactly the
    bytes that its size says. So bytes are reported as damaged if and only if there is a header and
    the digest, the magic tag or the length is wrong. -/
theorem Container.parseWith_reports_first_violation (options : ParseOptions) (bytes : List UInt8) :
    ((checks options bytes).map (·.error.category)
        = [.header, .checksum, .magic, .size, .offsets, .offsets]
          ++ (List.range (declaredCount bytes)).flatMap fun _ => [.offsets, .range, .range])
      ∧ (match firstError (checks options bytes) with
        | some e => parseWith options bytes = .error e
        | none => ∃ container, parseWith options bytes = .ok container
            ∧ container.bytes = bytes ∧ container.header = headerOf bytes
            ∧ container.chunks = (List.range (declaredCount bytes)).map (fun index =>
                Chunk.stored bytes (tableEntry bytes index))
            ∧ ∀ index < declaredCount bytes, tableEntry bytes index + 8
                + wordAt bytes (tableEntry bytes index + 4) ≤ bytes.length)
      ∧ ((∃ e, Shader.parseWith options bytes = .error e ∧ e.isIntegrity = true)
        ↔ 32 ≤ bytes.length
          ∧ (options.verifyChecksum = true ∧ storedDigest bytes ≠ digest (bytes.drop 20)
            ∨ Tag.at bytes 0 ≠ .dxbc ∨ wordAt bytes 24 ≠ bytes.length)) := by
  refine ⟨map_category_checks options bytes, ?_, ?_⟩
  · rw [parseWith_eq]
    cases hfirst : firstError (checks options bytes) with
    | some e => exact guarded_eq_error hfirst _
    | none =>
        refine ⟨_, guarded_eq_ok hfirst _, rfl, rfl, chunks_eq hfirst _, ?_⟩
        exact fun index hindex => (entry_inside hfirst hindex).2
  · rw [Shader.exists_integrity_iff, findsDamage_checks_iff]

end ShaderBytecode
