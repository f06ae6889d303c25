import ShaderBytecode.Container.Parser
import ShaderBytecode.Proofs.Bytes.Reading

set_option autoImplicit false

/-! # What a container is checked for

The checks are written down as a list, each with the condition under which it refuses the bytes and
with its error, in terms of the bytes alone. Reading a container is then to look for the first check
that is violated (`Container.parseWith_eq`). If there is none, at every offset of the table lies a
chunk, so that none is missing from the list of chunks (`Container.chunks_eq`). -/

namespace ShaderBytecode

open LittleEndian (wordAt)

/-- A condition under which bytes are refused, and the error that tells why. -/
structure Check where
  violated : Bool
  error : ContainerError

/-- The error of the first check that is violated. -/
def firstError (checks : List Check) : Option ContainerError :=
  (checks.find? (·.violated)).map (·.error)

theorem firstError_cons (violated : Bool) (error : ContainerError) (checks : List Check) :
    firstError (⟨violated, error⟩ :: checks)
      = if violated then some error else firstError checks := by
  unfold firstError
  cases violated <;> simp

theorem firstError_append (xs ys : List Check) :
    firstError (xs ++ ys) = (firstError xs).or (firstError ys) := by
  unfold firstError
  rw [List.find?_append]
  cases xs.find? (·.violated) <;> rfl

theorem firstError_eq_none_iff {checks : List Check} :
    firstError checks = none ↔ ∀ check ∈ checks, check.violated = false := by
  simp [firstError]

theorem exists_check_of_firstError {checks : List Check} {e : ContainerError}
    (h : firstError checks = some e) : ∃ check ∈ checks, check.error = e := by
  obtain ⟨check, hfind, herror⟩ := Option.map_eq_some_iff.1 h
  exact ⟨check, List.mem_of_find?_eq_some hfind, herror⟩

section Guarded

variable {α β : Type}

/-- The value if no check is violated, else the error of the first that is. -/
def guarded (checks : List Check) (a : α) : Except ContainerError α :=
  match firstError checks with
  | some e => .error e
  | none => .ok a

theorem guarded_eq_ok {checks : List Check} (h : firstError checks = none) (a : α) :
    guarded checks a = .ok a := by
  simp only [guarded, h]

theorem guarded_eq_error {checks : List Check} {e : ContainerError} (h : firstError checks = some e)
    (a : α) : guarded checks a = .error e := by
  simp only [guarded, h]

theorem guarded_cons (violated : Bool) (error : ContainerError) (checks : List Check) (a : α) :
    guarded (⟨violated, error⟩ :: checks) a
      = if violated then .error error else guarded checks a := by
  unfold guarded
  rw [firstError_cons]
  cases violated <;> rfl

/-- A step that refuses, and goes on otherwise, is a check. -/
theorem check_then_eq_guarded {P : Prop} [Decidable P] {error : ContainerError}
    {next : Except ContainerError α} {checks : List Check} {a : α}
    (h : ¬ P → next = guarded checks a) :
    (if P then (throw error >>= fun _ : PUnit => next) else next)
      = guarded (⟨decide P, error⟩ :: checks) a := by
  rw [guarded_cons]
  by_cases hP : P
  · rw [if_pos hP, if_pos (decide_eq_true hP)]
    rfl
  · rw [if_neg hP, if_neg (by simpa using hP), h hP]

/-- The same of a last step. -/
theorem check_eq_guarded {P : Prop} [Decidable P] {error : ContainerError} :
    (if P then throw error else pure ()) = guarded [⟨decide P, error⟩] () := by
  rw [guarded_cons]
  by_cases hP : P
  · rw [if_pos hP, if_pos (decide_eq_true hP)]
    rfl
  · rw [if_neg hP, if_neg (by simpa using hP)]
    rfl

/-- After some checks others can be made, and they can rely on the first. -/
theorem guarded_bind {xs ys : List Check} {a : α} {f : α → Except ContainerError β} {b : β}
    (h : firstError xs = none → f a = guarded ys b) :
    (guarded xs a >>= f) = guarded (xs ++ ys) b := by
  cases hxs : firstError xs with
  | some e =>
      rw [guarded_eq_error hxs, guarded_eq_error (by rw [firstError_append, hxs, Option.some_or])]
      rfl
  | none =>
      rw [guarded_eq_ok hxs]
      refine (h hxs).trans ?_
      unfold guarded
      rw [firstError_append, hxs, Option.none_or]

/-- What is made of a value does not change the checks before it. -/
theorem guarded_bind_pure {xs : List Check} {a : α} (f : α → β) :
    (guarded xs a >>= fun a => pure (f a)) = guarded xs (f a) := by
  unfold guarded
  cases firstError xs <;> rfl

/-- Checks that are made for each member of a list in turn are one sequence of checks. -/
theorem mapM_eq_guarded {f : α → Except ContainerError β} {checks : α → List Check} {g : α → β}
    {as : List α} (h : ∀ a ∈ as, f a = guarded (checks a) (g a)) :
    as.mapM f = guarded (as.flatMap checks) (as.map g) := by
  induction as with
  | nil => rfl
  | cons a as ih =>
      obtain ⟨ha, has⟩ := List.forall_mem_cons.1 h
      rw [List.mapM_cons, ha, ih has]
      exact guarded_bind fun _ => guarded_bind_pure (g a :: ·)

end Guarded

namespace Container

/-! ## The checks -/

/-- The number of chunks that the header declares. -/
def declaredCount (bytes : List UInt8) : Nat := wordAt bytes 28

/-- The offset in entry number `index` of the table. -/
def tableEntry (bytes : List UInt8) (index : Nat) : Nat := wordAt bytes (32 + 4 * index)

/-- The digest that the header stores. -/
def storedDigest (bytes : List UInt8) : List UInt8 := (bytes.drop 4).take 16

/-- The checks of the header, the digest left aside. -/
def shapeChecks (maxChunks : Nat) (bytes : List UInt8) : List Check :=
  [⟨Tag.at bytes 0 ≠ .dxbc, .badMagic (Tag.at bytes 0)⟩,
    ⟨wordAt bytes 24 ≠ bytes.length, .sizeMismatch (wordAt bytes 24) bytes.length⟩,
    ⟨declaredCount bytes > maxChunks, .tooManyChunks (declaredCount bytes) maxChunks⟩,
    ⟨32 + 4 * declaredCount bytes > bytes.length,
      .tableOutside (32 + 4 * declaredCount bytes) bytes.length⟩]

/-- The check of the digest, which is made on demand. -/
def digestCheck (demanded : Bool) (bytes : List UInt8) : Check where
  violated := demanded && storedDigest bytes ≠ digest (bytes.drop 20)
  error := .checksumMismatch (storedDigest bytes) (digest (bytes.drop 20))

/-- The checks of a container as a whole. -/
def headerChecks (options : ParseOptions) (bytes : List UInt8) : List Check :=
  ⟨bytes.length < 32, .headerTooShort bytes.length⟩ ::
    digestCheck options.verifyChecksum bytes :: shapeChecks options.maxChunks bytes

/-- The checks of the chunk at `offset`, number `index` of a table that ends at `tableEnd`. -/
def chunkChecksAt (bytes : List UInt8) (tableEnd index offset : Nat) : List Check :=
  let start := offset + 8
  let finish := start + wordAt bytes (offset + 4)
  [⟨offset < tableEnd, .chunkInsideTable index offset tableEnd⟩,
    ⟨start > bytes.length, .chunkHeaderOutside index offset bytes.length⟩,
    ⟨finish > bytes.length,
      .chunkDataOutside index (Tag.at bytes offset) start finish bytes.length⟩]

/-- The checks of chunk number `index`. -/
def chunkChecks (bytes : List UInt8) (index : Nat) : List Check :=
  chunkChecksAt bytes (32 + 4 * declaredCount bytes) index (tableEntry bytes index)

/-- All checks in their order: first those of the whole, then those of each chunk in turn. -/
def checks (options : ParseOptions) (bytes : List UInt8) : List Check :=
  headerChecks options bytes ++ (List.range (declaredCount bytes)).flatMap (chunkChecks bytes)

/-! ## Reading is checking -/

/-- What the first 32 bytes say. -/
def headerOf (bytes : List UInt8) : Header where
  magic := Tag.at bytes 0
  checksum := storedDigest bytes
  reserved := UInt32.ofNat (wordAt bytes 20)
  totalSize := wordAt bytes 24
  chunkCount := declaredCount bytes

theorem runAt_header {bytes : List UInt8} (h : 32 ≤ bytes.length) :
    Header.read.runAt bytes 0 = .ok (headerOf bytes) := by
  have htakes := ByteReader.takes_tag.bind fun magic => (ByteReader.takes_take 16).bind
    fun checksum => ByteReader.takes_uint32.bind fun reserved => ByteReader.takes_number.bind
      fun totalSize => ByteReader.takes_number.bind_pure fun chunkCount =>
        Header.mk magic checksum reserved totalSize chunkCount
  have hlen : 0 + 32 ≤ bytes.length := by simpa using h
  have hread : Header.read.runAt bytes 0 = _ := htakes.runAt_eq hlen (by decide)
  simpa [LittleEndian.wordAt_drop, headerOf, storedDigest, declaredCount] using hread

theorem checkAt_eq {bytes : List UInt8} {tableEnd index offset : Nat} (hsmall : offset < 2 ^ 32) :
    Chunk.checkAt bytes tableEnd index offset
      = guarded (chunkChecksAt bytes tableEnd index offset) () := by
  have hsize : offset + 8 < UInt64.size := Nat.lt_trans (Nat.add_lt_add_right hsmall 8) (by decide)
  refine check_then_eq_guarded fun _ => check_then_eq_guarded fun hheader => ?_
  have hwithin : offset + 8 ≤ bytes.length := Nat.not_lt.1 hheader
  rw [ByteReader.runAt_tag (by omega) (by omega), ByteReader.runAt_number (by omega) (by omega)]
  exact check_eq_guarded

theorem parseTable_eq {bytes : List UInt8} (h : 32 + 4 * declaredCount bytes ≤ bytes.length) :
    parseTable bytes (declaredCount bytes)
      = guarded ((List.range (declaredCount bytes)).flatMap (chunkChecks bytes))
        ((List.range (declaredCount bytes)).map (tableEntry bytes)) := by
  refine mapM_eq_guarded fun index hindex => ?_
  have hlt : index < declaredCount bytes := List.mem_range.1 hindex
  have hcount : declaredCount bytes < 2 ^ 32 := LittleEndian.wordAt_lt bytes 28
  -- Places in the table are far below the end of the range of positions, so no read is too long.
  have hmax : 2 ^ 40 < UInt64.size := by decide
  have hentry : (ByteReader.number 4).runAt bytes (Header.length + 4 * index)
      = .ok (tableEntry bytes index) := by
    unfold Header.length
    exact ByteReader.runAt_number (by omega) (by omega)
  have hcheck : Chunk.checkAt bytes (Header.tableEnd (declaredCount bytes)) index
      (tableEntry bytes index) = guarded (chunkChecks bytes index) () :=
    checkAt_eq (LittleEndian.wordAt_lt bytes _)
  rw [hentry]
  exact (congrArg (· >>= fun _ => pure (tableEntry bytes index)) hcheck).trans
    (guarded_bind_pure fun _ => tableEntry bytes index)

theorem checkHeader_eq (maxChunks : Nat) (bytes : List UInt8) :
    checkHeader maxChunks bytes (headerOf bytes) = guarded (shapeChecks maxChunks bytes) () :=
  check_then_eq_guarded fun _ => check_then_eq_guarded fun _ => check_then_eq_guarded fun _ =>
    check_eq_guarded

/-- **Reading a container is looking for the first check that is violated.** -/
theorem parseWith_eq (options : ParseOptions) (bytes : List UInt8) :
    parseWith options bytes = guarded (checks options bytes) (Container.mk bytes (headerOf bytes)
      ((List.range (declaredCount bytes)).map (tableEntry bytes))) := by
  refine check_then_eq_guarded fun hlong => ?_
  rw [runAt_header (Nat.not_lt.1 hlong)]
  have hrest : (checkHeader options.maxChunks bytes (headerOf bytes) >>= fun _ =>
        parseTable bytes (declaredCount bytes) >>= fun offsets =>
          pure (Container.mk bytes (headerOf bytes) offsets))
      = guarded (shapeChecks options.maxChunks bytes
          ++ (List.range (declaredCount bytes)).flatMap (chunkChecks bytes))
        (Container.mk bytes (headerOf bytes)
          ((List.range (declaredCount bytes)).map (tableEntry bytes))) := by
    rw [checkHeader_eq]
    -- The table is read after its end was found to lie within the bytes, by the last of the checks.
    refine guarded_bind fun hshape => ?_
    have htable := firstError_eq_none_iff.1 hshape _ (List.getLast_mem (List.cons_ne_nil _ _))
    rw [parseTable_eq (Nat.not_lt.1 (of_decide_eq_false htable))]
    exact guarded_bind_pure fun offsets => Container.mk bytes (headerOf bytes) offsets
  cases hverify : options.verifyChecksum with
  | true => exact check_then_eq_guarded fun _ => hrest
  | false => exact hrest.trans rfl

end Container

/-! ## No chunk is missing -/

/-- The chunk at a place where all of one lies. -/
def Chunk.stored (bytes : List UInt8) (offset : Nat) : Chunk where
  tag := Tag.at bytes offset
  offset
  data := (bytes.drop (offset + 8)).take (wordAt bytes (offset + 4))

theorem Tag.ofList?_take_drop {bytes : List UInt8} {offset count : Nat} (hcount : 4 ≤ count)
    (h : offset + 4 ≤ bytes.length) :
    ofList? ((bytes.drop offset).take count) = some (Tag.at bytes offset) := by
  obtain ⟨rest, rfl⟩ := Nat.exists_eq_add_of_le' hcount
  have hlen : 4 ≤ (bytes.drop offset).length := by
    rw [List.length_drop]
    omega
  unfold Tag.at
  match bytes.drop offset, hlen with
  | _ :: _ :: _ :: _ :: _, _ => rfl

/-- The look-up of a chunk needs what the checks have made sure of. -/
theorem Chunk.at?_eq_stored {bytes : List UInt8} {offset : Nat}
    (h : offset + 8 + wordAt bytes (offset + 4) ≤ bytes.length) :
    Chunk.at? bytes offset = some (Chunk.stored bytes offset) := by
  have hhead : slice? bytes offset Chunk.headerLength = some ((bytes.drop offset).take 8) :=
    if_pos (Nat.le_of_add_right_le h)
  have htag : Tag.ofList? ((bytes.drop offset).take 8) = some (Tag.at bytes offset) :=
    Tag.ofList?_take_drop (by decide) (by omega)
  have hsize : LittleEndian.decode (((bytes.drop offset).take 8).drop 4)
      = wordAt bytes (offset + 4) := by
    rw [List.drop_take, List.drop_drop]
    rfl
  have hdata : slice? bytes (offset + Chunk.headerLength) (wordAt bytes (offset + 4))
      = some (Chunk.stored bytes offset).data := if_pos h
  unfold Chunk.at?
  rw [hhead, Option.bind_eq_bind, Option.bind_some, htag, Option.bind_eq_bind, Option.bind_some,
    hsize, hdata]
  rfl

namespace Container

variable {options : ParseOptions} {bytes : List UInt8}

/-- After the checks a chunk lies behind the table and within the bytes. -/
theorem entry_inside (h : firstError (checks options bytes) = none) {index : Nat}
    (hindex : index < declaredCount bytes) :
    32 + 4 * declaredCount bytes ≤ tableEntry bytes index
      ∧ tableEntry bytes index + 8 + wordAt bytes (tableEntry bytes index + 4) ≤ bytes.length := by
  have hpass : ∀ check ∈ chunkChecks bytes index, check.violated = false := fun check hmem =>
    firstError_eq_none_iff.1 h check (List.mem_append_right _ (List.mem_flatMap.2
      ⟨index, List.mem_range.2 hindex, hmem⟩))
  -- The first check and the last say it all; the second follows from the last.
  have hstart := hpass _ List.mem_cons_self
  have hfinish := hpass _ (List.getLast_mem (List.cons_ne_nil _ _))
  exact ⟨Nat.not_lt.1 (of_decide_eq_false hstart), Nat.not_lt.1 (of_decide_eq_false hfinish)⟩

/-- Every entry of the table is a chunk, and there are no other chunks. -/
theorem chunks_eq (h : firstError (checks options bytes) = none) (header : Header) :
    (Container.mk bytes header ((List.range (declaredCount bytes)).map (tableEntry bytes))).chunks
      = (List.range (declaredCount bytes)).map fun index =>
        Chunk.stored bytes (tableEntry bytes index) := by
  unfold chunks
  rw [List.filterMap_map]
  have hall : ∀ index ∈ List.range (declaredCount bytes),
      Chunk.at? bytes (tableEntry bytes index)
        = some (Chunk.stored bytes (tableEntry bytes index)) := fun index hindex =>
    Chunk.at?_eq_stored (entry_inside h (List.mem_range.1 hindex)).2
  exact (List.filterMap_congr hall).trans (congrFun List.filterMap_eq_map' _)

end Container

end ShaderBytecode
