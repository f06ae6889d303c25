import ShaderBytecode.Proofs.Signature.Layout

set_option autoImplicit false

/-! # Signatures read back

A signature is written with short entries. Under a tag that suggests long ones these are tried
first, and they never fit: the first name follows the table of short entries directly, so it would
start inside a table of long ones. What was parsed can always be written, since its names have no zero
inside (`Signature.nulFree_of_parseTrying`). -/

namespace ShaderBytecode

/-- The element as it is stored: of stream and precision only the lowest byte is kept. -/
def SignatureElement.lowBytes (e : SignatureElement) : SignatureElement :=
  { e with stream := e.stream % 256, precision := e.precision % 256 }

namespace Signature

open ByteReader LittleEndian

/-! ## Trying both forms -/

section

variable {layout : ElementLayout} {bytes : List UInt8} {signature : Signature}

theorem parseTrying_of_read (h : (read layout).runAt bytes 0 = .ok signature) :
    parseTrying layout bytes = .ok signature := by
  rw [parseTrying, h]

theorem parseTrying_of_other (hfirst : ∃ e, (read layout).runAt bytes 0 = .error e)
    (h : (read layout.other).runAt bytes 0 = .ok signature) :
    parseTrying layout bytes = .ok signature := by
  obtain ⟨e, hfirst⟩ := hfirst
  rw [parseTrying, hfirst]
  dsimp only
  rw [h]

end

/-! ## Names that were read -/

theorem yields_name (owner : NameOwner) (offset : Nat) : (name owner offset).Yields NulFree := by
  intro c s c' h
  simp only [name, EStateM.run_bind, EStateM.run_get] at h
  split at h
  · next s' hstring =>
      cases h
      exact nulFree_of_stringAt hstring
  · cases h

theorem yields_read (layout : ElementLayout) :
    (read layout).Yields fun signature => ∀ e ∈ signature, NulFree e.name := by
  have helement (tableStart tableEnd number : Nat) :
      (readElement layout tableStart tableEnd number).Yields fun e => NulFree e.name := by
    rw [readElement_eq]
    exact .after fun _ => .after fun _ => .refuse (.after fun e =>
      (yields_name _ _).bind fun s hs => .pure hs)
  refine .after fun count => .after fun tableStart => ?_
  split
  · exact .pure (by simp)
  · exact .after fun c => .refuse (.refuse (.mapM (helement _ _) _))

/-- No name in a signature that was parsed has a zero inside. -/
theorem nulFree_of_parseTrying {layout : ElementLayout} {bytes : List UInt8} {signature : Signature}
    (h : parseTrying layout bytes = .ok signature) : ∀ e ∈ signature, NulFree e.name := by
  unfold parseTrying at h
  split at h
  · next hfirst => exact (yields_read layout).of_runAt (Except.ok.inj h ▸ hfirst)
  · split at h
    · next hsecond => exact (yields_read layout.other).of_runAt (Except.ok.inj h ▸ hsecond)
    · cases h

/-! ## Short entries -/

theorem reads_shortStream (stream precision : UInt32) :
    (readStream .short).Reads [stream.toUInt8, precision.toUInt8]
      (stream % 256, precision % 256) := by
  have h : (readStream .short).Reads [stream.toUInt8, precision.toUInt8]
      (stream.toUInt8.toUInt32, precision.toUInt8.toUInt32) :=
    (reads_uint8 _).bind ((reads_uint8 _).bind (.pure _))
  rw [UInt32.toUInt32_toUInt8, UInt32.toUInt32_toUInt8] at h
  exact h

theorem stores_entryBytes : Stores .short entryBytes SignatureElement.lowBytes := by
  intro nameOffset e
  refine ⟨by simp [entryBytes, ElementLayout.size], [e.stream.toUInt8, e.precision.toUInt8], ?_,
    reads_shortStream e.stream e.precision⟩
  simp only [entryBytes, fieldBytes, SignatureElement.lowBytes, encodeAll, List.flatMap_cons,
    List.flatMap_nil, List.append_assoc, List.cons_append, List.nil_append]

theorem tableBytes_eq (nameOffset : Nat) (signature : Signature) : tableBytes nameOffset signature
    = entriesBytes entryBytes (fun e => e.lowBytes.name) nameOffset signature := by
  induction signature generalizing nameOffset with
  | nil => rfl
  | cons e rest ih =>
      rw [tableBytes, entriesBytes, ih]
      rfl

theorem namesBytes_map_lowBytes (signature : Signature) :
    namesBytes (signature.map (·.lowBytes)) = namesBytes signature := by
  rw [namesBytes, List.flatMap_map]
  rfl

/-- Behind the names there is nothing but what fills the chunk up. -/
theorem exists_toBytes_eq (signature : Signature) :
    ∃ rest, signature.toBytes = encodeAll 4 [signature.length, headerLength]
      ++ tableBytes (tableEnd .short signature.length) signature ++ namesBytes signature
      ++ rest := by
  refine ⟨List.replicate ((4 - (namesBytes signature).length % 4) % 4) 0xAB, ?_⟩
  rw [tableEnd, Nat.mul_comm]
  rfl

/-- A signature that was written lies behind its header. -/
theorem holdsSignature_toBytes (signature : Signature) :
    HoldsSignature signature.toBytes .short (signature.map (·.lowBytes)) := by
  obtain ⟨rest, hbytes⟩ := exists_toBytes_eq signature
  have h := stores_entryBytes.holdsSignature signature rest
  rw [namesBytes_map_lowBytes, ← tableBytes_eq, ← hbytes] at h
  exact h

/-- Its first entry says that the first name follows the table. -/
theorem holds_first_nameOffset {signature : Signature} (hne : signature ≠ []) :
    Holds signature.toBytes headerLength (encode 4 (tableEnd .short signature.length)) := by
  obtain ⟨rest, hbytes⟩ := exists_toBytes_eq signature
  have htable : Holds signature.toBytes headerLength
      (tableBytes (tableEnd .short signature.length) signature) := by
    rw [List.append_assoc] at hbytes
    exact ⟨_, _, length_encodeAll 4 _, hbytes⟩
  obtain ⟨e, elements, rfl⟩ := List.exists_cons_of_ne_nil hne
  obtain ⟨-, last, hentry, -⟩ := stores_entryBytes (tableEnd .short (e :: elements).length) e
  rw [tableBytes, hentry] at htable
  exact htable.left.left

/-- Of a signature that was written no long entries are read. -/
theorem exists_error_long_toBytes {signature : Signature} (hne : signature ≠ [])
    (hsize : signature.toBytes.length < 2 ^ 32) :
    ∃ e, (read .long).runAt signature.toBytes 0 = .error e := by
  have hholds := holdsSignature_toBytes signature
  have hfirst := holds_first_nameOffset hne
  have hcount := hholds.2.length_lt (by decide) hsize
  have hpos := List.length_pos_iff.2 hne
  have hheader := hholds.1
  have hlast := hholds.2.end_le
  rw [List.length_map] at hcount hheader hlast
  -- The first name follows the short entries, of which the long ones would take more room.
  refine exists_error_of_misplaced hsize hheader hcount hpos ?_
  rw [Nat.zero_mul, Nat.add_zero, hfirst.wordAt_eq (Nat.lt_of_le_of_lt hlast hsize)]
  simp only [tableEnd, ElementLayout.size]
  omega

/-- **A signature that was written is read back under every tag**, and under none: its elements in
    order, with the lowest byte of each stream and precision. A tag that suggests long entries makes
    no difference, since none are read from what was written. The names must have no zero inside,
    and no name of a signature that was parsed has, whatever the bytes. -/
theorem parse_toBytes (signature : Signature) (hnames : ∀ e ∈ signature, NulFree e.name)
    (hsize : signature.toBytes.length < 2 ^ 32) (tag : Tag) :
    parseTagged tag signature.toBytes = .ok (signature.map (·.lowBytes))
      ∧ parse signature.toBytes = .ok (signature.map (·.lowBytes))
      ∧ ∀ bytes parsed, parseTagged tag bytes = .ok parsed ∨ parse bytes = .ok parsed →
        ∀ e ∈ parsed, NulFree e.name := by
  have hshort : (read .short).runAt signature.toBytes 0 = .ok (signature.map (·.lowBytes)) := by
    refine read_of_holds hsize (holdsSignature_toBytes signature) fun stored hstored => ?_
    obtain ⟨e, he, rfl⟩ := List.mem_map.1 hstored
    exact hnames e he
  have htrying (layout : ElementLayout) :
      parseTrying layout signature.toBytes = .ok (signature.map (·.lowBytes)) := by
    cases layout with
    | short => exact parseTrying_of_read hshort
    | long =>
        by_cases hne : signature = []
        · subst hne
          rfl
        · exact parseTrying_of_other (exists_error_long_toBytes hne hsize) hshort
  refine ⟨htrying (layoutOf tag), htrying .short, fun bytes parsed hparsed => ?_⟩
  rcases hparsed with htagged | huntagged
  · exact nulFree_of_parseTrying htagged
  · exact nulFree_of_parseTrying huntagged

/-- Two elements under a tag that suggests long entries; of stream 257 the lowest byte is kept. -/
theorem parse_toBytes_long_tag :
    let color : SignatureElement := ⟨"COLOR", 1, 0, 3, 2, 15, 0, 257, 0⟩
    let signature : Signature := [⟨"SV_Position", 0, 1, 3, 0, 15, 15, 0, 0⟩, color]
    (∀ e ∈ signature, NulFree e.name) ∧ signature.toBytes.length < 2 ^ 32
      ∧ parseTagged .isg1 signature.toBytes = .ok (signature.map (·.lowBytes))
      ∧ color.lowBytes = { color with stream := 1 } := by
  intro color signature
  have hnames : ∀ e ∈ signature, NulFree e.name := by decide +revert +kernel
  have hsize : signature.toBytes.length < 2 ^ 32 := by decide +revert +kernel
  exact ⟨hnames, hsize, (parse_toBytes signature hnames hsize .isg1).1, by decide⟩

end Signature

end ShaderBytecode
