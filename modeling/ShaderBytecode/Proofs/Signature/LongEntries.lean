import ShaderBytecode.Proofs.Signature.RoundTrip

set_option autoImplicit false

/-! # Signatures with long entries

Nothing writes long entries, so they are described here (`Signature.longBytes`). They are read as
such if they are tried first. If short entries are tried first it depends on the number of entries:
of two or more the second short one would start at the first stream, which is no place for a name, so
long entries are read after all. A single one has nothing behind it that could tell, and it is read
as a short entry; its stream and precision are then taken from the two bytes behind the masks. -/

namespace ShaderBytecode

namespace Signature

open ByteReader LittleEndian

/-- A long entry of an element whose name is at the given offset. In the two bytes behind the masks
    anything may stand. -/
def longEntryBytes (nameOffset : Nat) (entry : SignatureElement × UInt16) : List UInt8 :=
  let e := entry.1
  encodeAll 4 [nameOffset, e.index.toNat, e.systemValue.toNat, e.componentType.toNat,
      e.register.toNat]
    ++ [e.mask, e.usageMask] ++ encode 2 entry.2.toNat
    ++ encodeAll 4 [e.stream.toNat, e.precision.toNat]

/-- The payload of a chunk with long entries and nothing behind the names. -/
def longBytes (entries : List (SignatureElement × UInt16)) : List UInt8 :=
  let names := headerLength + ElementLayout.long.size * entries.length
  encodeAll 4 [entries.length, headerLength]
    ++ entriesBytes longEntryBytes (fun entry => entry.1.name) names entries
    ++ namesBytes (entries.map (·.1))

theorem stores_longEntryBytes : Stores .long longEntryBytes Prod.fst := by
  intro nameOffset ⟨e, filler⟩
  refine ⟨by simp [longEntryBytes, ElementLayout.size],
    encode 2 filler.toNat ++ (encode 4 e.stream.toNat ++ encode 4 e.precision.toNat), ?_, ?_⟩
  · simp only [longEntryBytes, fieldBytes, encodeAll, List.flatMap_cons, List.flatMap_nil,
      List.append_assoc, List.append_nil]
  · exact (reads_uint16 _).bind ((reads_uint32_toNat e.stream).bind
      ((reads_uint32_toNat e.precision).bind (.pure _)))

section

variable (entries : List (SignatureElement × UInt16))

theorem longBytes_eq : longBytes entries = encodeAll 4 [entries.length, headerLength]
    ++ entriesBytes longEntryBytes (fun entry => entry.1.name) (tableEnd .long entries.length)
      entries
    ++ namesBytes (entries.map (·.1)) := by
  rw [tableEnd, Nat.mul_comm]
  rfl

theorem holdsSignature_longBytes :
    HoldsSignature (longBytes entries) .long (entries.map (·.1)) := by
  have h := stores_longEntryBytes.holdsSignature entries []
  rw [List.append_nil, ← longBytes_eq] at h
  exact h

theorem holds_longEntries : Holds (longBytes entries) headerLength
    (entriesBytes longEntryBytes (fun entry => entry.1.name) (tableEnd .long entries.length)
      entries) := by
  rw [longBytes_eq]
  exact ⟨_, _, length_encodeAll 4 _, rfl⟩

theorem holds_longNames :
    Holds (longBytes entries) (tableEnd .long entries.length) (namesBytes (entries.map (·.1))) := by
  rw [longBytes_eq]
  refine ⟨_, [], ?_, (List.append_nil _).symm⟩
  rw [List.length_append, length_encodeAll, stores_longEntryBytes.length_entriesBytes]
  rfl

variable (hnames : ∀ entry ∈ entries, NulFree entry.1.name)
  (hsize : (longBytes entries).length < 2 ^ 32)

include hnames hsize

/-- Long entries are read as such. -/
theorem read_long_longBytes :
    (read .long).runAt (longBytes entries) 0 = .ok (entries.map (·.1)) := by
  refine read_of_holds hsize (holdsSignature_longBytes entries) fun e he => ?_
  obtain ⟨entry, hentry, rfl⟩ := List.mem_map.1 he
  exact hnames entry hentry

end

/-! ## Trying short entries first -/

/-- The stream of the first entry stands where a second short entry would start. -/
theorem holds_first_stream (e : SignatureElement) (filler : UInt16)
    (rest : List (SignatureElement × UInt16)) :
    Holds (longBytes ((e, filler) :: rest)) (headerLength + 1 * ElementLayout.short.size)
      (encode 4 e.stream.toNat) := by
  have hentry := (holds_longEntries ((e, filler) :: rest)).left.right
  simp only [List.length_append, length_encodeAll, length_encode] at hentry
  exact hentry.left

/-- So two entries or more are not read as short ones. -/
theorem exists_error_short_longBytes {entries : List (SignatureElement × UInt16)}
    (hlength : 2 ≤ entries.length) (hstream : ∀ entry ∈ entries, entry.1.stream ≤ 3)
    (hsize : (longBytes entries).length < 2 ^ 32) :
    ∃ e, (read .short).runAt (longBytes entries) 0 = .error e := by
  have hholds := holdsSignature_longBytes entries
  have hcount := hholds.2.length_lt (by decide) hsize
  have hheader := hholds.1
  rw [List.length_map] at hcount hheader
  refine exists_error_of_misplaced hsize hheader hcount hlength ?_
  cases entries with
  | nil => cases hlength
  | cons entry rest =>
      obtain ⟨e, filler⟩ := entry
      -- The second short entry would have the first stream for the place of its name.
      have hlow : e.stream.toNat ≤ 3 := hstream _ List.mem_cons_self
      rw [(holds_first_stream e filler rest).wordAt_eq e.stream.toNat_lt]
      simp only [tableEnd, ElementLayout.size, headerLength]
      omega

/-- A single entry is a short one as well, with the two bytes behind the masks for its stream and
    its precision. -/
theorem holdsSignature_short_longBytes (e : SignatureElement) :
    HoldsSignature (longBytes [(e, 0)]) .short [{ e with stream := 0, precision := 0 }] := by
  have hentry : Holds (longBytes [(e, 0)]) headerLength
      (encode 4 (tableEnd .long 1) ++ (fieldBytes e ++ [0, 0])) := by
    refine Holds.of_prefix (holds_longEntries [(e, 0)])
      ⟨encodeAll 4 [e.stream.toNat, e.precision.toNat], ?_⟩
    simp only [entriesBytes, longEntryBytes, fieldBytes, encodeAll, List.flatMap_cons,
      List.flatMap_nil, List.append_assoc, List.append_nil]
    rfl
  have hname := (holds_longNames [(e, 0)]).left
  have hlast : (readStream .short).Reads [0, 0] (0, 0) := reads_shortStream 0 0
  have hbehind : tableEnd .short 1 ≤ tableEnd .long 1 := by decide
  refine ⟨(holdsSignature_longBytes [(e, 0)]).1,
    ⟨tableEnd .long 1, [0, 0], hbehind, hentry, hlast, hname⟩, ?_⟩
  exact Nat.le_trans hbehind (Nat.le_of_add_right_le hname.end_le)

/-- The payload of a signature with long entries, with zeros in the bytes that mean nothing. -/
def plainLongBytes (signature : Signature) : List UInt8 := longBytes (signature.map (·, 0))

theorem read_long_plainLongBytes {signature : Signature}
    (hnames : ∀ e ∈ signature, NulFree e.name)
    (hsize : signature.plainLongBytes.length < 2 ^ 32) :
    (read .long).runAt signature.plainLongBytes 0 = .ok signature := by
  have hmap : (signature.map (·, (0 : UInt16))).map (·.1) = signature := by
    simp [Function.comp_def]
  have h := read_long_longBytes (signature.map (·, 0)) (by simpa using hnames) hsize
  rw [hmap] at h
  exact h

/-- A single element is read from the short entry that its long one starts with. -/
theorem parse_plainLongBytes_single {e : SignatureElement} (hname : NulFree e.name)
    (hsize : (plainLongBytes [e]).length < 2 ^ 32) :
    parse (plainLongBytes [e]) = .ok [{ e with stream := 0, precision := 0 }] := by
  refine parseTrying_of_read (read_of_holds hsize (holdsSignature_short_longBytes e) ?_)
  simpa using hname

/-- **Signatures with long entries are told from others unless they have a single element.** Under a
    tag that suggests long entries all are read as they are. Without one short entries are tried
    first; two or more long ones do not pass for those and are read as they are too. A single one
    does pass, and comes back without its stream and its precision. -/
theorem parse_plainLongBytes (signature : Signature) (hnames : ∀ e ∈ signature, NulFree e.name)
    (hstream : ∀ e ∈ signature, e.stream ≤ 3)
    (hsize : signature.plainLongBytes.length < 2 ^ 32) :
    parseTagged .isg1 signature.plainLongBytes = .ok signature
      ∧ (signature.length ≠ 1 → parse signature.plainLongBytes = .ok signature)
      ∧ ∀ e, signature = [e] →
        parse signature.plainLongBytes = .ok [{ e with stream := 0, precision := 0 }] := by
  have hread := read_long_plainLongBytes hnames hsize
  refine ⟨parseTrying_of_read hread, fun hlength => ?_, ?_⟩
  · by_cases hempty : signature = []
    · subst hempty
      rfl
    · have hpos := List.length_pos_iff.2 hempty
      have htwo : 2 ≤ (signature.map (·, (0 : UInt16))).length := by
        rw [List.length_map]
        omega
      exact parseTrying_of_other
        (exists_error_short_longBytes htwo (by simpa using hstream) hsize) hread
  · rintro e rfl
    exact parse_plainLongBytes_single (hnames e List.mem_cons_self) hsize

/-- Two elements on different streams, of which the second has a precision. -/
theorem parse_plainLongBytes_pair :
    let signature : Signature :=
      [⟨"SV_Position", 0, 1, 3, 0, 15, 0, 1, 0⟩, ⟨"COLOR", 1, 0, 3, 1, 7, 8, 2, 1⟩]
    (∀ e ∈ signature, NulFree e.name) ∧ (∀ e ∈ signature, e.stream ≤ 3)
      ∧ signature.plainLongBytes.length < 2 ^ 32
      ∧ parse signature.plainLongBytes = .ok signature := by
  intro signature
  have hnames : ∀ e ∈ signature, NulFree e.name := by decide +revert +kernel
  have hstream : ∀ e ∈ signature, e.stream ≤ 3 := by decide +revert +kernel
  have hsize : signature.plainLongBytes.length < 2 ^ 32 := by decide +revert +kernel
  have htwo : signature.length ≠ 1 := by decide +revert
  exact ⟨hnames, hstream, hsize, (parse_plainLongBytes signature hnames hstream hsize).2.1 htwo⟩

/-- One element on stream 1 is read with no tag as one on stream 0. -/
theorem parse_plainLongBytes_loses_stream :
    let position : SignatureElement := ⟨"SV_Position", 0, 1, 3, 2, 15, 0, 1, 0⟩
    NulFree position.name ∧ position.stream ≤ 3 ∧ (plainLongBytes [position]).length < 2 ^ 32
      ∧ parse (plainLongBytes [position]) = .ok [{ position with stream := 0 }]
      ∧ parse (plainLongBytes [position]) ≠ .ok [position]
      ∧ parseTagged .isg1 (plainLongBytes [position]) = .ok [position] := by
  intro position
  have hname : NulFree position.name := by decide +revert +kernel
  have hsize : (plainLongBytes [position]).length < 2 ^ 32 := by decide +revert +kernel
  have hparse := parse_plainLongBytes_single hname hsize
  have hread := read_long_plainLongBytes (List.forall_mem_singleton.2 hname) hsize
  refine ⟨hname, by decide, hsize, hparse, ?_, parseTrying_of_read hread⟩
  rw [hparse]
  decide

end Signature

end ShaderBytecode
