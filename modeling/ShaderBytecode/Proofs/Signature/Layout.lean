import Mathlib.Algebra.Group.Nat.Defs
import ShaderBytecode.Proofs.Bytes.Records
import ShaderBytecode.Proofs.Bytes.Seeking
import ShaderBytecode.Signature.Parser
import ShaderBytecode.Signature.Writer

set_option autoImplicit false

/-! # Where a signature lies

Bytes that hold a signature behind their header, with entries of one form and the names behind the
table (`Signature.HoldsSignature`), are read in that form (`Signature.read_of_holds`). In the other
form they may be read as well, or not: of whatever is read, no name starts in the header or in the
table, so one entry that says so keeps the bytes from being read
(`Signature.exists_error_of_misplaced`).

The entries are written one after another, each with the place of its name, and the names follow
each other in the same order (`Signature.entriesBytes`). How an entry is stored is left open, so this
covers tables of both forms (`Signature.Stores.holdsSignature`). -/

namespace ShaderBytecode

open LittleEndian (encode encodeAll wordAt)

namespace Signature

open ByteReader

/-! ## Reading in parts -/

/-- Read the fields of an entry that follow the offset of its name. -/
def readFields (layout : ElementLayout) : ByteReader SignatureElement := do
  let index ← uint32
  let systemValue ← uint32
  let componentType ← uint32
  let register ← uint32
  let mask ← uint8
  let usageMask ← uint8
  let (stream, precision) ← readStream layout
  return { name := "", index, systemValue, componentType, register, mask, usageMask, stream,
           precision }

/-- Read the table of a signature. -/
def readTable (layout : ElementLayout) (count tableStart : Nat) : ByteReader Signature := do
  if count = 0 then
    return []
  let length := (← get).bytes.length
  if tableStart < headerLength ∨ tableStart % 4 ≠ 0 then
    throw (.elementTableMisplaced tableStart)
  let tableEnd := tableStart + count * layout.size
  if tableEnd > length then
    throw (.elementTableOutside count layout.size tableStart length)
  (List.range count).mapM (readElement layout tableStart tableEnd)

theorem readElement_eq (layout : ElementLayout) (tableStart tableEnd number : Nat) :
    readElement layout tableStart tableEnd number = (do
      seek (tableStart + number * layout.size)
      let nameOffset ← ByteReader.number 4
      if nameOffset < headerLength ∨ (tableStart ≤ nameOffset ∧ nameOffset < tableEnd) then
        throw (.elementNameMisplaced number nameOffset)
      let e ← readFields layout
      let name ← ByteReader.name (.element number) nameOffset
      return { e with name }) := by
  simp only [readElement, readFields, bind_assoc, pure_bind]

theorem read_eq (layout : ElementLayout) : read layout = (do
    let count ← number 4
    let tableStart ← number 4
    readTable layout count tableStart) := rfl

theorem keeps_readStream (layout : ElementLayout) : (readStream layout).Keeps := by
  cases layout with
  | short => exact keeps_uint8.bind fun _ => keeps_uint8.bind fun _ => .pure _
  | long =>
      exact keeps_uint16.bind fun _ => keeps_uint32.bind fun _ => keeps_uint32.bind fun _ => .pure _

theorem keeps_readFields (layout : ElementLayout) : (readFields layout).Keeps :=
  keeps_uint32.bind fun _ => keeps_uint32.bind fun _ => keeps_uint32.bind fun _ =>
    keeps_uint32.bind fun _ => keeps_uint8.bind fun _ => keeps_uint8.bind fun _ =>
      (keeps_readStream layout).bind fun _ => .pure _

theorem keeps_readElement (layout : ElementLayout) (tableStart tableEnd number : Nat) :
    (readElement layout tableStart tableEnd number).Keeps := by
  rw [readElement_eq]
  exact (keeps_seek _).bind fun _ => (keeps_number 4).bind fun nameOffset =>
    .refuse ((keeps_readFields layout).bind fun e => (keeps_name _ _).bind fun _ => .pure _)

/-! ## Entries in their places -/

/-- The fields of an entry between the offset of its name and its stream. -/
def fieldBytes (e : SignatureElement) : List UInt8 :=
  encodeAll 4 [e.index.toNat, e.systemValue.toNat, e.componentType.toNat, e.register.toNat]
    ++ [e.mask, e.usageMask]

/-- The bytes hold the element, with its entry at the place and its name behind the table. -/
def HoldsElement (bytes : List UInt8) (layout : ElementLayout) (tableEnd : Nat)
    (e : SignatureElement) (place : Nat) : Prop :=
  ∃ nameOffset last, tableEnd ≤ nameOffset
    ∧ Holds bytes place (encode 4 nameOffset ++ (fieldBytes e ++ last))
    ∧ (readStream layout).Reads last (e.stream, e.precision)
    ∧ Holds bytes nameOffset (nameBytes e.name)

/-- Where the table of a signature ends that follows the header. -/
def tableEnd (layout : ElementLayout) (count : Nat) : Nat := headerLength + count * layout.size

/-- The bytes hold the signature, with its table between the header and the names. -/
def HoldsSignature (bytes : List UInt8) (layout : ElementLayout) (signature : Signature) : Prop :=
  Holds bytes 0 (encodeAll 4 [signature.length, headerLength])
    ∧ HoldsRecords bytes (HoldsElement bytes layout (tableEnd layout signature.length)) layout.size
      signature headerLength

theorem reads_fields {layout : ElementLayout} {e : SignatureElement} {last : List UInt8}
    (h : (readStream layout).Reads last (e.stream, e.precision)) :
    (readFields layout).Reads (fieldBytes e ++ last) { e with name := "" } := by
  have hmasks : [e.mask, e.usageMask] = [e.mask] ++ [e.usageMask] := rfl
  simp only [fieldBytes, encodeAll, List.flatMap_cons, List.flatMap_nil, hmasks,
    List.append_assoc, List.nil_append]
  exact (reads_uint32_toNat _).bind ((reads_uint32_toNat _).bind ((reads_uint32_toNat _).bind
    ((reads_uint32_toNat _).bind ((reads_uint8 _).bind ((reads_uint8 _).bind (h.bind_pure _))))))

theorem headerLength_le {bytes : List UInt8} {count tableStart : Nat}
    (h : Holds bytes 0 (encodeAll 4 [count, tableStart])) : headerLength ≤ bytes.length := by
  have hle := h.end_le
  rw [LittleEndian.length_encodeAll] at hle
  exact hle

section

variable {bytes : List UInt8} {layout : ElementLayout} (hsize : bytes.length < 2 ^ 32)

include hsize

/-- An element is read from its entry. -/
theorem finds_element {e : SignatureElement} {tableEnd number : Nat}
    (h : HoldsElement bytes layout tableEnd e (headerLength + number * layout.size))
    (hend : headerLength ≤ tableEnd) (hname : NulFree e.name) :
    (readElement layout headerLength tableEnd number).Finds bytes e := by
  obtain ⟨nameOffset, last, hbehind, hentry, hlast, hstring⟩ := h
  have hplaced : ¬ (nameOffset < headerLength
      ∨ (headerLength ≤ nameOffset ∧ nameOffset < tableEnd)) := by omega
  have hoffset : nameOffset < 2 ^ 32 :=
    Nat.lt_of_le_of_lt (Nat.le_of_add_right_le hstring.end_le) hsize
  have hwide : bytes.length < UInt64.size := Nat.lt_trans hsize (by decide)
  rw [readElement_eq]
  refine .seek_bind (Nat.le_of_add_right_le hentry.end_le)
    ⟨headerLength + number * layout.size + (encode 4 nameOffset).length
      + (fieldBytes e ++ last).length, ?_⟩
  rw [EStateM.run_bind, reads_number hoffset bytes _ hentry.left hwide]
  dsimp only
  rw [if_neg hplaced, EStateM.run_bind, reads_fields hlast bytes _ hentry.right hwide]
  dsimp only
  rw [EStateM.run_bind, run_name (stringAt_of_holds hname hstring)]
  rfl

/-- The table is read record by record. -/
theorem finds_table {signature : Signature} (h : HoldsSignature bytes layout signature)
    (hnames : ∀ e ∈ signature, NulFree e.name) :
    (readTable layout signature.length headerLength).Finds bytes signature := by
  obtain ⟨-, hrecords⟩ := h
  have hinside : ¬ headerLength + signature.length * layout.size > bytes.length :=
    Nat.not_lt.2 hrecords.end_le
  have helements := hrecords.forall₂_range
    (R := fun place e => HoldsElement bytes layout (tableEnd layout signature.length) e place
      ∧ NulFree e.name) fun e he place hholds => ⟨hholds, hnames e he⟩
  have htable : ((List.range signature.length).mapM
      (readElement layout headerLength (tableEnd layout signature.length))).Finds bytes signature :=
    .mapM (helements.imp fun number e h =>
      finds_element hsize h.1 (Nat.le_add_right _ _) h.2)
  intro position
  obtain ⟨position', hrun⟩ := htable position
  refine ⟨position', ?_⟩
  unfold readTable
  split
  · next hzero =>
      rw [List.length_eq_zero_iff.1 hzero] at hrun ⊢
      exact hrun
  · rw [EStateM.run_bind, EStateM.run_get]
    dsimp only
    rw [if_neg (by decide), if_neg hinside]
    exact hrun

/-- The header tells what to read behind it. -/
theorem runAt_read {count tableStart : Nat} (h : Holds bytes 0 (encodeAll 4 [count, tableStart]))
    (hcount : count < 2 ^ 32) (hstart : tableStart < 2 ^ 32) :
    (read layout).runAt bytes 0 = (readTable layout count tableStart).runAt bytes headerLength := by
  have hheader := headerLength_le h
  have hwide : bytes.length < UInt64.size := Nat.lt_trans hsize (by decide)
  simp only [encodeAll, List.flatMap_cons, List.flatMap_nil, List.append_nil] at h
  rw [runAt, runAt, ByteCursor.start, EStateM.run_bind, EStateM.run_bind, run_seek (Nat.zero_le _),
    run_seek hheader]
  dsimp only
  rw [read_eq, EStateM.run_bind, reads_number hcount bytes 0 h.left hwide]
  dsimp only
  rw [EStateM.run_bind, reads_number hstart bytes _ h.right hwide, LittleEndian.length_encode,
    LittleEndian.length_encode]
  rfl

/-- A signature is read from where it lies. -/
theorem read_of_holds {signature : Signature} (h : HoldsSignature bytes layout signature)
    (hnames : ∀ e ∈ signature, NulFree e.name) :
    (read layout).runAt bytes 0 = .ok signature := by
  have hcount := h.2.length_lt (by cases layout <;> decide) hsize
  rw [runAt_read hsize h.1 hcount (by decide)]
  exact (finds_table hsize h hnames).runAt_eq (Nat.le_of_add_right_le h.2.end_le)

/-- An entry whose name would start in the header or in the table is not read. -/
theorem misses_element {tableEnd number : Nat}
    (hend : headerLength + number * layout.size + 4 ≤ bytes.length)
    (hname : wordAt bytes (headerLength + number * layout.size) < tableEnd) :
    (readElement layout headerLength tableEnd number).Misses bytes := by
  have hmisplaced : wordAt bytes (headerLength + number * layout.size) < headerLength
      ∨ (headerLength ≤ wordAt bytes (headerLength + number * layout.size)
        ∧ wordAt bytes (headerLength + number * layout.size) < tableEnd) := by omega
  have hwide : bytes.length < UInt64.size := Nat.lt_trans hsize (by decide)
  intro position
  refine ⟨.elementNameMisplaced number (wordAt bytes (headerLength + number * layout.size)),
    ⟨bytes, headerLength + number * layout.size + 4⟩, ?_⟩
  rw [readElement_eq, EStateM.run_bind, run_seek (by omega)]
  dsimp only
  rw [EStateM.run_bind, takes_number bytes _ hend (by omega)]
  dsimp only
  rw [LittleEndian.wordAt_drop, Nat.add_zero, if_pos hmisplaced]
  rfl

/-- One such entry keeps the bytes from being read. -/
theorem exists_error_of_misplaced {count number : Nat}
    (h : Holds bytes 0 (encodeAll 4 [count, headerLength])) (hcount : count < 2 ^ 32)
    (hnumber : number < count)
    (hname : wordAt bytes (headerLength + number * layout.size) < tableEnd layout count) :
    ∃ e, (read layout).runAt bytes 0 = .error e := by
  have hmisses : (readTable layout count headerLength).Misses bytes := by
    intro position
    unfold readTable
    rw [if_neg (Nat.ne_zero_of_lt hnumber), EStateM.run_bind, EStateM.run_get]
    dsimp only
    rw [if_neg (by decide)]
    by_cases hinside : headerLength + count * layout.size > bytes.length
    · rw [if_pos hinside]
      exact ⟨_, _, rfl⟩
    · rw [if_neg hinside]
      have hplace : number * layout.size + layout.size ≤ count * layout.size := by
        rw [← Nat.succ_mul]
        exact Nat.mul_le_mul_right _ hnumber
      have hentry : 4 ≤ layout.size := by cases layout <;> decide
      exact Misses.mapM (keeps_readElement layout _ _) (List.mem_range.2 hnumber)
        (misses_element hsize (by omega) hname) position
  rw [runAt_read hsize h hcount (by decide)]
  exact hmisses.exists_error (headerLength_le h)

end

/-! ## Entries that were written -/

section

variable {α : Type}

/-- The entries of elements whose names follow each other from the given offset on. -/
def entriesBytes (entry : Nat → α → List UInt8) (name : α → String) (nameOffset : Nat) :
    List α → List UInt8
  | [] => []
  | a :: rest => entry nameOffset a
      ++ entriesBytes entry name (nameOffset + (nameBytes (name a)).length) rest

/-- The entries are those of the elements, in the given form. -/
def Stores (layout : ElementLayout) (entry : Nat → α → List UInt8)
    (element : α → SignatureElement) : Prop :=
  ∀ nameOffset a, (entry nameOffset a).length = layout.size
    ∧ ∃ last, entry nameOffset a = encode 4 nameOffset ++ (fieldBytes (element a) ++ last)
      ∧ (readStream layout).Reads last ((element a).stream, (element a).precision)

namespace Stores

variable {layout : ElementLayout} {entry : Nat → α → List UInt8} {element : α → SignatureElement}

theorem length_entriesBytes (h : Stores layout entry element) (name : α → String)
    (nameOffset : Nat) (as : List α) :
    (entriesBytes entry name nameOffset as).length = as.length * layout.size := by
  induction as generalizing nameOffset with
  | nil => simp [entriesBytes]
  | cons a rest ih =>
      rw [entriesBytes, List.length_append, ih, (h nameOffset a).1, List.length_cons,
        Nat.succ_mul, Nat.add_comm]

/-- Entries and names that are held in the same order are those of the elements. -/
theorem holdsRecords (h : Stores layout entry element) {bytes : List UInt8}
    {place nameOffset tableEnd : Nat} {as : List α} (hend : tableEnd ≤ nameOffset)
    (htable : Holds bytes place (entriesBytes entry (fun a => (element a).name) nameOffset as))
    (hnames : Holds bytes nameOffset (namesBytes (as.map element))) :
    HoldsRecords bytes (HoldsElement bytes layout tableEnd) layout.size (as.map element) place := by
  induction as generalizing place nameOffset with
  | nil => exact Nat.le_of_add_right_le htable.end_le
  | cons a rest ih =>
      obtain ⟨hlength, last, hentry, hlast⟩ := h nameOffset a
      rw [entriesBytes] at htable
      rw [namesBytes, List.map_cons, List.flatMap_cons, ← namesBytes] at hnames
      have hrest := htable.right
      rw [hlength] at hrest
      refine ⟨⟨nameOffset, last, hend, hentry ▸ htable.left, hlast, hnames.left⟩, ?_⟩
      exact ih (Nat.le_add_right_of_le hend) hrest hnames.right

/-- A header, entries and names make a signature, whatever comes behind them. -/
theorem holdsSignature (h : Stores layout entry element) (as : List α) (rest : List UInt8) :
    HoldsSignature (encodeAll 4 [as.length, headerLength]
        ++ entriesBytes entry (fun a => (element a).name) (tableEnd layout as.length) as
        ++ namesBytes (as.map element) ++ rest)
      layout (as.map element) := by
  have hheader : (encodeAll 4 [as.length, headerLength]).length = headerLength :=
    LittleEndian.length_encodeAll 4 _
  have hlength := h.length_entriesBytes (fun a => (element a).name) (tableEnd layout as.length) as
  rw [HoldsSignature, List.length_map]
  refine ⟨⟨[], _, rfl, by simp only [List.nil_append, List.append_assoc]; rfl⟩, ?_⟩
  refine h.holdsRecords (Nat.le_refl (tableEnd layout as.length)) ?_ ?_
  · exact ⟨_, _, hheader, by simp only [List.append_assoc]; rfl⟩
  · refine ⟨_, _, ?_, rfl⟩
    rw [List.length_append, hheader, hlength, tableEnd]

end Stores

end

end Signature

end ShaderBytecode
