import Mathlib.Logic.Relation
import ShaderBytecode.Proofs.Steps
import ShaderBytecode.Resources.Parser

set_option autoImplicit false

/-! # Resource tables without the limit on types

A table can be read with no limit on the number of types (`ResourceTable.Unlimited.parse`): only how
deep they nest is bounded. The types that are read then form a tree that can be far larger than the
table, since many members may point to one type.

The bound on the depth alone already says much about the tree. It has no more levels than the bound,
every structure has as many members as its record declares, and a type that contains itself is never
read (`Unlimited.not_endless_of_readType`). -/

namespace ShaderBytecode

/-! ## Parts of a type -/

namespace ResourceType

def memberCount : ResourceType → UInt16
  | .mk _ memberCount _ _ => memberCount

def members : ResourceType → List TypeMember
  | .mk _ _ _ members => members

end ResourceType

def TypeMember.type : TypeMember → ResourceType
  | .mk _ _ type => type

mutual

/-- The type and all types inside it. -/
def ResourceType.parts : ResourceType → List ResourceType
  | .mk shape memberCount memberOffset members =>
      .mk shape memberCount memberOffset members :: TypeMember.partsOf members

def TypeMember.partsOf : List TypeMember → List ResourceType
  | [] => []
  | .mk _ _ type :: rest => type.parts ++ TypeMember.partsOf rest

end

mutual

/-- How many levels the tree of the type has. -/
def ResourceType.levels : ResourceType → Nat
  | .mk _ _ _ members => TypeMember.levelsOf members + 1

def TypeMember.levelsOf : List TypeMember → Nat
  | [] => 0
  | .mk _ _ type :: rest => max type.levels (TypeMember.levelsOf rest)

end

theorem TypeMember.partsOf_eq_flatMap (members : List TypeMember) :
    partsOf members = members.flatMap (·.type.parts) := by
  induction members with
  | nil => rfl
  | cons member rest ih =>
      cases member
      rw [partsOf, ih, List.flatMap_cons, TypeMember.type]

theorem TypeMember.levelsOf_le_iff {members : List TypeMember} {bound : Nat} :
    levelsOf members ≤ bound ↔ ∀ member ∈ members, member.type.levels ≤ bound := by
  induction members with
  | nil => simp [levelsOf]
  | cons member rest ih =>
      cases member
      rw [levelsOf, Nat.max_le, ih, List.forall_mem_cons, TypeMember.type]

/-- Every structure in the tree of the type has as many members as it declares. -/
def ResourceType.Complete (type : ResourceType) : Prop :=
  ∀ part ∈ type.parts, part.members.length = part.memberCount.toNat

/-- The types of all variables. -/
def ResourceTable.types (table : ResourceTable) : List ResourceType :=
  table.buffers.flatMap fun buffer => buffer.vars.map (·.type)

/-- How many types there are in the trees of all variables. -/
def ResourceTable.typeCount (table : ResourceTable) : Nat :=
  (table.types.flatMap (·.parts)).length

namespace ResourceTable

variable {bytes : List UInt8}

/-! ## Where types are recorded -/

/-- The type of some variable of the table is recorded at the offset. -/
def IsVariableType (bytes : List UInt8) (offset : Nat) : Prop :=
  ∃ header buffer v, readHeader.runAt bytes 0 = .ok header
    ∧ (∃ number < header.bufferCount,
      readBufferRecord.runAt bytes (header.bufferOffset + number * bufferLength) = .ok buffer)
    ∧ (∃ number < buffer.variableCount, readVariableRecord.runAt bytes
        (buffer.variableOffset + number * variableLength header.major) = .ok v)
    ∧ v.typeOffset = offset

/-- The record at the first offset declares a member whose type is recorded at the second. -/
def HasMemberType (bytes : List UInt8) (offset inner : Nat) : Prop :=
  ∃ record, readTypeRecord.runAt bytes offset = .ok record
    ∧ ∃ number < record.memberCount.toNat, ∃ member,
      readMemberRecord.runAt bytes (record.memberOffset.toNat + number * memberLength) = .ok member
        ∧ member.typeOffset = inner

/-- Members lead from the type at the offset to one that is a member of itself, directly or through
    other types. -/
def Endless (bytes : List UInt8) (offset : Nat) : Prop :=
  ∃ inner, Relation.ReflTransGen (HasMemberType bytes) offset inner
    ∧ Relation.TransGen (HasMemberType bytes) inner inner

theorem Endless.exists_member {offset : Nat} (h : Endless bytes offset) :
    ∃ inner, HasMemberType bytes offset inner ∧ Endless bytes inner := by
  obtain ⟨target, hreach, hcycle⟩ := h
  rcases hreach.cases_head with rfl | ⟨inner, hmember, hreach⟩
  · obtain ⟨inner, hmember, hback⟩ := Relation.TransGen.head'_iff.1 hcycle
    exact ⟨inner, hmember, offset, hback, hcycle⟩
  · exact ⟨inner, hmember, target, hreach, hcycle⟩

/-! ## Reading without a limit -/

namespace Unlimited

/-- Read a member of a structure, with a reader for its type. -/
def readMember (readType : Nat → Except ContainerError ResourceType) (bytes : List UInt8)
    (offset : Nat) : Except ContainerError TypeMember := do
  let member ← readMemberRecord.runAt bytes offset
  let name ← nameAt bytes .structMember member.nameOffset
  return .mk name member.offset (← readType member.typeOffset)

/-- Read a type with all its members, however many there are; `levels` is how deep it may nest. -/
def readType (bytes : List UInt8) :
    (levels : Nat) → (offset : Nat) → Except ContainerError ResourceType
  | 0, offset => throw (.typeTooDeep offset maxTypeDepth)
  | levels + 1, offset => do
      if offset < headerLength then
        throw (.typeInsideHeader offset)
      let record ← readTypeRecord.runAt bytes offset
      let count := record.memberCount.toNat
      let table := record.memberOffset.toNat
      checkRecords bytes .structMember table count memberLength
      let members ← (List.range count).mapM fun number =>
        readMember (readType bytes levels) bytes (table + number * memberLength)
      return .mk record.shape record.memberCount record.memberOffset members

/-- Read a variable with its type. -/
def readVariable (bytes : List UInt8) (offset : Nat) : Except ContainerError BufferVariable := do
  let record ← readVariableRecord.runAt bytes offset
  let name ← nameAt bytes .variable record.nameOffset
  let type ← readType bytes maxTypeDepth record.typeOffset
  return ⟨name, record.offset, record.size, record.flags, type⟩

/-- Read a constant buffer with its variables, whose records have the given length. -/
def readBuffer (bytes : List UInt8) (variableLength offset : Nat) :
    Except ContainerError ConstantBuffer := do
  let record ← readBufferRecord.runAt bytes offset
  checkRecords bytes .variable record.variableOffset record.variableCount variableLength
  let vars ← (List.range record.variableCount).mapM fun number =>
    readVariable bytes (record.variableOffset + number * variableLength)
  let name ← nameAt bytes .constantBuffer record.nameOffset
  return ⟨name, record.size, record.flags, record.kind, vars⟩

/-- Read the constant buffers. -/
def readBuffers (bytes : List UInt8) (header : TableHeader) :
    Except ContainerError (List ConstantBuffer) :=
  (List.range header.bufferCount).mapM fun number =>
    readBuffer bytes (variableLength header.major) (header.bufferOffset + number * bufferLength)

/-- Parse the payload of a resource chunk. -/
def parse (bytes : List UInt8) : Except ContainerError ResourceTable := do
  if bytes.length < headerLength then
    throw (.resourceHeaderTooShort bytes.length)
  let header ← readHeader.runAt bytes 0
  let creator ← nameAt bytes .creator header.creatorOffset
  checkRecords bytes .constantBuffer header.bufferOffset header.bufferCount bufferLength
  let buffers ← readBuffers bytes header
  checkRecords bytes .binding header.bindingOffset header.bindingCount bindingLength
  let bindings ← (List.range header.bindingCount).mapM fun number =>
    readBinding bytes (header.bindingOffset + number * bindingLength)
  return ⟨header.major, header.minor, header.programType, header.flags, creator, buffers, bindings⟩

/-! ## The tree that is read -/

/-- A type that was read has a record, and its members were read one by one with one level less. -/
theorem exists_of_readType {levels offset : Nat} {type : ResourceType}
    (h : readType bytes levels offset = .ok type) :
    ∃ inner record members, levels = inner + 1
      ∧ readTypeRecord.runAt bytes offset = .ok record
      ∧ (List.range record.memberCount.toNat).mapM (fun number =>
          readMember (readType bytes inner) bytes
            (record.memberOffset.toNat + number * memberLength)) = .ok members
      ∧ type = .mk record.shape record.memberCount record.memberOffset members := by
  cases levels with
  | zero => cases h
  | succ inner =>
      rw [readType] at h
      split at h
      · cases h
      · obtain ⟨record, hrecord, h⟩ := bind_eq_ok_iff.1 h
        obtain ⟨-, -, h⟩ := bind_eq_ok_iff.1 h
        obtain ⟨members, hmembers, h⟩ := bind_eq_ok_iff.1 h
        exact ⟨inner, record, members, rfl, hrecord, hmembers, (Except.ok.inj h).symm⟩

theorem exists_of_readMember {read : Nat → Except ContainerError ResourceType} {place : Nat}
    {member : TypeMember} (h : readMember read bytes place = .ok member) :
    ∃ record, readMemberRecord.runAt bytes place = .ok record
      ∧ read record.typeOffset = .ok member.type := by
  obtain ⟨record, hrecord, h⟩ := bind_eq_ok_iff.1 h
  obtain ⟨name, -, h⟩ := bind_eq_ok_iff.1 h
  obtain ⟨type, htype, h⟩ := bind_eq_ok_iff.1 h
  obtain rfl := Except.ok.inj h
  exact ⟨record, hrecord, htype⟩

/-- What holds of every type that is read on some number of levels holds of the types of members. -/
theorem forall_member_of_mapM {inner table : Nat} {numbers : List Nat} {members : List TypeMember}
    {P : ResourceType → Prop}
    (hread : ∀ offset type, readType bytes inner offset = .ok type → P type)
    (h : numbers.mapM (fun number =>
      readMember (readType bytes inner) bytes (table + number * memberLength)) = .ok members) :
    ∀ member ∈ members, P member.type := by
  intro member hmember
  obtain ⟨number, -, hnumber⟩ := (exists_of_mapM_eq_ok h).2 member hmember
  obtain ⟨record, -, htype⟩ := exists_of_readMember hnumber
  exact hread _ _ htype

/-- A type that was read has no more levels than were allowed, and all its structures are
    complete. -/
theorem bounded_of_readType {levels offset : Nat} {type : ResourceType}
    (h : readType bytes levels offset = .ok type) : type.levels ≤ levels ∧ type.Complete := by
  induction levels generalizing offset type with
  | zero =>
      obtain ⟨inner, -, -, hlevels, -⟩ := exists_of_readType h
      cases hlevels
  | succ levels ih =>
      obtain ⟨inner, record, members, hlevels, -, hmembers, rfl⟩ := exists_of_readType h
      obtain rfl := Nat.succ.inj hlevels
      have hinner := forall_member_of_mapM (fun _ _ => ih) hmembers
      have hcount := (mapM_eq_ok_iff.1 hmembers).length_eq
      rw [List.length_range] at hcount
      refine ⟨?_, ?_⟩
      · rw [ResourceType.levels]
        exact Nat.succ_le_succ (TypeMember.levelsOf_le_iff.2 fun member hmember =>
          (hinner member hmember).1)
      · intro part hpart
        rw [ResourceType.parts, TypeMember.partsOf_eq_flatMap] at hpart
        rcases List.mem_cons.1 hpart with rfl | hpart
        · exact hcount.symm
        · obtain ⟨member, hmember, hpart⟩ := List.mem_flatMap.1 hpart
          exact (hinner member hmember).2 part hpart

/-! ## Types that contain themselves -/

/-- With a type the types of its members were read. -/
theorem exists_readType_of_hasMemberType {levels offset inner : Nat} {type : ResourceType}
    (hmember : HasMemberType bytes offset inner) (h : readType bytes levels offset = .ok type) :
    ∃ fewer innerType, levels = fewer + 1 ∧ readType bytes fewer inner = .ok innerType := by
  obtain ⟨record, hrecord, number, hnumber, member, hplace, rfl⟩ := hmember
  obtain ⟨fewer, record', members, hlevels, hrecord', hmembers, -⟩ := exists_of_readType h
  obtain rfl := Except.ok.inj (hrecord.symm.trans hrecord')
  obtain ⟨value, -, hread⟩ := (exists_of_mapM_eq_ok hmembers).1 number (List.mem_range.2 hnumber)
  obtain ⟨member', hplace', htype⟩ := exists_of_readMember hread
  obtain rfl := Except.ok.inj (hplace.symm.trans hplace')
  exact ⟨fewer, value.type, hlevels, htype⟩

/-- A type that leads back to itself is read on no number of levels. -/
theorem not_endless_of_readType {levels offset : Nat} {type : ResourceType}
    (h : readType bytes levels offset = .ok type) : ¬ Endless bytes offset := by
  induction levels generalizing offset type with
  | zero => cases h
  | succ levels ih =>
      intro hendless
      obtain ⟨inner, hmember, hinner⟩ := hendless.exists_member
      obtain ⟨fewer, innerType, hlevels, hread⟩ := exists_readType_of_hasMemberType hmember h
      obtain rfl := Nat.succ.inj hlevels
      exact ih hread hinner

/-! ## Variables -/

theorem exists_of_readVariable {place : Nat} {v : BufferVariable}
    (h : readVariable bytes place = .ok v) :
    ∃ record, readVariableRecord.runAt bytes place = .ok record
      ∧ readType bytes maxTypeDepth record.typeOffset = .ok v.type := by
  obtain ⟨record, hrecord, h⟩ := bind_eq_ok_iff.1 h
  obtain ⟨name, -, h⟩ := bind_eq_ok_iff.1 h
  obtain ⟨type, htype, h⟩ := bind_eq_ok_iff.1 h
  obtain rfl := Except.ok.inj h
  exact ⟨record, hrecord, htype⟩

theorem exists_of_readBuffer {variableLength place : Nat} {buffer : ConstantBuffer}
    (h : readBuffer bytes variableLength place = .ok buffer) :
    ∃ record, readBufferRecord.runAt bytes place = .ok record
      ∧ (List.range record.variableCount).mapM (fun number => readVariable bytes
        (record.variableOffset + number * variableLength)) = .ok buffer.vars := by
  obtain ⟨record, hrecord, h⟩ := bind_eq_ok_iff.1 h
  obtain ⟨-, -, h⟩ := bind_eq_ok_iff.1 h
  obtain ⟨vars, hvars, h⟩ := bind_eq_ok_iff.1 h
  obtain ⟨name, -, h⟩ := bind_eq_ok_iff.1 h
  obtain rfl := Except.ok.inj h
  exact ⟨record, hrecord, hvars⟩

theorem exists_of_parse {table : ResourceTable} (h : parse bytes = .ok table) :
    ∃ header, readHeader.runAt bytes 0 = .ok header
      ∧ readBuffers bytes header = .ok table.buffers := by
  rw [parse] at h
  split at h
  · cases h
  · obtain ⟨header, hheader, h⟩ := bind_eq_ok_iff.1 h
    obtain ⟨creator, -, h⟩ := bind_eq_ok_iff.1 h
    obtain ⟨-, -, h⟩ := bind_eq_ok_iff.1 h
    obtain ⟨buffers, hbuffers, h⟩ := bind_eq_ok_iff.1 h
    obtain ⟨-, -, h⟩ := bind_eq_ok_iff.1 h
    obtain ⟨bindings, -, h⟩ := bind_eq_ok_iff.1 h
    obtain rfl := Except.ok.inj h
    exact ⟨header, hheader, hbuffers⟩

/-- Every type of a table that was read was read from some place, on at most so many levels. -/
theorem exists_readType_of_mem_types {table : ResourceTable} (h : parse bytes = .ok table)
    {type : ResourceType} (htype : type ∈ table.types) :
    ∃ offset, readType bytes maxTypeDepth offset = .ok type := by
  obtain ⟨header, -, hbuffers⟩ := exists_of_parse h
  obtain ⟨buffer, hbuffer, htype⟩ := List.mem_flatMap.1 htype
  obtain ⟨v, hv, rfl⟩ := List.mem_map.1 htype
  obtain ⟨number, -, hread⟩ := (exists_of_mapM_eq_ok hbuffers).2 buffer hbuffer
  obtain ⟨record, -, hvars⟩ := exists_of_readBuffer hread
  obtain ⟨index, -, hread⟩ := (exists_of_mapM_eq_ok hvars).2 v hv
  obtain ⟨place, -, hread⟩ := exists_of_readVariable hread
  exact ⟨_, hread⟩

/-- With a table the types of all its variables were read. -/
theorem exists_readType_of_isVariableType {table : ResourceTable} (h : parse bytes = .ok table)
    {offset : Nat} (hoffset : IsVariableType bytes offset) :
    ∃ type, readType bytes maxTypeDepth offset = .ok type := by
  obtain ⟨header, record, v, hheader, ⟨number, hnumber, hrecord⟩, ⟨index, hindex, hv⟩, rfl⟩ :=
    hoffset
  obtain ⟨header', hheader', hbuffers⟩ := exists_of_parse h
  obtain rfl := Except.ok.inj (hheader.symm.trans hheader')
  obtain ⟨buffer, -, hread⟩ := (exists_of_mapM_eq_ok hbuffers).1 number (List.mem_range.2 hnumber)
  obtain ⟨record', hrecord', hvars⟩ := exists_of_readBuffer hread
  obtain rfl := Except.ok.inj (hrecord.symm.trans hrecord')
  obtain ⟨value, -, hread⟩ := (exists_of_mapM_eq_ok hvars).1 index (List.mem_range.2 hindex)
  obtain ⟨v', hv', htype⟩ := exists_of_readVariable hread
  obtain rfl := Except.ok.inj (hv.symm.trans hv')
  exact ⟨value.type, htype⟩

end Unlimited

end ResourceTable

end ShaderBytecode
