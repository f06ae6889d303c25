import Mathlib.Algebra.Group.Nat.Defs
import Mathlib.Data.List.Forall2
import ShaderBytecode.Proofs.Bytes.Records
import ShaderBytecode.Resources.Builder
import ShaderBytecode.Resources.Parser

set_option autoImplicit false

/-! # Where a resource table lies

A description and the bytes of a table are related by where the records lie (`HoldsTable`): each
record points to its name, to its type and to the table of its members or variables, and all of
these are held by the bytes. Nothing is said about the order in which they were placed. So a builder
and a reader are each compared with this relation, and never with each other.

What is read from such bytes says what the description says (`ResourceTable.Matches`), but for the
places of the member tables, which a description leaves open. -/

namespace ShaderBytecode

open LittleEndian (encode encodeAll)

/-! ## Parts of a description -/

def TypeDescription.members : TypeDescription → List MemberDescription
  | .mk _ members => members

def MemberDescription.name : MemberDescription → String
  | .mk name _ _ => name

def MemberDescription.type : MemberDescription → TypeDescription
  | .mk _ _ type => type

mutual

/-- The type and all types inside it. -/
def TypeDescription.parts : TypeDescription → List TypeDescription
  | .mk shape members => .mk shape members :: MemberDescription.partsOf members

def MemberDescription.partsOf : List MemberDescription → List TypeDescription
  | [] => []
  | .mk _ _ type :: rest => type.parts ++ MemberDescription.partsOf rest

end

mutual

/-- How many levels the tree of the type has. -/
def TypeDescription.levels : TypeDescription → Nat
  | .mk _ members => MemberDescription.levelsOf members + 1

def MemberDescription.levelsOf : List MemberDescription → Nat
  | [] => 0
  | .mk _ _ type :: rest => max type.levels (MemberDescription.levelsOf rest)

end

theorem MemberDescription.partsOf_eq_flatMap (members : List MemberDescription) :
    partsOf members = members.flatMap (·.type.parts) := by
  induction members with
  | nil => rfl
  | cons member rest ih =>
      cases member
      rw [partsOf, ih, List.flatMap_cons, MemberDescription.type]

theorem MemberDescription.levels_le_levelsOf {members : List MemberDescription}
    {member : MemberDescription} (h : member ∈ members) :
    member.type.levels ≤ levelsOf members := by
  induction members with
  | nil => cases h
  | cons first rest ih =>
      cases first
      rw [levelsOf]
      rcases List.mem_cons.1 h with rfl | h
      · exact Nat.le_max_left _ _
      · exact Nat.le_trans (ih h) (Nat.le_max_right _ _)

namespace TableDescription

/-- The types of all variables. -/
def types (d : TableDescription) : List TypeDescription :=
  d.buffers.flatMap fun buffer => buffer.vars.map (·.type)

/-- All names: of the creator, the buffers, their variables, the members of the variables' types,
    and the bindings. -/
def names (d : TableDescription) : List String :=
  d.creator :: d.buffers.flatMap (fun buffer => buffer.name :: buffer.vars.flatMap fun v =>
      v.name :: v.type.parts.flatMap fun part => part.members.map (·.name))
    ++ d.bindings.map (·.name)

/-- What a description must keep to for its table to be read. -/
structure WellFormed (d : TableDescription) : Prop where
  nulFree : ∀ name ∈ d.names, NulFree name
  levels_le : ∀ type ∈ d.types, type.levels ≤ 8
  members_lt : ∀ type ∈ d.types, ∀ part ∈ type.parts, part.members.length < 2 ^ 16

instance (d : TableDescription) : Decidable d.WellFormed :=
  decidable_of_iff ((∀ name ∈ d.names, NulFree name) ∧ (∀ type ∈ d.types, type.levels ≤ 8)
      ∧ ∀ type ∈ d.types, ∀ part ∈ type.parts, part.members.length < 2 ^ 16)
    ⟨fun ⟨hnames, hlevels, hmembers⟩ => ⟨hnames, hlevels, hmembers⟩,
      fun h => ⟨h.nulFree, h.levels_le, h.members_lt⟩⟩

end TableDescription

/-- The names and the numbers of members in a type can be stored. -/
def TypeDescription.WellFormed (type : TypeDescription) : Prop :=
  ∀ part ∈ type.parts, part.members.length < 2 ^ 16
    ∧ ∀ member ∈ part.members, NulFree member.name

/-- The same holds of the types of its members. -/
theorem TypeDescription.WellFormed.member {shape : TypeShape} {members : List MemberDescription}
    (h : (TypeDescription.mk shape members).WellFormed) {member : MemberDescription}
    (hmember : member ∈ members) : member.type.WellFormed := by
  intro part hpart
  refine h part ?_
  rw [parts, MemberDescription.partsOf_eq_flatMap]
  exact List.mem_cons_of_mem _ (List.mem_flatMap.2 ⟨member, hmember, hpart⟩)

theorem TypeDescription.WellFormed.head {shape : TypeShape} {members : List MemberDescription}
    (h : (TypeDescription.mk shape members).WellFormed) :
    members.length < 2 ^ 16 ∧ ∀ member ∈ members, NulFree member.name := by
  refine h (.mk shape members) ?_
  rw [parts]
  exact List.mem_cons_self

namespace TableDescription

variable {d : TableDescription}

theorem WellFormed.creator (h : d.WellFormed) : NulFree d.creator :=
  h.nulFree _ (List.mem_append_left _ List.mem_cons_self)

theorem WellFormed.buffer (h : d.WellFormed) {buffer : BufferDescription}
    (hbuffer : buffer ∈ d.buffers) : NulFree buffer.name := by
  refine h.nulFree _ (List.mem_append_left _ (List.mem_cons_of_mem _ ?_))
  exact List.mem_flatMap.2 ⟨buffer, hbuffer, List.mem_cons_self⟩

theorem WellFormed.binding (h : d.WellFormed) {b : ResourceBinding} (hb : b ∈ d.bindings) :
    NulFree b.name :=
  h.nulFree _ (List.mem_append_right _ (List.mem_map_of_mem hb))

theorem WellFormed.variable (h : d.WellFormed) {buffer : BufferDescription}
    (hbuffer : buffer ∈ d.buffers) {v : VariableDescription} (hv : v ∈ buffer.vars) :
    NulFree v.name ∧ v.type.levels ≤ 8 ∧ v.type.WellFormed := by
  have htype : v.type ∈ d.types :=
    List.mem_flatMap.2 ⟨buffer, hbuffer, List.mem_map_of_mem hv⟩
  have hnames : ∀ name ∈ v.name :: v.type.parts.flatMap (fun part => part.members.map (·.name)),
      NulFree name := by
    intro name hname
    refine h.nulFree name (List.mem_append_left _ (List.mem_cons_of_mem _ ?_))
    refine List.mem_flatMap.2 ⟨buffer, hbuffer, List.mem_cons_of_mem _ ?_⟩
    exact List.mem_flatMap.2 ⟨v, hv, hname⟩
  obtain ⟨hname, hinner⟩ := List.forall_mem_cons.1 hnames
  refine ⟨hname, h.levels_le _ htype, fun part hpart => ⟨h.members_lt _ htype part hpart, ?_⟩⟩
  intro member hmember
  exact hinner _ (List.mem_flatMap.2 ⟨part, hpart, List.mem_map_of_mem hmember⟩)

/-- The parts of all types, buffer by buffer and variable by variable. -/
theorem flatMap_parts_types (d : TableDescription) : d.types.flatMap (·.parts)
    = d.buffers.flatMap fun buffer => buffer.vars.flatMap (·.type.parts) := by
  simp only [types, List.flatMap_assoc, List.flatMap_map]

end TableDescription

/-! ## Saying the same -/

mutual

/-- The type says what is described; where its members are recorded is left open. -/
def ResourceType.Matches : ResourceType → TypeDescription → Prop
  | .mk shape memberCount _ members, .mk shape' members' =>
      shape = shape' ∧ memberCount.toNat = members'.length ∧ TypeMember.AllMatch members members'

/-- The members say what is described, one by one. -/
def TypeMember.AllMatch : List TypeMember → List MemberDescription → Prop
  | [], [] => True
  | .mk name offset type :: rest, .mk name' offset' type' :: rest' =>
      (name = name' ∧ offset = offset' ∧ type.Matches type') ∧ TypeMember.AllMatch rest rest'
  | _, _ => False

end

/-- The member says what is described. -/
def TypeMember.Matches : TypeMember → MemberDescription → Prop
  | .mk name offset type, .mk name' offset' type' =>
      name = name' ∧ offset = offset' ∧ type.Matches type'

theorem TypeMember.allMatch_of_forall₂ {members : List TypeMember}
    {descriptions : List MemberDescription} (h : List.Forall₂ Matches members descriptions) :
    AllMatch members descriptions := by
  induction h with
  | nil => trivial
  | @cons member description _ _ hmatch _ ih =>
      cases member
      cases description
      exact ⟨hmatch, ih⟩

/-- The variable says what is described. -/
structure BufferVariable.Matches (v : BufferVariable) (d : VariableDescription) : Prop where
  name : v.name = d.name
  offset : v.offset = d.offset
  size : v.size = d.size
  flags : v.flags = d.flags
  type : v.type.Matches d.type

/-- The buffer says what is described, and is one for constants. -/
structure ConstantBuffer.Matches (buffer : ConstantBuffer) (d : BufferDescription) : Prop where
  name : buffer.name = d.name
  size : buffer.size = d.size
  flags : buffer.flags = d.flags
  kind : buffer.kind = 0
  vars : List.Forall₂ BufferVariable.Matches buffer.vars d.vars

/-- The table says what is described, for a vertex shader of model 4.0. -/
structure ResourceTable.Matches (table : ResourceTable) (d : TableDescription) : Prop where
  major : table.major = 4
  minor : table.minor = 0
  programType : table.programType = 0xFFFE
  flags : table.flags = 0x100
  creator : table.creator = d.creator
  buffers : List.Forall₂ ConstantBuffer.Matches table.buffers d.buffers
  bindings : table.bindings = d.bindings

/-! ## Records and what they point to -/

/-- A table of records does not reach beyond the bytes. -/
theorem HoldsRecords.checkRecords_eq {α : Type} {bytes : List UInt8} {holds : α → Nat → Prop}
    {width : Nat} {items : List α} {place : Nat} (h : HoldsRecords bytes holds width items place)
    (kind : RecordKind) :
    ResourceTable.checkRecords bytes kind place items.length width = .ok () :=
  if_pos (.inr h.end_le)

namespace ResourceTable

/-- The record of a type with the given number of members, which are recorded at `table`. -/
def typeRecord (shape : TypeShape) (memberCount table : Nat) : List UInt8 :=
  encodeAll 2 [shape.category.toNat, shape.component.toNat, shape.rows.toNat, shape.columns.toNat,
    shape.elements.toNat, memberCount] ++ encode 4 table

mutual

/-- The bytes hold the type, with its record at the place. -/
def HoldsType (bytes : List UInt8) : TypeDescription → Nat → Prop
  | .mk shape members, place => headerLength ≤ place ∧ ∃ table,
      Holds bytes place (typeRecord shape members.length table) ∧ HoldsMembers bytes members table

/-- The bytes hold the members, with their records from the place on. -/
def HoldsMembers (bytes : List UInt8) : List MemberDescription → Nat → Prop
  | [], place => place ≤ bytes.length
  | .mk name offset type :: rest, place =>
      (∃ nameOffset typeOffset,
        Holds bytes place (encodeAll 4 [nameOffset, typeOffset, offset.toNat])
          ∧ Holds bytes nameOffset (nameBytes name) ∧ HoldsType bytes type typeOffset)
        ∧ HoldsMembers bytes rest (place + memberLength)

end

/-- The bytes hold the member, with its record at the place. -/
def HoldsMember (bytes : List UInt8) : MemberDescription → Nat → Prop
  | .mk name offset type, place => ∃ nameOffset typeOffset,
      Holds bytes place (encodeAll 4 [nameOffset, typeOffset, offset.toNat])
        ∧ Holds bytes nameOffset (nameBytes name) ∧ HoldsType bytes type typeOffset

theorem holdsMembers_iff {bytes : List UInt8} {members : List MemberDescription} {place : Nat} :
    HoldsMembers bytes members place
      ↔ HoldsRecords bytes (HoldsMember bytes) memberLength members place := by
  induction members generalizing place with
  | nil => rw [HoldsMembers, HoldsRecords]
  | cons member rest ih =>
      cases member
      rw [HoldsMembers, HoldsRecords, ih, HoldsMember]

/-- The bytes hold the variable, with its record at the place. -/
def HoldsVariable (bytes : List UInt8) (v : VariableDescription) (place : Nat) : Prop :=
  ∃ nameOffset typeOffset,
    Holds bytes place (encodeAll 4
        [nameOffset, v.offset.toNat, v.size.toNat, v.flags.toNat, typeOffset, 0])
      ∧ Holds bytes nameOffset (nameBytes v.name) ∧ HoldsType bytes v.type typeOffset

/-- The bytes hold the buffer with its variables, its record at the place. -/
def HoldsBuffer (bytes : List UInt8) (buffer : BufferDescription) (place : Nat) : Prop :=
  ∃ nameOffset table,
    Holds bytes place (encodeAll 4
        [nameOffset, buffer.vars.length, table, buffer.size.toNat, buffer.flags.toNat, 0])
      ∧ Holds bytes nameOffset (nameBytes buffer.name)
      ∧ HoldsRecords bytes (HoldsVariable bytes) (variableLength 4) buffer.vars table

/-- The bytes hold the binding, with its record at the place. -/
def HoldsBinding (bytes : List UInt8) (b : ResourceBinding) (place : Nat) : Prop :=
  ∃ nameOffset,
    Holds bytes place (encodeAll 4 [nameOffset, b.inputType.toNat, b.returnType.toNat,
        b.dimension.toNat, b.sampleCount.toNat, b.bindPoint.toNat, b.bindCount.toNat,
        b.flags.toNat])
      ∧ Holds bytes nameOffset (nameBytes b.name)

/-- The bytes hold the whole table, with its header at their start. -/
def HoldsTable (bytes : List UInt8) (d : TableDescription) : Prop :=
  ∃ bufferTable bindingTable creatorOffset,
    Holds bytes 0 (encodeAll 4 [d.buffers.length, bufferTable, d.bindings.length, bindingTable]
        ++ [0, 4] ++ encode 2 0xFFFE ++ encodeAll 4 [0x100, creatorOffset])
      ∧ Holds bytes creatorOffset (nameBytes d.creator)
      ∧ HoldsRecords bytes (HoldsBuffer bytes) bufferLength d.buffers bufferTable
      ∧ HoldsRecords bytes (HoldsBinding bytes) bindingLength d.bindings bindingTable

end ResourceTable

end ShaderBytecode
