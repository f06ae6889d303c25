import Mathlib.Algebra.Group.Nat.Defs
import ShaderBytecode.Proofs.Resources.Layout

set_option autoImplicit false

/-! # Reading a resource table that lies where its records say

From bytes that hold a well-formed description a reader makes a table that says the same
(`ResourceTable.parse_of_holdsTable`). Its limit on types is known beforehand: a type costs as much
as it has parts, whoever points to it, so that the limit is met if it bears all parts of all types
(`Spends`). -/

namespace ShaderBytecode

open LittleEndian (encode encodeAll)

namespace ResourceTable

open ByteReader

/-! ## Steps that count types -/

/-- If the limit bears `cost` more types, the reader succeeds with a value of the property, and has
    counted so many. -/
def Spends {α : Type} (reader : TypeReader α) (cost : Nat) (P : α → Prop) : Prop :=
  ∀ left, cost ≤ left → ∃ a, reader.run left = .ok (a, left - cost) ∧ P a

namespace Spends

variable {α β : Type} {P : α → Prop} {Q : β → Prop}

theorem pure {a : α} (h : P a) : Spends (Pure.pure a) 0 P := fun _ _ => ⟨a, rfl, h⟩

theorem bind {reader : TypeReader α} {next : α → TypeReader β} {m n : Nat}
    (hreader : Spends reader m P) (hnext : ∀ a, P a → Spends (next a) n Q) :
    Spends (reader >>= next) (m + n) Q := by
  intro left hleft
  obtain ⟨a, hrun, ha⟩ := hreader left (by omega)
  obtain ⟨b, hrun', hb⟩ := hnext a ha (left - m) (by omega)
  refine ⟨b, ?_, hb⟩
  rw [StateT.run_bind, hrun]
  change (next a).run (left - m) = _
  rw [hrun', Nat.sub_sub]

theorem bind_pure {reader : TypeReader α} {f : α → β} {n : Nat} (h : Spends reader n P)
    (himp : ∀ a, P a → Q (f a)) : Spends (reader >>= fun a => Pure.pure (f a)) n Q :=
  h.bind (n := 0) fun a ha => pure (himp a ha)

/-- A step that reads no types counts none. -/
theorem lift_bind {step : Except ContainerError α} {next : α → TypeReader β} {a : α} {n : Nat}
    (hstep : step = .ok a) (hnext : Spends (next a) n Q) :
    Spends ((liftM step : TypeReader α) >>= next) n Q := by
  intro left hleft
  obtain ⟨b, hrun, hb⟩ := hnext left hleft
  refine ⟨b, ?_, hb⟩
  subst hstep
  exact hrun

/-- A refusal that does not apply. -/
theorem pass {C : Prop} [Decidable C] {e : ContainerError} {next : TypeReader α} {n : Nat}
    (h : ¬ C) (hnext : Spends next n P) :
    Spends (if C then (throw e >>= fun _ : PUnit => next) else next) n P := by
  rw [if_neg h]
  exact hnext

/-- The types of a list's members are counted one after another. -/
theorem mapM {γ δ : Type} {f : α → TypeReader β} {parts : γ → List δ} {R : β → γ → Prop}
    {as : List α} {items : List γ}
    (h : List.Forall₂ (fun a item => Spends (f a) (parts item).length (R · item)) as items) :
    Spends (as.mapM f) (items.flatMap parts).length (List.Forall₂ R · items) := by
  induction h with
  | nil => exact pure .nil
  | @cons a item as items hitem _ ih =>
      rw [List.mapM_cons, List.flatMap_cons, List.length_append]
      exact hitem.bind fun b hb => ih.bind_pure fun bs hbs => .cons hb hbs

end Spends

theorem spends_countType (length : Nat) : Spends (countType length) 1 fun _ => True := by
  intro left hleft
  have hsome : left ≠ 0 := Nat.ne_zero_of_lt hleft
  refine ⟨(), ?_, trivial⟩
  simp only [countType, StateT.run_bind, StateT.run_get, pure_bind, hsome, if_false]
  rfl

/-! ## Names and records -/

theorem nameAt_of_holds {bytes : List UInt8} {offset : Nat} {name : String} (owner : NameOwner)
    (hname : NulFree name) (h : Holds bytes offset (nameBytes name)) :
    nameAt bytes owner offset = .ok name := by
  rw [nameAt, stringAt_of_holds hname h]

theorem reads_typeRecord (shape : TypeShape) (memberCount table : Nat) :
    readTypeRecord.Reads (typeRecord shape memberCount table)
      ⟨shape, UInt16.ofNat memberCount, UInt32.ofNat table⟩ := by
  simp only [typeRecord, encodeAll, List.flatMap_cons, List.flatMap_nil, List.append_assoc,
    List.nil_append]
  exact (reads_uint16_toNat _).bind ((reads_uint16_toNat _).bind ((reads_uint16_toNat _).bind
    ((reads_uint16_toNat _).bind ((reads_uint16_toNat _).bind ((reads_uint16 memberCount).bind
      ((reads_uint32 table).bind_pure _))))))

theorem reads_memberRecord {nameOffset typeOffset : Nat} (offset : UInt32)
    (hname : nameOffset < 2 ^ 32) (htype : typeOffset < 2 ^ 32) :
    readMemberRecord.Reads (encodeAll 4 [nameOffset, typeOffset, offset.toNat])
      ⟨nameOffset, typeOffset, offset⟩ := by
  simp only [encodeAll, List.flatMap_cons, List.flatMap_nil]
  exact (reads_number hname).bind ((reads_number htype).bind
    ((reads_uint32_toNat offset).bind (.pure _)))

theorem reads_variableRecord {nameOffset typeOffset : Nat} (offset size flags : UInt32)
    (hname : nameOffset < 2 ^ 32) (htype : typeOffset < 2 ^ 32) :
    readVariableRecord.Reads
      (encodeAll 4 [nameOffset, offset.toNat, size.toNat, flags.toNat, typeOffset, 0])
      ⟨nameOffset, offset, size, flags, typeOffset⟩ := by
  simp only [encodeAll, List.flatMap_cons, List.flatMap_nil]
  exact (reads_number hname).bind ((reads_uint32_toNat offset).bind ((reads_uint32_toNat size).bind
    ((reads_uint32_toNat flags).bind ((reads_number htype).bind
      ((reads_uint32 0).bind (.pure _))))))

theorem reads_bufferRecord {nameOffset variableCount table : Nat} (size flags : UInt32)
    (hname : nameOffset < 2 ^ 32) (hcount : variableCount < 2 ^ 32) (htable : table < 2 ^ 32) :
    readBufferRecord.Reads
      (encodeAll 4 [nameOffset, variableCount, table, size.toNat, flags.toNat, 0])
      ⟨nameOffset, variableCount, table, size, flags, 0⟩ := by
  simp only [encodeAll, List.flatMap_cons, List.flatMap_nil]
  exact (reads_number hname).bind ((reads_number hcount).bind ((reads_number htable).bind
    ((reads_uint32_toNat size).bind ((reads_uint32_toNat flags).bind
      ((reads_uint32 0).bind (.pure _))))))

theorem reads_bindingRecord {nameOffset : Nat} (b : ResourceBinding) (hname : nameOffset < 2 ^ 32) :
    readBindingRecord.Reads
      (encodeAll 4 [nameOffset, b.inputType.toNat, b.returnType.toNat, b.dimension.toNat,
        b.sampleCount.toNat, b.bindPoint.toNat, b.bindCount.toNat, b.flags.toNat])
      (nameOffset, { b with name := "" }) := by
  simp only [encodeAll, List.flatMap_cons, List.flatMap_nil]
  exact (reads_number hname).bind ((reads_uint32_toNat _).bind ((reads_uint32_toNat _).bind
    ((reads_uint32_toNat _).bind ((reads_uint32_toNat _).bind ((reads_uint32_toNat _).bind
      ((reads_uint32_toNat _).bind ((reads_uint32_toNat _).bind (.pure _))))))))

theorem reads_header {bufferCount bufferTable bindingCount bindingTable creatorOffset : Nat}
    (hbuffers : bufferCount < 2 ^ 32) (hbufferTable : bufferTable < 2 ^ 32)
    (hbindings : bindingCount < 2 ^ 32) (hbindingTable : bindingTable < 2 ^ 32)
    (hcreator : creatorOffset < 2 ^ 32) :
    readHeader.Reads
      (encodeAll 4 [bufferCount, bufferTable, bindingCount, bindingTable] ++ [0, 4]
        ++ encode 2 0xFFFE ++ encodeAll 4 [0x100, creatorOffset])
      ⟨bufferCount, bufferTable, bindingCount, bindingTable, 0, 4, 0xFFFE, 0x100,
        creatorOffset⟩ := by
  have hversion : ([0, 4] : List UInt8) = [0] ++ [4] := rfl
  simp only [encodeAll, List.flatMap_cons, List.flatMap_nil, hversion, List.append_assoc,
    List.nil_append]
  exact (reads_number hbuffers).bind ((reads_number hbufferTable).bind
    ((reads_number hbindings).bind ((reads_number hbindingTable).bind ((reads_uint8 0).bind
      ((reads_uint8 4).bind ((reads_uint16 0xFFFE).bind ((reads_uint32 0x100).bind
        ((reads_number hcreator).bind (.pure _)))))))))

/-! ## Types -/

variable {bytes : List UInt8} (hsize : bytes.length < 2 ^ 32)

include hsize

theorem offset_lt {offset : Nat} {part : List UInt8} (h : Holds bytes offset part) :
    offset < 2 ^ 32 :=
  Nat.lt_of_le_of_lt (Nat.le_of_add_right_le h.end_le) hsize

theorem place_lt_of_holdsType {type : TypeDescription} {place : Nat}
    (h : HoldsType bytes type place) : place < 2 ^ 32 := by
  cases type
  rw [HoldsType] at h
  obtain ⟨-, table, hrecord, -⟩ := h
  exact offset_lt hsize hrecord

omit hsize in
/-- Wherever the bytes hold the type, it is read from there, on as many levels as it has. -/
def ReadsBack (bytes : List UInt8) (type : TypeDescription) : Prop :=
  ∀ levels place, HoldsType bytes type place → type.levels ≤ levels → type.WellFormed →
    Spends (readType bytes levels place) type.parts.length (·.Matches type)

/-- One member of a structure, as it is read for each number of the table. -/
theorem spends_readMember {member : MemberDescription} (htype : ReadsBack bytes member.type)
    {levels place : Nat} (h : HoldsMember bytes member place)
    (hlevels : member.type.levels ≤ levels)
    (hname : NulFree member.name) (hwell : member.type.WellFormed) :
    Spends (do
      let record ← readMemberRecord.runAt bytes place
      let name ← nameAt bytes .structMember record.nameOffset
      return TypeMember.mk name record.offset (← readType bytes levels record.typeOffset))
      member.type.parts.length (·.Matches member) := by
  obtain ⟨name, offset, type⟩ := member
  obtain ⟨nameOffset, typeOffset, hrecord, hholds, hinner⟩ := h
  have hread := reads_memberRecord offset (offset_lt hsize hholds)
    (place_lt_of_holdsType hsize hinner)
  refine .lift_bind (hread.runAt_eq hrecord hsize) ?_
  refine .lift_bind (nameAt_of_holds _ hname hholds) ?_
  exact (htype levels typeOffset hinner hlevels hwell).bind_pure fun type hmatch =>
    ⟨rfl, rfl, hmatch⟩

theorem readsBack (type : TypeDescription) : ReadsBack bytes type := by
  refine TypeDescription.parts.induct (ReadsBack bytes)
    (fun members => ∀ member ∈ members, ReadsBack bytes member.type) ?_ ?_ ?_ type
  -- The record of a type counts one, and each member what its type costs, on one level less.
  · intro shape members ih levels place h hlevels hwell
    rw [HoldsType] at h
    obtain ⟨hplace, table, hrecord, hmembers⟩ := h
    rw [holdsMembers_iff] at hmembers
    rw [TypeDescription.levels] at hlevels
    obtain ⟨levels, rfl⟩ := Nat.exists_eq_add_of_le' (Nat.le_trans (Nat.le_add_left 1 _) hlevels)
    obtain ⟨hfew, hnames⟩ := hwell.head
    have hcount : (UInt16.ofNat members.length).toNat = members.length :=
      UInt16.toNat_ofNat_of_lt' hfew
    have htable : (UInt32.ofNat table).toNat = table :=
      UInt32.toNat_ofNat_of_lt' (hmembers.place_lt hsize)
    have hcost : (TypeDescription.mk shape members).parts.length
        = 1 + (members.flatMap (·.type.parts)).length := by
      rw [TypeDescription.parts, MemberDescription.partsOf_eq_flatMap, List.length_cons,
        Nat.add_comm]
    have hread := hmembers.forall₂_range fun member hmem place h =>
      spends_readMember hsize (ih member hmem) h
        (Nat.le_trans (MemberDescription.levels_le_levelsOf hmem) (Nat.le_of_succ_le_succ hlevels))
        (hnames member hmem) (hwell.member hmem)
    rw [hcost, readType]
    refine (spends_countType _).bind fun _ _ => .pass (Nat.not_lt.2 hplace) ?_
    refine .lift_bind ((reads_typeRecord shape members.length table).runAt_eq hrecord hsize) ?_
    dsimp only
    rw [hcount, htable]
    refine .lift_bind (hmembers.checkRecords_eq .structMember) ?_
    exact (Spends.mapM hread).bind_pure fun members hmatch =>
      ⟨rfl, hcount, TypeMember.allMatch_of_forall₂ hmatch⟩
  · intro member hmem
    cases hmem
  · intro name offset type rest ih ihrest member hmem
    rcases List.mem_cons.1 hmem with rfl | hmem
    · exact ih
    · exact ihrest member hmem

/-! ## Variables, buffers and bindings -/

theorem spends_readVariable {v : VariableDescription} {place : Nat} (hname : NulFree v.name)
    (hlevels : v.type.levels ≤ maxTypeDepth) (hwell : v.type.WellFormed)
    (h : HoldsVariable bytes v place) :
    Spends (readVariable bytes place) v.type.parts.length (·.Matches v) := by
  obtain ⟨nameOffset, typeOffset, hrecord, hholds, htype⟩ := h
  have hread := reads_variableRecord v.offset v.size v.flags (offset_lt hsize hholds)
    (place_lt_of_holdsType hsize htype)
  refine .lift_bind (hread.runAt_eq hrecord hsize) ?_
  refine .lift_bind (nameAt_of_holds _ hname hholds) ?_
  exact (readsBack hsize v.type _ _ htype hlevels hwell).bind_pure fun type hmatch =>
    ⟨rfl, rfl, rfl, rfl, hmatch⟩

theorem spends_readBuffer {buffer : BufferDescription} {place : Nat} (hname : NulFree buffer.name)
    (hvars : ∀ v ∈ buffer.vars, NulFree v.name ∧ v.type.levels ≤ 8 ∧ v.type.WellFormed)
    (h : HoldsBuffer bytes buffer place) :
    Spends (readBuffer bytes (variableLength 4) place)
      (buffer.vars.flatMap (·.type.parts)).length (·.Matches buffer) := by
  obtain ⟨nameOffset, table, hrecord, hholds, hrecords⟩ := h
  have hread := reads_bufferRecord buffer.size buffer.flags (offset_lt hsize hholds)
    (hrecords.length_lt (by decide) hsize) (hrecords.place_lt hsize)
  have hmembers := hrecords.forall₂_range fun v hv place h =>
    spends_readVariable hsize (hvars v hv).1 (hvars v hv).2.1 (hvars v hv).2.2 h
  refine .lift_bind (hread.runAt_eq hrecord hsize) ?_
  refine .lift_bind (hrecords.checkRecords_eq .variable) ?_
  refine (Spends.mapM hmembers).bind (n := 0) fun vars hmatch => ?_
  exact .lift_bind (nameAt_of_holds _ hname hholds) (.pure ⟨rfl, rfl, rfl, rfl, hmatch⟩)

theorem readBinding_eq_ok {b : ResourceBinding} {place : Nat} (hname : NulFree b.name)
    (h : HoldsBinding bytes b place) : readBinding bytes place = .ok b := by
  obtain ⟨nameOffset, hrecord, hholds⟩ := h
  have hread := reads_bindingRecord b (offset_lt hsize hholds)
  refine bind_eq_ok_iff.2 ⟨_, hread.runAt_eq hrecord hsize, ?_⟩
  exact bind_eq_ok_iff.2 ⟨_, nameAt_of_holds _ hname hholds, rfl⟩

/-! ## The whole table -/

/-- **A table that lies where its records say is read**, if its limit bears the parts of all its
    types, and what is read says what was described. -/
theorem parse_of_holdsTable {d : TableDescription} (hwell : d.WellFormed) (h : HoldsTable bytes d)
    (hlimit : (d.types.flatMap (·.parts)).length ≤ typeLimit bytes.length) :
    ∃ table, parse bytes = .ok table ∧ table.Matches d := by
  obtain ⟨bufferTable, bindingTable, creatorOffset, hheader, hcreator, hbuffers, hbindings⟩ := h
  have hlong : ¬ bytes.length < headerLength := Nat.not_lt.2 hheader.end_le
  have hread := reads_header (hbuffers.length_lt (by decide) hsize) (hbuffers.place_lt hsize)
    (hbindings.length_lt (by decide) hsize) (hbindings.place_lt hsize) (offset_lt hsize hcreator)
  have hspends := Spends.mapM (hbuffers.forall₂_range fun buffer hbuffer place h =>
    spends_readBuffer hsize (hwell.buffer hbuffer) (fun v hv => hwell.variable hbuffer hv) h)
  rw [TableDescription.flatMap_parts_types] at hlimit
  obtain ⟨buffers, hrun, hmatch⟩ := hspends _ hlimit
  have hall := mapM_eq_ok_iff.2 (hbindings.forall₂_range fun b hb place h =>
    readBinding_eq_ok hsize (hwell.binding hb) h)
  refine ⟨⟨4, 0, 0xFFFE, 0x100, d.creator, buffers, d.bindings⟩, ?_,
    ⟨rfl, rfl, rfl, rfl, rfl, hmatch, rfl⟩⟩
  rw [parse, if_neg hlong]
  refine bind_eq_ok_iff.2 ⟨_, hread.runAt_eq hheader hsize, ?_⟩
  refine bind_eq_ok_iff.2 ⟨_, nameAt_of_holds _ hwell.creator hcreator, ?_⟩
  refine bind_eq_ok_iff.2 ⟨_, hbuffers.checkRecords_eq .constantBuffer, ?_⟩
  refine bind_eq_ok_iff.2 ⟨_, hrun, ?_⟩
  refine bind_eq_ok_iff.2 ⟨_, hbindings.checkRecords_eq .binding, ?_⟩
  exact bind_eq_ok_iff.2 ⟨_, hall, rfl⟩

end ResourceTable

end ShaderBytecode
