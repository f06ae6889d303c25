import Mathlib.Algebra.Group.Nat.Defs
import ShaderBytecode.Proofs.Resources.Reading

set_option autoImplicit false

/-! # Resource tables that are built are read

The pool of a table only grows while it is filled: what was placed stays where it is. So every step
of the builder can say of whatever bytes the pool ends up in that they hold what the step has placed
(`ResourcePool.Places`), and steps follow each other without looking at what the others place. Each
type takes up at least the bytes that the reader's limit on types asks for, so a table that was
built never meets that limit, and is read back whole. -/

namespace ShaderBytecode

open LittleEndian (encode encodeAll)
open ResourceTable

/-! ## The pool grows -/

namespace ResourcePool

/-- How long the record of a type is. -/
def typeLength : Nat := 16

/-- The bytes hold the pool where it lies in the table. -/
def StandsIn (pool : ResourcePool) (bytes : List UInt8) : Prop :=
  headerLength ≤ pool.base ∧ Holds bytes pool.base pool.bytes

/-- What was in the pool has stayed in its place, and records of so many types were added. -/
structure Grows (before after : ResourcePool) (types : Nat) : Prop where
  base : after.base = before.base
  kept : before.bytes <+: after.bytes
  length_le : before.bytes.length + typeLength * types ≤ after.bytes.length

namespace Grows

variable {before between after : ResourcePool} {m n : Nat}

theorem refl (pool : ResourcePool) : Grows pool pool 0 := ⟨rfl, List.prefix_refl _, Nat.le_refl _⟩

theorem trans (h : Grows before between m) (h' : Grows between after n) :
    Grows before after (m + n) := by
  refine ⟨h'.base.trans h.base, h.kept.trans h'.kept, ?_⟩
  have hle := h.length_le
  have hle' := h'.length_le
  rw [Nat.mul_add]
  omega

theorem append (pool : ResourcePool) {part : List UInt8} (h : typeLength * n ≤ part.length) :
    Grows pool { pool with bytes := pool.bytes ++ part } n := by
  refine ⟨rfl, List.prefix_append _ _, ?_⟩
  rw [List.length_append]
  omega

theorem standsIn (h : Grows before after n) {bytes : List UInt8} (hafter : after.StandsIn bytes) :
    before.StandsIn bytes := by
  obtain ⟨hbase, hholds⟩ := hafter
  rw [h.base] at hbase hholds
  exact ⟨hbase, hholds.of_prefix h.kept⟩

end Grows

theorem exists_standsIn {pool : ResourcePool} (h : headerLength ≤ pool.base) :
    ∃ bytes, pool.StandsIn bytes :=
  ⟨List.replicate pool.base 0 ++ pool.bytes, h, List.replicate pool.base 0, [],
    List.length_replicate, (List.append_nil _).symm⟩

/-! ## What steps place -/

/-- The step adds records of so many types, and its result has the property in all bytes that the
    pool ends up in. -/
def Places {α : Type} (step : Pooling α) (types : Nat) (P : List UInt8 → α → Prop) : Prop :=
  ∀ pool, Grows pool (step.run pool).2 types
    ∧ ∀ bytes, (step.run pool).2.StandsIn bytes → P bytes (step.run pool).1

namespace Places

variable {α β : Type} {P : List UInt8 → α → Prop} {Q : List UInt8 → β → Prop}

theorem pure {a : α} (h : ∀ bytes, P bytes a) : Places (Pure.pure a) 0 P :=
  fun pool => ⟨.refl pool, fun bytes _ => h bytes⟩

theorem mono {step : Pooling α} {n : Nat} {P' : List UInt8 → α → Prop} (h : Places step n P)
    (himp : ∀ bytes a, P bytes a → P' bytes a) : Places step n P' :=
  fun pool => ⟨(h pool).1, fun bytes hbytes => himp bytes _ ((h pool).2 bytes hbytes)⟩

/-- What the first step has placed is there when the second has ended. -/
theorem bind {step : Pooling α} {next : α → Pooling β} {m n : Nat} (hstep : Places step m P)
    (hnext : ∀ a, Places (next a) n fun bytes b => P bytes a → Q bytes b) :
    Places (step >>= next) (m + n) Q := by
  intro pool
  obtain ⟨hgrows, hplaced⟩ := hstep pool
  obtain ⟨hgrows', hplaced'⟩ := hnext (step.run pool).1 (step.run pool).2
  refine ⟨hgrows.trans hgrows', fun bytes hbytes => ?_⟩
  exact hplaced' bytes hbytes (hplaced bytes (hgrows'.standsIn hbytes))

/-- The first step adds no types. -/
theorem bind_free {step : Pooling α} {next : α → Pooling β} {n : Nat} (hstep : Places step 0 P)
    (hnext : ∀ a, Places (next a) n fun bytes b => P bytes a → Q bytes b) :
    Places (step >>= next) n Q := by
  have h := hstep.bind hnext
  rw [Nat.zero_add] at h
  exact h

theorem bind_pure {step : Pooling α} {f : α → β} {n : Nat} (h : Places step n P)
    (himp : ∀ bytes a, P bytes a → Q bytes (f a)) :
    Places (step >>= fun a => Pure.pure (f a)) n Q :=
  h.bind (n := 0) fun a => pure fun bytes => himp bytes a

theorem mapM {γ : Type} {f : α → Pooling β} {parts : α → List γ} {R : List UInt8 → α → β → Prop}
    {items : List α}
    (h : ∀ item ∈ items, Places (f item) (parts item).length fun bytes => R bytes item) :
    Places (items.mapM f) (items.flatMap parts).length fun bytes =>
      List.Forall₂ (R bytes) items := by
  induction items with
  | nil => exact pure fun _ => .nil
  | cons item rest ih =>
      obtain ⟨hitem, hrest⟩ := List.forall_mem_cons.1 h
      rw [List.mapM_cons, List.flatMap_cons, List.length_append]
      exact hitem.bind fun b => (ih hrest).bind_pure fun bytes bs hbs hb => .cons hb hbs

end Places

theorem places_append {part : List UInt8} {n : Nat} (h : typeLength * n ≤ part.length) :
    Places (append part) n fun bytes place => headerLength ≤ place ∧ Holds bytes place part := by
  intro pool
  refine ⟨.append pool h, ?_⟩
  intro bytes hbytes
  obtain ⟨hbase, hholds⟩ := hbytes
  exact ⟨Nat.le_add_right_of_le hbase, hholds.right⟩

theorem places_appendName (name : String) :
    Places (appendName name) 0 fun bytes place => Holds bytes place (nameBytes name) :=
  (places_append (Nat.zero_le _)).mono fun _ _ h => h.2

theorem places_align : Places align 0 fun _ _ => True :=
  fun pool => ⟨.append pool (Nat.zero_le _), fun _ _ => trivial⟩

/-! ## Types -/

theorem length_typeRecord (shape : TypeShape) (memberCount table : Nat) :
    (typeRecord shape memberCount table).length = typeLength := by
  simp [typeRecord, typeLength]

theorem places_appendType (type : TypeDescription) :
    Places (appendType type) type.parts.length fun bytes place => HoldsType bytes type place := by
  refine TypeDescription.parts.induct
    (fun type => Places (appendType type) type.parts.length fun bytes place =>
      HoldsType bytes type place)
    (fun members => Places (appendMembers members) (MemberDescription.partsOf members).length
      fun bytes records => ∀ place, Holds bytes place records → HoldsMembers bytes members place)
    ?_ ?_ ?_ type
  -- A type stands behind its members; the place of their table goes into its record.
  · intro shape members ih
    rw [appendType, TypeDescription.parts]
    refine ih.bind (n := 1) fun records => places_align.bind_free fun _ =>
      (places_append (Nat.zero_le _)).bind_free fun table => ?_
    have hcost := Nat.le_of_eq (length_typeRecord shape members.length
      (if members.isEmpty then 0 else table)).symm
    refine (places_append hcost).mono ?_
    intro bytes place hrecord htable _ hrecords
    rw [HoldsType]
    refine ⟨hrecord.1, _, hrecord.2, ?_⟩
    cases members with
    | nil =>
        rw [HoldsMembers]
        exact Nat.zero_le _
    | cons member rest => exact hrecords table htable.2
  -- Records of members are returned and placed later, so they are looked for at any place.
  · rw [appendMembers]
    exact .pure fun bytes place h => h.end_le
  · intro name offset type rest ih ihrest
    rw [appendMembers, MemberDescription.partsOf, List.length_append]
    refine (places_appendName name).bind_free fun nameOffset => ih.bind fun typeOffset =>
      ihrest.bind_pure ?_
    intro bytes records hrecords htype hname place hholds
    rw [HoldsMembers]
    exact ⟨⟨nameOffset, typeOffset, hholds.left, hname, htype⟩, hrecords _ hholds.right⟩

end ResourcePool

/-! ## Records -/

namespace TableDescription

open ResourcePool

/-- The record stands for the item: wherever the bytes hold it, they hold the item. -/
def StandsFor {α : Type} (holds : List UInt8 → α → Nat → Prop) (width : Nat) (bytes : List UInt8)
    (item : α) (record : List UInt8) : Prop :=
  record.length = width ∧ ∀ place, Holds bytes place record → holds bytes item place

/-- Records side by side are a table. -/
theorem holdsRecords_flatten {α : Type} {holds : List UInt8 → α → Nat → Prop} {width : Nat}
    {bytes : List UInt8} {items : List α} {records : List (List UInt8)} {place : Nat}
    (h : List.Forall₂ (StandsFor holds width bytes) items records)
    (hholds : Holds bytes place records.flatten) :
    HoldsRecords bytes (holds bytes) width items place := by
  induction h generalizing place with
  | nil => exact hholds.end_le
  | @cons item record items records hrecord _ ih =>
      rw [List.flatten_cons] at hholds
      have hrest := hholds.right
      rw [hrecord.1] at hrest
      exact ⟨hrecord.2 place hholds.left, ih hrest⟩

theorem length_flatten_records {α : Type} {holds : List UInt8 → α → Nat → Prop} {width : Nat}
    {bytes : List UInt8} {items : List α} {records : List (List UInt8)}
    (h : List.Forall₂ (StandsFor holds width bytes) items records) :
    records.flatten.length = width * items.length := by
  induction h with
  | nil => rfl
  | @cons item record items records hrecord _ ih =>
      rw [List.flatten_cons, List.length_append, hrecord.1, ih, List.length_cons, Nat.mul_succ,
        Nat.add_comm]

theorem places_variableRecord (v : VariableDescription) :
    Places (variableRecord v) v.type.parts.length fun bytes =>
      StandsFor HoldsVariable (variableLength 4) bytes v := by
  refine (places_appendName v.name).bind_free fun nameOffset =>
    (places_appendType v.type).bind_pure ?_
  intro bytes typeOffset htype hname
  exact ⟨LittleEndian.length_encodeAll 4 _, fun place hholds =>
    ⟨nameOffset, typeOffset, hholds, hname, htype⟩⟩

theorem places_bindingRecord (b : ResourceBinding) :
    Places (bindingRecord b) 0 fun bytes => StandsFor HoldsBinding bindingLength bytes b := by
  refine (places_appendName b.name).bind_pure ?_
  intro bytes nameOffset hname
  exact ⟨LittleEndian.length_encodeAll 4 _, fun place hholds => ⟨nameOffset, hholds, hname⟩⟩

/-- How many variables there are in the buffers. -/
def countVariables (buffers : List BufferDescription) : Nat :=
  buffers.foldr (fun buffer total => buffer.vars.length + total) 0

theorem places_bufferRecords (variableTable : Nat) (buffers : List BufferDescription) :
    Places (bufferRecords variableTable buffers)
      (buffers.flatMap fun buffer => buffer.vars.flatMap (·.type.parts)).length
      fun bytes records => records.1.length = bufferLength * buffers.length
        ∧ records.2.length = variableLength 4 * countVariables buffers
        ∧ ∀ place, Holds bytes place records.1 → Holds bytes variableTable records.2 →
          HoldsRecords bytes (HoldsBuffer bytes) bufferLength buffers place := by
  induction buffers generalizing variableTable with
  | nil => exact .pure fun bytes => ⟨rfl, rfl, fun place hholds _ => hholds.end_le⟩
  | cons buffer rest ih =>
      rw [bufferRecords, List.flatMap_cons, List.length_append]
      refine (places_appendName buffer.name).bind_free fun nameOffset =>
        (Places.mapM fun v _ => places_variableRecord v).bind fun vars =>
          (ih _).bind (n := 0) fun (records, others) => .pure ?_
      intro bytes hrest hvars hname
      have hlength := length_flatten_records hvars
      obtain ⟨hrecords, hothers, hplaces⟩ := hrest
      refine ⟨?_, ?_, fun place hholds hvariables => ?_⟩
      · rw [List.length_append, hrecords, LittleEndian.length_encodeAll, List.length_cons,
          Nat.mul_succ, Nat.add_comm]
        rfl
      · rw [List.length_append, hlength, hothers, ← Nat.mul_add]
        rfl
      · -- The variables of the buffers after the first follow those of the first.
        have hnext := hvariables.right
        rw [hlength] at hnext
        exact ⟨⟨nameOffset, variableTable, hholds.left, hname,
          holdsRecords_flatten hvars hvariables.left⟩, hplaces _ hholds.right hnext⟩

theorem places_bindingRecords (bindings : List ResourceBinding) :
    Places (bindings.mapM bindingRecord) 0 fun bytes =>
      List.Forall₂ (StandsFor HoldsBinding bindingLength bytes) bindings := by
  have hnone : (bindings.flatMap fun _ => ([] : List Unit)).length = 0 := by simp
  rw [← hnone]
  exact Places.mapM fun b _ => places_bindingRecord b

/-! ## The whole table -/

theorem length_headerBytes (d : TableDescription) (creatorOffset : Nat) :
    (d.headerBytes creatorOffset).length = headerLength := by
  simp [headerBytes, headerLength]

/-- An empty table may be said to lie anywhere. -/
theorem holdsRecords_ite {α : Type} {bytes : List UInt8} {holds : α → Nat → Prop} {width : Nat}
    {items : List α} {place : Nat} (h : HoldsRecords bytes holds width items place) :
    HoldsRecords bytes holds width items (if items.isEmpty then 0 else place) := by
  cases items with
  | nil => exact Nat.zero_le _
  | cons item rest => exact h

/-- What stands before the pool fills the place up to it, and makes the bytes a table. -/
theorem places_records (d : TableDescription) :
    Places d.records (d.types.flatMap (·.parts)).length fun bytes front =>
      front.length = d.poolOffset ∧ (Holds bytes 0 front → HoldsTable bytes d) := by
  rw [flatMap_parts_types]
  refine (places_appendName d.creator).bind_free fun creatorOffset =>
    (places_bufferRecords d.variableOffset d.buffers).bind (n := 0) fun (buffers, vars) =>
      (places_bindingRecords d.bindings).bind_pure ?_
  intro bytes bindings hbindings hbuffers hcreator
  obtain ⟨hbufferLength, hvariableLength, hplaces⟩ := hbuffers
  have hvariableOffset : (d.headerBytes creatorOffset ++ buffers).length = d.variableOffset := by
    rw [List.length_append, length_headerBytes, hbufferLength, variableOffset]
  have hbindingOffset :
      (d.headerBytes creatorOffset ++ buffers ++ vars).length = d.bindingOffset := by
    rw [List.length_append, hvariableOffset, hvariableLength]
    rfl
  refine ⟨?_, fun hfront => ?_⟩
  · rw [List.length_append, hbindingOffset, length_flatten_records hbindings, poolOffset]
  · have hbindingTable := hfront.right
    have hvariableTable := hfront.left.right
    have hbufferTable := hfront.left.left.right
    rw [Nat.zero_add, hbindingOffset] at hbindingTable
    rw [Nat.zero_add, hvariableOffset] at hvariableTable
    rw [Nat.zero_add, length_headerBytes] at hbufferTable
    exact ⟨_, _, creatorOffset, hfront.left.left.left, hcreator,
      holdsRecords_ite (hplaces _ hbufferTable hvariableTable),
      holdsRecords_ite (holdsRecords_flatten hbindings hbindingTable)⟩

theorem headerLength_le_poolOffset (d : TableDescription) : headerLength ≤ d.poolOffset := by
  unfold poolOffset bindingOffset variableOffset
  omega

/-- A table that was built lies where its records say, and is longer than all its types. -/
theorem holdsTable_toBytes (d : TableDescription) : HoldsTable d.toBytes d
    ∧ typeLength * (d.types.flatMap (·.parts)).length ≤ d.toBytes.length := by
  obtain ⟨hgrows, hplaced⟩ := places_records d ⟨d.poolOffset, []⟩
  generalize hrun : d.records.run ⟨d.poolOffset, []⟩ = run at hgrows hplaced
  obtain ⟨front, pool⟩ := run
  have hbytes : d.toBytes = front ++ pool.bytes
      ++ List.replicate (padding (front ++ pool.bytes).length) 0 := by
    rw [toBytes, hrun]
  have hbase : pool.base = d.poolOffset := hgrows.base
  have hafter : headerLength ≤ pool.base := hbase ▸ d.headerLength_le_poolOffset
  -- The length of what stands before the pool is the same in all bytes, so in these.
  obtain ⟨bytes, hstands⟩ := exists_standsIn hafter
  have hlength : front.length = pool.base := (hplaced bytes hstands).1.trans hbase.symm
  have hpool : pool.StandsIn d.toBytes := ⟨hafter, front, _, hlength, hbytes⟩
  have hfront : Holds d.toBytes 0 front := by
    rw [hbytes, List.append_assoc]
    exact ⟨[], _, rfl, rfl⟩
  have htypes := hgrows.length_le
  have hend := hpool.2.end_le
  dsimp only [List.length_nil] at htypes
  exact ⟨(hplaced _ hpool).2 hfront, by omega⟩

/-- **A resource table that is built is read as it was described**: every name, number, type,
    variable and binding, in order, whatever the shapes of the types. The limit on types never gets
    in the way. -/
theorem parse_toBytes_matches (d : TableDescription) (hwell : d.WellFormed)
    (hsize : d.toBytes.length < 2 ^ 32) :
    ∃ table, ResourceTable.parse d.toBytes = .ok table ∧ table.Matches d := by
  obtain ⟨hholds, htypes⟩ := holdsTable_toBytes d
  have hlimit : (d.types.flatMap (·.parts)).length ≤ typeLimit d.toBytes.length := by
    rw [typeLength] at htypes
    rw [typeLimit]
    omega
  exact parse_of_holdsTable hsize hwell hholds hlimit

/-- A structure inside a structure, described for two variables, a buffer without any, and a texture
    that is bound. -/
theorem parse_toBytes_matches_nested :
    let scalar : TypeDescription := .mk ⟨0, 3, 1, 1, 0⟩ []
    let spot : TypeDescription :=
      .mk ⟨5, 0, 1, 3, 0⟩ [.mk "color" 0 (.mk ⟨1, 3, 1, 4, 2⟩ []), .mk "angle" 32 scalar]
    let light : TypeDescription := .mk ⟨5, 0, 1, 4, 0⟩ [.mk "spot" 0 spot, .mk "range" 36 scalar]
    let frame : BufferDescription :=
      ⟨"Frame", 96, 0, [⟨"key", 0, 40, 2, light⟩, ⟨"fill", 48, 40, 0, light⟩]⟩
    let d : TableDescription :=
      ⟨"compiler", [frame, ⟨"Object", 0, 1, []⟩], [⟨"albedo", 2, 5, 4, 0xFFFFFFFF, 0, 1, 12⟩]⟩
    d.WellFormed ∧ d.toBytes.length < 2 ^ 32
      ∧ ∃ table, ResourceTable.parse d.toBytes = .ok table ∧ table.Matches d := by
  intro scalar spot light frame d
  have hwell : d.WellFormed := by decide +revert +kernel
  have hsize : d.toBytes.length < 2 ^ 32 := by decide +revert +kernel
  exact ⟨hwell, hsize, parse_toBytes_matches d hwell hsize⟩

end TableDescription

end ShaderBytecode
