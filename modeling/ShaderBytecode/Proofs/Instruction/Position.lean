import ShaderBytecode.Program.Decoder
import ShaderBytecode.Proofs.Token.Position

set_option autoImplicit false

/-! # Reading instructions from another place

The operand decoders and the instruction decoders read the same wherever they start, one lemma for
each of them. Those that report faults of an earlier token are handed its position, which moves
along. Since the length of an instruction is a difference of two positions, moving leaves it as it
is, so instructions and whole sequences of them move too (`Instruction.moved_decodeAll`). -/

namespace ShaderBytecode

open Decoder (Moved)

variable {k : Nat}

/-! ## Operands -/

namespace Operand

theorem moved_decodeIndex (start : Nat) (token : UInt32) (field : BitRange) :
    Moved k (decodeIndex start token field) (decodeIndex (start + k) token field) := by
  unfold decodeIndex
  split
  · exact Moved.token.bind fun value => .pure (RegisterIndex.imm32 value)
  · exact Moved.doubleToken.bind fun value => .pure (RegisterIndex.imm64 value)
  · exact .failAt start _

theorem moved_decodeIndices (start : Nat) (token : UInt32) (fields : List BitRange) :
    Moved k (decodeIndices start token fields) (decodeIndices (start + k) token fields) := by
  induction fields with
  | nil => exact .pure []
  | cons field fields ih =>
      refine (moved_decodeIndex start token field).bind fun index => ?_
      exact ih.bind fun indices => .pure (index :: indices)

theorem moved_decodeImmediate (kind : OperandKind) (count : Nat) :
    Moved k (decodeImmediate kind count) (decodeImmediate kind count) := by
  unfold decodeImmediate
  split
  · exact (Moved.token.times count).bind fun values => .pure _
  · exact (Moved.doubleToken.times count).bind fun values => .pure _
  · exact .pure none

theorem moved_decode : Moved k decode decode := by
  refine .position_bind fun start => Moved.token.bind fun token => ?_
  split
  · exact .failAt start _
  · next kind components hhead =>
      refine (moved_decodeIndices start token _).bind fun indices => ?_
      exact (moved_decodeImmediate kind _).bind fun immediate => .pure _

theorem moved_decodeDestination : Moved k decodeDestination decodeDestination :=
  .position_bind fun _ => moved_decode.bind fun op => .guard (.pure op)

theorem moved_decodeOfKind (expected : OperandKind) :
    Moved k (decodeOfKind expected) (decodeOfKind expected) :=
  .position_bind fun _ => moved_decode.bind fun op => .guard (.pure op)

theorem moved_decodeSlot (expected : OperandKind) :
    Moved k (decodeSlot expected) (decodeSlot expected) := by
  refine .position_bind fun start => (moved_decodeOfKind expected).bind fun op => ?_
  split
  · next slot _ => exact .pure slot
  · exact .failAt start _
  · exact .failAt start _

theorem moved_decodeSlotAndSize (expected : OperandKind) :
    Moved k (decodeSlotAndSize expected) (decodeSlotAndSize expected) := by
  refine .position_bind fun start => (moved_decodeOfKind expected).bind fun op => ?_
  split
  · next slot size _ => exact .pure (slot, size)
  · exact .failAt start _
  · exact .failAt start _

end Operand

/-! ## Instructions -/

namespace Instruction

theorem moved_decodeMember {α : Type} [Coded α] (field : EnumeratedField) (position : Nat)
    (value : UInt32) : Moved k (decodeMember field position value : Decoder α)
      (decodeMember field (position + k) value) := by
  unfold decodeMember
  split
  · exact .pure _
  · exact .failAt position _

theorem moved_decodeReturnTypes (fields : Lanes BitRange) (position : Nat) (token : UInt32) :
    Moved k (decodeReturnTypes fields position token)
      (decodeReturnTypes fields (position + k) token) := by
  refine (moved_decodeMember _ position _).bind fun x => ?_
  refine (moved_decodeMember _ position _).bind fun y => ?_
  refine (moved_decodeMember _ position _).bind fun z => ?_
  exact (moved_decodeMember _ position _).bind fun w => .pure (Lanes.mk x y z w)

theorem moved_decodeDimensionExtension :
    Moved k decodeDimensionExtension decodeDimensionExtension :=
  .position_bind fun position => Moved.token.bind fun _ =>
    .guard (.guard (moved_decodeMember _ position _))

theorem moved_decodeReturnTypesExtension :
    Moved k decodeReturnTypesExtension decodeReturnTypesExtension :=
  .position_bind fun position => Moved.token.bind fun token =>
    .guard (.guard (moved_decodeReturnTypes _ position token))

theorem moved_decodeBody (start : Nat) (token : UInt32) (opcode : Opcode) :
    Moved k (decodeBody start token opcode) (decodeBody (start + k) token opcode) := by
  unfold decodeBody
  split
  · exact .pure _
  · exact Operand.moved_decode.bind fun op => .pure _
  · exact Operand.moved_decode.bind fun op => .pure _
  · refine Operand.moved_decode.bind fun op => .position_bind fun position => ?_
    refine Moved.token.bind fun last => ?_
    exact (moved_decodeMember _ position _).bind fun name => .pure _
  · exact Moved.token.bind fun count => .pure _
  · exact (Operand.moved_decodeSlotAndSize _).bind fun slotAndSize => .pure _
  · refine (moved_decodeMember _ start _).bind fun mode => ?_
    exact (Operand.moved_decodeSlot _).bind fun slot => .pure _
  · refine (moved_decodeMember _ start _).bind fun dimension => .guard ?_
    refine (Operand.moved_decodeSlot _).bind fun slot => .position_bind fun position => ?_
    refine Moved.token.bind fun last => ?_
    exact (moved_decodeReturnTypes _ position last).bind fun types => .pure _
  · refine Operand.moved_decodeDestination.bind fun dst => ?_
    exact Operand.moved_decode.bind fun src => .pure _
  · refine Operand.moved_decodeDestination.bind fun dst => ?_
    exact Operand.moved_decode.bind fun a => Operand.moved_decode.bind fun b => .pure _
  · refine Operand.moved_decodeDestination.bind fun dst => ?_
    exact Operand.moved_decode.bind fun a => Operand.moved_decode.bind fun b => .pure _
  · refine Operand.moved_decodeDestination.bind fun dst => ?_
    refine Operand.moved_decode.bind fun a => Operand.moved_decode.bind fun b => ?_
    exact Operand.moved_decode.bind fun c => .pure _
  · refine .guard (moved_decodeDimensionExtension.bind fun dimension => ?_)
    refine moved_decodeReturnTypesExtension.bind fun types => ?_
    refine Operand.moved_decodeDestination.bind fun dst => ?_
    refine Operand.moved_decode.bind fun coord => ?_
    refine (Operand.moved_decodeOfKind _).bind fun texture => ?_
    refine (Operand.moved_decodeOfKind _).bind fun sampler => ?_
    exact Operand.moved_decode.bind fun lod => .pure _
  · exact .pure _
  · exact .failAt start _

theorem moved_decode : Moved k decode decode := by
  refine .position_bind fun start => Moved.token.bind fun token => ?_
  split
  · exact .failAt start _
  · next opcode declared hhead =>
      refine (moved_decodeBody start token opcode).bind fun inst => .position_bind fun finish => ?_
      -- Start and end have moved alike, so as many tokens lie between them as before.
      dsimp only
      rw [Nat.add_sub_add_right]
      exact .guard (.pure inst)

theorem moved_decodeUpTo (n : Nat) : Moved k (decodeUpTo n) (decodeUpTo n) := by
  induction n with
  | zero => exact .pure []
  | succ n ih =>
      refine .get_bind fun c => ?_
      have hend : (c.moved k).isAtEnd = c.isAtEnd := rfl
      rw [hend]
      split
      · exact .pure []
      · exact moved_decode.bind fun inst => ih.bind fun insts => .pure (inst :: insts)

/-- A sequence of instructions reads the same wherever it stands. -/
theorem moved_decodeAll : Moved k decodeAll decodeAll :=
  .get_bind fun c => moved_decodeUpTo c.remaining

end Instruction

end ShaderBytecode
