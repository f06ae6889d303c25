import ShaderBytecode.Instruction.Decoder
import ShaderBytecode.Proofs.Token.Bounds

set_option autoImplicit false

/-! # Reading instructions stays inside the stream

Every reader of operands and instructions is bounded, one lemma for each of them. A fault of a token
is reported at the token or at the first one of its operand or instruction; in each case the reader
was run from there or behind it. What the first tokens themselves can be refused for is never the
want of tokens. -/

namespace ShaderBytecode

open Decoder (Bounded)

variable {start : Nat}

/-! ## Operands -/

namespace Operand

theorem onlyFails_decodeHead (token : UInt32) :
    OnlyFails DecodeFault.OfToken (decodeHead token) := by
  refine .refuse nofun ?_
  have hcomponents : OnlyFails DecodeFault.OfToken (decodeComponents token) := by
    unfold decodeComponents
    split
    · exact .pure _
    · exact .pure _
    · split
      · exact .pure _
      · exact .pure _
      · exact .pure _
      · exact .throw nofun
    · exact .throw nofun
  have hkind : OnlyFails DecodeFault.OfToken (decodeKind token) := by
    unfold decodeKind
    dsimp only
    split
    · exact .pure _
    · exact .throw nofun
  exact hcomponents.bind fun components => hkind.bind fun kind => .pure (kind, components)

theorem bounded_decodeIndex (token : UInt32) (field : BitRange) :
    Bounded start (decodeIndex start token field) := by
  unfold decodeIndex
  split
  · exact Bounded.token.bind fun value => .pure (RegisterIndex.imm32 value)
  · exact Bounded.doubleToken.bind fun value => .pure (RegisterIndex.imm64 value)
  · exact .failAt nofun

theorem bounded_decodeIndices (token : UInt32) (fields : List BitRange) :
    Bounded start (decodeIndices start token fields) := by
  induction fields with
  | nil => exact .pure []
  | cons field fields ih =>
      refine (bounded_decodeIndex token field).bind fun index => ?_
      exact ih.bind fun indices => .pure (index :: indices)

theorem bounded_decodeImmediate (kind : OperandKind) (count : Nat) :
    Bounded start (decodeImmediate kind count) := by
  unfold decodeImmediate
  split
  · exact (Bounded.token.times count).bind fun values => .pure _
  · exact (Bounded.doubleToken.times count).bind fun values => .pure _
  · exact .pure none

theorem bounded_decode : Bounded start decode := by
  refine .position_bind fun p => Bounded.token.bind fun token => ?_
  split
  · next fault hhead => exact .failAt (onlyFails_decodeHead token fault hhead)
  · next kind components hhead =>
      refine (bounded_decodeIndices token _).bind fun indices => ?_
      exact (bounded_decodeImmediate kind _).bind fun immediate => .pure _

/-- Of an index of two tokens only one is left. -/
example : decode.run (.ofTokens [7, 0x5000F2, 3] 1)
    = .error ⟨2, .unexpectedEnd 2 1⟩ (.ofTokens [7, 0x5000F2, 3] 2) := rfl

theorem bounded_decodeDestination : Bounded start decodeDestination :=
  .position_bind fun _ => bounded_decode.bind fun op => .guard nofun (.pure op)

theorem bounded_decodeOfKind (expected : OperandKind) : Bounded start (decodeOfKind expected) :=
  .position_bind fun _ => bounded_decode.bind fun op => .guard nofun (.pure op)

theorem bounded_decodeSlot (expected : OperandKind) : Bounded start (decodeSlot expected) := by
  refine .position_bind fun p => (bounded_decodeOfKind expected).bind fun op => ?_
  split
  · next slot _ => exact .pure slot
  · exact .failAt nofun
  · exact .failAt nofun

theorem bounded_decodeSlotAndSize (expected : OperandKind) :
    Bounded start (decodeSlotAndSize expected) := by
  refine .position_bind fun p => (bounded_decodeOfKind expected).bind fun op => ?_
  split
  · next slot size _ => exact .pure (slot, size)
  · exact .failAt nofun
  · exact .failAt nofun

end Operand

/-! ## Instructions -/

namespace Instruction

theorem bounded_decodeMember {α : Type} [Coded α] (field : EnumeratedField) (value : UInt32) :
    Bounded start (decodeMember field start value : Decoder α) := by
  unfold decodeMember
  split
  · exact .pure _
  · exact .failAt nofun

theorem bounded_decodeReturnTypes (fields : Lanes BitRange) (token : UInt32) :
    Bounded start (decodeReturnTypes fields start token) := by
  refine (bounded_decodeMember _ _).bind fun x => ?_
  refine (bounded_decodeMember _ _).bind fun y => ?_
  refine (bounded_decodeMember _ _).bind fun z => ?_
  exact (bounded_decodeMember _ _).bind fun w => .pure (Lanes.mk x y z w)

theorem bounded_decodeDimensionExtension : Bounded start decodeDimensionExtension :=
  .position_bind fun _ => Bounded.token.bind fun _ =>
    .guard nofun (.guard nofun (bounded_decodeMember _ _))

theorem bounded_decodeReturnTypesExtension : Bounded start decodeReturnTypesExtension :=
  .position_bind fun _ => Bounded.token.bind fun token =>
    .guard nofun (.guard nofun (bounded_decodeReturnTypes _ token))

theorem bounded_decodeBody (token : UInt32) (opcode : Opcode) :
    Bounded start (decodeBody start token opcode) := by
  unfold decodeBody
  split
  · exact .pure _
  · exact Operand.bounded_decode.bind fun op => .pure _
  · exact Operand.bounded_decode.bind fun op => .pure _
  · refine Operand.bounded_decode.bind fun op => .position_bind fun p => ?_
    refine Bounded.token.bind fun last => ?_
    exact (bounded_decodeMember _ _).bind fun name => .pure _
  · exact Bounded.token.bind fun count => .pure _
  · exact (Operand.bounded_decodeSlotAndSize _).bind fun slotAndSize => .pure _
  · refine (bounded_decodeMember _ _).bind fun mode => ?_
    exact (Operand.bounded_decodeSlot _).bind fun slot => .pure _
  · refine (bounded_decodeMember _ _).bind fun dimension => .guard nofun ?_
    refine (Operand.bounded_decodeSlot _).bind fun slot => .position_bind fun p => ?_
    refine Bounded.token.bind fun last => ?_
    exact (bounded_decodeReturnTypes _ last).bind fun types => .pure _
  · refine Operand.bounded_decodeDestination.bind fun dst => ?_
    exact Operand.bounded_decode.bind fun src => .pure _
  · refine Operand.bounded_decodeDestination.bind fun dst => ?_
    exact Operand.bounded_decode.bind fun a => Operand.bounded_decode.bind fun b => .pure _
  · refine Operand.bounded_decodeDestination.bind fun dst => ?_
    exact Operand.bounded_decode.bind fun a => Operand.bounded_decode.bind fun b => .pure _
  · refine Operand.bounded_decodeDestination.bind fun dst => ?_
    refine Operand.bounded_decode.bind fun a => Operand.bounded_decode.bind fun b => ?_
    exact Operand.bounded_decode.bind fun c => .pure _
  · refine .guard nofun (bounded_decodeDimensionExtension.bind fun dimension => ?_)
    refine bounded_decodeReturnTypesExtension.bind fun types => ?_
    refine Operand.bounded_decodeDestination.bind fun dst => ?_
    refine Operand.bounded_decode.bind fun coord => ?_
    refine (Operand.bounded_decodeOfKind _).bind fun texture => ?_
    refine (Operand.bounded_decodeOfKind _).bind fun sampler => ?_
    exact Operand.bounded_decode.bind fun lod => .pure _
  · exact .pure _
  · exact .failAt nofun

theorem onlyFails_decodeHead (token : UInt32) :
    OnlyFails DecodeFault.OfToken (decodeHead token) := by
  refine .refuse nofun ?_
  dsimp only
  split
  · exact .throw nofun
  · exact .refuse nofun (.pure _)

theorem bounded_decode : Bounded start decode := by
  refine .position_bind fun p => Bounded.token.bind fun token => ?_
  split
  · next fault hhead => exact .failAt (onlyFails_decodeHead token fault hhead)
  · next opcode declared hhead =>
      -- The end of the instruction is noted only to be compared with its start.
      refine (bounded_decodeBody token opcode).bind fun inst => ?_
      exact Bounded.position.bind fun finish => .guard nofun (.pure inst)

end Instruction

end ShaderBytecode
