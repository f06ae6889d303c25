import ShaderBytecode.Coded

set_option autoImplicit false

/-! # Operand kinds

What an operand refers to: one of the register files, or values written into the instruction itself.
Shader model 4.0 numbers them 0 to 16; unordered access views were given 30 later. -/

namespace ShaderBytecode

/-- What an operand refers to. -/
inductive OperandKind where
  | temp | input | output | indexableTemp | immediate32 | immediate64 | sampler | resource
  | constantBuffer | immediateConstantBuffer | label | inputPrimitiveId | outputDepth | null
  | rasterizer | outputCoverageMask | stream | unorderedAccessView
  deriving DecidableEq, Repr

namespace OperandKind

/-- The number of each kind, its name in messages, and the letters its registers start with in
    assembly text. -/
def entry : OperandKind → UInt32 × String × String
  | .temp => (0, "Temp", "r")
  | .input => (1, "Input", "v")
  | .output => (2, "Output", "o")
  | .indexableTemp => (3, "IndexableTemp", "x")
  | .immediate32 => (4, "Immediate32", "l")
  | .immediate64 => (5, "Immediate64", "l")
  | .sampler => (6, "Sampler", "s")
  | .resource => (7, "Resource", "t")
  | .constantBuffer => (8, "ConstantBuffer", "cb")
  | .immediateConstantBuffer => (9, "ImmediateConstantBuffer", "icb")
  | .label => (10, "Label", "label")
  | .inputPrimitiveId => (11, "InputPrimitiveId", "vPrim")
  | .outputDepth => (12, "OutputDepth", "oDepth")
  | .null => (13, "Null", "null")
  | .rasterizer => (14, "Rasterizer", "rasterizer")
  | .outputCoverageMask => (15, "OutputCoverageMask", "oMask")
  | .stream => (16, "Stream", "m")
  | .unorderedAccessView => (30, "UnorderedAccessView", "u")

/-- The kind's name in messages. -/
def name (kind : OperandKind) : String := kind.entry.2.1

/-- The letters that registers of this kind start with in assembly text. -/
def symbol (kind : OperandKind) : String := kind.entry.2.2

instance : Coded OperandKind where
  members :=
    [.temp, .input, .output, .indexableTemp, .immediate32, .immediate64, .sampler, .resource,
     .constantBuffer, .immediateConstantBuffer, .label, .inputPrimitiveId, .outputDepth, .null,
     .rasterizer, .outputCoverageMask, .stream, .unorderedAccessView]
  code kind := kind.entry.1
  find?_code kind := by cases kind <;> rfl

/-- Whether the operand's values are written into the instruction. -/
def isImmediate (kind : OperandKind) : Bool := kind = immediate32 || kind = immediate64

end OperandKind

end ShaderBytecode
