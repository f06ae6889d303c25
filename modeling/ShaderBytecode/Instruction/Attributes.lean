import ShaderBytecode.Coded

set_option autoImplicit false

/-! # Attributes of declarations

The small enumerations that declarations and sampling instructions carry beside their operands:
what system value an output feeds, how a sampler compares, which shape a resource has and what its
components hold, how a constant buffer is indexed, and the flags of a whole program. -/

namespace ShaderBytecode

/-- A value the pipeline itself reads from an output register. -/
inductive SystemValue where
  | undefined | position | clipDistance | cullDistance | renderTargetArrayIndex
  | viewportArrayIndex | vertexId | primitiveId | instanceId | isFrontFace | sampleIndex
  deriving DecidableEq, Repr

namespace SystemValue

/-- The number of each member and its name in text. -/
def entry : SystemValue → UInt32 × String
  | .undefined => (0, "Undefined")
  | .position => (1, "Position")
  | .clipDistance => (2, "ClipDistance")
  | .cullDistance => (3, "CullDistance")
  | .renderTargetArrayIndex => (4, "RenderTargetArrayIndex")
  | .viewportArrayIndex => (5, "ViewportArrayIndex")
  | .vertexId => (6, "VertexId")
  | .primitiveId => (7, "PrimitiveId")
  | .instanceId => (8, "InstanceId")
  | .isFrontFace => (9, "IsFrontFace")
  | .sampleIndex => (10, "SampleIndex")

/-- The value's name in assembly text. -/
def name (a : SystemValue) : String := a.entry.2

instance : Coded SystemValue where
  members :=
    [.undefined, .position, .clipDistance, .cullDistance, .renderTargetArrayIndex,
     .viewportArrayIndex, .vertexId, .primitiveId, .instanceId, .isFrontFace, .sampleIndex]
  code a := a.entry.1
  find?_code a := by cases a <;> rfl

end SystemValue

/-- How a sampler treats what it reads. -/
inductive SamplerMode where
  | default | comparison | mono
  deriving DecidableEq, Repr

namespace SamplerMode

/-- The number of each member and its name in text. -/
def entry : SamplerMode → UInt32 × String
  | .default => (0, "Default")
  | .comparison => (1, "Comparison")
  | .mono => (2, "Mono")

/-- The mode's name in assembly text. -/
def name (a : SamplerMode) : String := a.entry.2

instance : Coded SamplerMode where
  members :=
    [.default, .comparison, .mono]
  code a := a.entry.1
  find?_code a := by cases a <;> rfl

end SamplerMode

/-- The shape of a resource. -/
inductive ResourceDimension where
  | unknown | buffer | texture1D | texture2D | texture2DMs | texture3D | textureCube
  | texture1DArray | texture2DArray | texture2DMsArray | textureCubeArray | rawBuffer
  | structuredBuffer
  deriving DecidableEq, Repr

namespace ResourceDimension

/-- The number of each member and its name in text. -/
def entry : ResourceDimension → UInt32 × String
  | .unknown => (0, "Unknown")
  | .buffer => (1, "Buffer")
  | .texture1D => (2, "Texture1D")
  | .texture2D => (3, "Texture2D")
  | .texture2DMs => (4, "Texture2DMs")
  | .texture3D => (5, "Texture3D")
  | .textureCube => (6, "TextureCube")
  | .texture1DArray => (7, "Texture1DArray")
  | .texture2DArray => (8, "Texture2DArray")
  | .texture2DMsArray => (9, "Texture2DMsArray")
  | .textureCubeArray => (10, "TextureCubeArray")
  | .rawBuffer => (11, "RawBuffer")
  | .structuredBuffer => (12, "StructuredBuffer")

/-- The shape's name in assembly text. -/
def name (a : ResourceDimension) : String := a.entry.2

instance : Coded ResourceDimension where
  members :=
    [.unknown, .buffer, .texture1D, .texture2D, .texture2DMs, .texture3D, .textureCube,
     .texture1DArray, .texture2DArray, .texture2DMsArray, .textureCubeArray, .rawBuffer,
     .structuredBuffer]
  code a := a.entry.1
  find?_code a := by cases a <;> rfl

end ResourceDimension

/-- What one component of a resource holds. The numbering starts at 1. -/
inductive ReturnType where
  | unorm | snorm | sint | uint | float | mixed | double | continued | unused
  deriving DecidableEq, Repr

namespace ReturnType

/-- The number of each member and its name in text. -/
def entry : ReturnType → UInt32 × String
  | .unorm => (1, "Unorm")
  | .snorm => (2, "Snorm")
  | .sint => (3, "Sint")
  | .uint => (4, "Uint")
  | .float => (5, "Float")
  | .mixed => (6, "Mixed")
  | .double => (7, "Double")
  | .continued => (8, "Continued")
  | .unused => (9, "Unused")

/-- The type's name in assembly text. -/
def name (a : ReturnType) : String := a.entry.2

instance : Coded ReturnType where
  members :=
    [.unorm, .snorm, .sint, .uint, .float, .mixed, .double, .continued, .unused]
  code a := a.entry.1
  find?_code a := by cases a <;> rfl

end ReturnType

/-- Whether a constant buffer is indexed with constants only or with computed values too. -/
inductive ConstantAccess where
  | immediateIndexed | dynamicIndexed
  deriving DecidableEq, Repr

/-- The access pattern's name in assembly text. -/
def ConstantAccess.name : ConstantAccess → String
  | .immediateIndexed => "immediateIndexed"
  | .dynamicIndexed => "dynamicIndexed"

/-- Flags of a whole program, at their places in the opcode token. A value may hold bits that no
    flag is defined for; writing a program drops them. -/
structure GlobalFlags where
  bits : UInt32
  deriving DecidableEq, Repr

namespace GlobalFlags

/-- The optimiser may reorder arithmetic (bit 11). -/
def refactoringAllowed : UInt32 := 0x800

/-- Double-precision operations are in use (bit 12). -/
def enableDoublePrecision : UInt32 := 0x1000

/-- The bits that some flag is defined for. -/
def definedBits : UInt32 := refactoringAllowed ||| enableDoublePrecision

/-- The flags without the bits that no flag is defined for. -/
def truncate (flags : GlobalFlags) : GlobalFlags := ⟨flags.bits &&& definedBits⟩

def contains (flags : GlobalFlags) (flag : UInt32) : Bool := flags.bits &&& flag == flag

/-- The set flags by name, joined by bars. -/
def text (flags : GlobalFlags) : String :=
  let names := [(refactoringAllowed, "refactoringAllowed"),
    (enableDoublePrecision, "enableDoublePrecisionFloatOps")]
  " | ".intercalate ((names.filter fun entry => flags.contains entry.1).map (·.2))

end GlobalFlags

end ShaderBytecode
