import ShaderBytecode.EmitError
import ShaderBytecode.Token.Fields

set_option autoImplicit false

/-! # Shader stages and models

The first token of a program tells the pipeline stage it runs in and the shader model it is written
for. Six stages have a name; other numbers are kept, so that every version token can be read. -/

namespace ShaderBytecode

/-- The pipeline stage that a program runs in. -/
inductive ShaderStage where
  | pixel | vertex | geometry | hull | domain | compute
  | unknown (programType : UInt16)
  deriving DecidableEq, Repr

namespace ShaderStage

/-- The stage's number in a version token. -/
def programType : ShaderStage → UInt16
  | .pixel => 0
  | .vertex => 1
  | .geometry => 2
  | .hull => 3
  | .domain => 4
  | .compute => 5
  | .unknown programType => programType

/-- The stage with the given number. -/
def ofProgramType (programType : UInt16) : ShaderStage :=
  match programType with
  | 0 => .pixel
  | 1 => .vertex
  | 2 => .geometry
  | 3 => .hull
  | 4 => .domain
  | 5 => .compute
  | other => .unknown other

/-- Every number is some stage's. The converse fails: `unknown 0` has the number of `pixel`. -/
theorem programType_ofProgramType (programType : UInt16) :
    (ofProgramType programType).programType = programType := by
  unfold ofProgramType
  split <;> rfl

/-- The stage's letters before the model in assembly text. -/
def symbol : ShaderStage → String
  | .pixel => "ps"
  | .vertex => "vs"
  | .geometry => "gs"
  | .hull => "hs"
  | .domain => "ds"
  | .compute => "cs"
  | .unknown _ => "??"

/-- The stage's name in a summary. -/
def name : ShaderStage → String
  | .pixel => "Pixel"
  | .vertex => "Vertex"
  | .geometry => "Geometry"
  | .hull => "Hull"
  | .domain => "Domain"
  | .compute => "Compute"
  | .unknown programType => s!"Unknown({programType})"

end ShaderStage

/-- The shader model that a program is written for. -/
structure ShaderModel where
  major : UInt8
  minor : UInt8
  deriving DecidableEq, Repr

/-- What a version token says. -/
structure ShaderVersion where
  stage : ShaderStage
  model : ShaderModel
  deriving DecidableEq, Repr

namespace ShaderVersion

/-- Read a version token. -/
def decode (token : UInt32) : ShaderVersion where
  stage := .ofProgramType (VersionToken.programType.get token).toUInt16
  model := ⟨(VersionToken.major.get token).toUInt8, (VersionToken.minor.get token).toUInt8⟩

/-- Write a version token. Each part of the model has four bits. -/
def encode (version : ShaderVersion) : Except EmitError UInt32 :=
  let ⟨major, minor⟩ := version.model
  if VersionToken.major.fits major.toUInt32 && VersionToken.minor.fits minor.toUInt32 then
    .ok (BitRange.fill 0 [(VersionToken.minor, minor.toUInt32),
      (VersionToken.major, major.toUInt32),
      (VersionToken.programType, version.stage.programType.toUInt32)])
  else
    .error (.badShaderModel major minor)

end ShaderVersion

end ShaderBytecode
