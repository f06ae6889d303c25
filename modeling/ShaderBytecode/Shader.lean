import ShaderBytecode.Container.Contents
import ShaderBytecode.Container.Parser
import ShaderBytecode.Program.Decoder

set_option autoImplicit false

/-! # Shaders

A shader is what a container says as a whole: what the program reads, its signatures and the program
itself. All chunks are looked at in the order of the table, so a chunk that cannot be read makes the
shader unreadable. When a role is filled twice, the later chunk wins, except that a program of shader
model 4 never replaces another. The program is decoded last. -/

namespace ShaderBytecode

/-- Why a shader cannot be read. -/
inductive ShaderError where
  | container (cause : ContainerError)
  | framing (cause : FramingError)
  | decode (cause : DecodeError)
  | missingShaderChunk
  deriving DecidableEq, Repr

namespace ShaderError

/-- Damage, as opposed to a wrong structure. -/
def isIntegrity : ShaderError → Bool
  | .container cause => cause.category.isIntegrity
  | .framing _ | .decode _ | .missingShaderChunk => false

def message : ShaderError → String
  | .container cause => cause.message
  | .framing cause => cause.message
  | .decode cause => cause.message
  | .missingShaderChunk => "DXBC is missing SHDR/SHEX shader chunk"

end ShaderError

/-! ## The program of a container -/

namespace TokenProgram

/-- The tokens of a container's program. -/
def ofContainer (container : Container) : Except ShaderError TokenProgram :=
  match container.shaderChunk? with
  | some chunk => (ofBytes chunk.data).mapError .framing
  | none => .error .missingShaderChunk

/-- The tokens of the program in a container's bytes. -/
def ofContainerBytes (bytes : List UInt8) : Except ShaderError TokenProgram := do
  ofContainer (← (Container.parse bytes).mapError .container)

end TokenProgram

/-! ## Whole shaders -/

/-- What the chunks of a container fill. -/
structure ShaderRoles where
  resources : Option ResourceTable := none
  inputs : Option Signature := none
  outputs : Option Signature := none
  program : Option Chunk := none

namespace ShaderRoles

/-- Take one more chunk into account. -/
def add (roles : ShaderRoles) (chunk : Chunk) : Except ContainerError ShaderRoles := do
  let tag := chunk.tag
  if tag = .rdef then
    return { roles with resources := some (← ResourceTable.parse chunk.data) }
  else if tag = .isgn ∨ tag = .isg1 then
    return { roles with inputs := some (← Signature.parseTagged tag chunk.data) }
  else if tag = .osgn ∨ tag = .osg1 then
    return { roles with outputs := some (← Signature.parseTagged tag chunk.data) }
  else if tag = .shex then
    return { roles with program := some chunk }
  else if tag = .shdr then
    return { roles with program := roles.program <|> some chunk }
  else
    return roles

/-- Take all chunks into account, one after another. -/
def ofChunks (chunks : List Chunk) : Except ContainerError ShaderRoles := chunks.foldlM add {}

end ShaderRoles

/-- A container and what it says. -/
structure Shader where
  header : Header
  /-- The tags of all chunks, known or not. -/
  tags : List Tag
  resources : Option ResourceTable
  inputs : Option Signature
  outputs : Option Signature
  program : Option Program

namespace Shader

/-- The instructions of the program, none if there is no program. -/
def instructions (shader : Shader) : List Instruction :=
  (shader.program.map (·.instructions)).getD []

/-- Read and decode the program in a chunk. -/
def programOf (chunk : Chunk) : Except ShaderError Program := do
  let tokens ← (TokenProgram.ofBytes chunk.data).mapError .framing
  tokens.decode.mapError .decode

/-- The shader that a container holds. -/
def ofContainer (container : Container) : Except ShaderError Shader := do
  let roles ← (ShaderRoles.ofChunks container.chunks).mapError .container
  return {
    header := container.header
    tags := container.chunks.map (·.tag)
    resources := roles.resources
    inputs := roles.inputs
    outputs := roles.outputs
    program := (← roles.program.mapM programOf) }

/-- Read a shader. -/
def parseWith (options : ParseOptions) (bytes : List UInt8) : Except ShaderError Shader := do
  ofContainer (← (Container.parseWith options bytes).mapError .container)

/-- Read a shader with the usual options. -/
def parse (bytes : List UInt8) : Except ShaderError Shader := parseWith {} bytes

end Shader

end ShaderBytecode
