import ShaderBytecode.Instruction.Text
import ShaderBytecode.Shader
import ShaderBytecode.Text.Json

set_option autoImplicit false

/-! # Reports for programs

The same container as a JSON record, with its program if the shader could be read, else with the
reason why not. -/

namespace ShaderBytecode.Report

def chunkJson (chunk : Chunk) : JsonValue :=
  .record [
    ("fourcc", .text chunk.tag.text),
    ("offset", .number chunk.offset),
    ("len", .number chunk.data.length)]

def programJson (p : Program) : JsonValue :=
  .record [
    ("stage", .text p.stage.name),
    ("model", .text s!"{p.model.major}_{p.model.minor}"),
    ("instructions", .list (p.instructions.map fun inst => .text inst.text))]

/-- The field that tells what became of the shader; none if it was read and has no program. -/
def outcomeField : Except ShaderError Shader → List (String × JsonValue)
  | .ok shader => (shader.program.map fun p => ("program", programJson p)).toList
  | .error e => [("error", .text e.message)]

/-- The whole report. -/
def json (container : Container) (shader : Except ShaderError Shader) : JsonValue :=
  .record ([
      ("size", .number container.bytes.length),
      ("checksum", .text (hexText container.header.checksum)),
      ("checksum_ok", .bool container.checksumMatches),
      ("chunks", .list (container.chunks.map chunkJson))]
    ++ outcomeField shader)

end ShaderBytecode.Report
