import ShaderBytecode.Instruction.Text
import ShaderBytecode.Shader

set_option autoImplicit false

/-! # Reports for readers

A report on a container tells its header and its chunks, on request the first tokens of the program,
and what the shader says, as far as it could be read. A report is a list of lines. -/

namespace ShaderBytecode.Report

/-- The lines for the header and the chunks. -/
def containerLines (container : Container) : List String :=
  let header := container.header
  let state := if container.checksumMatches then "ok" else "MISMATCH"
  (s!"DXBC {header.totalSize} bytes, {header.chunkCount} chunks, "
      ++ s!"checksum {hexText header.checksum} ({state})")
    :: container.chunks.map fun chunk =>
      let offset := hexNumber 4 chunk.offset
      s!"  {chunk.tag.text} @ {offset} ({chunk.data.length} bytes)"

/-- The lines for the first `count` tokens of the program; none if there are no tokens to show. -/
def tokenLines (container : Container) (count : Nat) : List String :=
  if count = 0 then
    []
  else
    match TokenProgram.ofContainer container with
    | .error _ => []
    | .ok p =>
        "tokens:" :: (p.tokens.take count).zipIdx.map fun (token, index) =>
          let number := padLeft ' ' 4 (toString index)
          let word := hexNumber 8 token.toNat
          s!"  [{number}] {word}"

/-- The lines for a signature, none if there is no signature. -/
def signatureLines (title : String) : Option Signature → List String
  | none => []
  | some elements =>
      s!"{title}:" :: elements.map fun e =>
        let mask := hexNumber 1 e.mask.toNat
        let usage := hexNumber 1 e.usageMask.toNat
        s!"  {e.name}{e.index} r{e.register} mask {mask} rw {usage} sv {e.systemValue}"

/-- The lines for a constant buffer and its variables. -/
def bufferLines (buffer : ConstantBuffer) : List String :=
  s!"  cbuffer {buffer.name} ({buffer.size} bytes)"
    :: buffer.vars.map fun v => s!"    {v.name} @ {v.offset} ({v.size} bytes)"

/-- The line for a binding. The end of its slots is at most `2 ^ 32 - 1`. -/
def bindingLine (b : ResourceBinding) : String :=
  let last := min (b.bindPoint.toNat + b.bindCount.toNat) (UInt32.size - 1)
  s!"  binding {b.name} type {b.inputType} slot {b.bindPoint}..{last}"

/-- The lines for a resource table, none if there is no table. -/
def resourceLines : Option ResourceTable → List String
  | none => []
  | some table =>
      (s!"rdef: {table.creator} {table.major}.{table.minor}, "
          ++ s!"{table.buffers.length} constant buffers, {table.bindings.length} bindings")
        :: table.buffers.flatMap bufferLines
        ++ table.bindings.map bindingLine

/-- The lines for a program, none if there is no program. -/
def programLines : Option Program → List String
  | none => []
  | some p =>
      s!"{p.stage.symbol}_{p.model.major}_{p.model.minor}:"
        :: p.instructions.map fun inst => "  " ++ inst.text

/-- The lines for a shader. -/
def shaderLines (shader : Shader) : List String :=
  signatureLines "input signature" shader.inputs
    ++ signatureLines "output signature" shader.outputs
    ++ resourceLines shader.resources
    ++ programLines shader.program

/-- The whole report, with the given number of tokens. -/
def text (container : Container) (shader : Option Shader) (tokenCount : Nat) : String :=
  let lines := containerLines container
    ++ tokenLines container tokenCount
    ++ (shader.map shaderLines).getD []
  String.join (lines.map (· ++ "\n"))

end ShaderBytecode.Report
