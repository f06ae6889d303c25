import ShaderBytecode.CommandLine.Arguments
import ShaderBytecode.CommandLine.FileAccess
import ShaderBytecode.Passthrough
import ShaderBytecode.Report.Json
import ShaderBytecode.Report.Text

set_option autoImplicit false

/-! # The command

The command writes the passthrough shader, if asked to, and then reports on a container, if given one.
It asks for nothing but reading and writing whole files, so that it runs on a file system as well as
on a directory in memory. A report is printed as soon as the container itself can be read, also if
the shader in it cannot. -/

namespace ShaderBytecode.CommandLine

/-- What a run of the command leaves behind. -/
structure Outcome where
  /-- What is printed. -/
  output : String := ""
  /-- What failed and why, from the outside in; empty if the run succeeds. -/
  failure : List String := []
  deriving DecidableEq, Repr

/-- Report on the bytes of a container that was read from the path `input`. -/
def inspect (args : Arguments) (input : String) (bytes : List UInt8) : Outcome :=
  match Container.parseWith { verifyChecksum := !args.noVerify } bytes with
  | .error e => { failure := [s!"parse {input}", e.message] }
  | .ok container =>
      let shader := Shader.ofContainer container
      let output :=
        if args.json then (Report.json container shader).pretty ++ "\n"
        else Report.text container shader.toOption args.head
      match shader with
      | .ok _ => { output }
      | .error e => { output, failure := [s!"decode {input}", e.message] }

section

variable {m : Type → Type} [Monad m]

/-- Write the passthrough shader. The result is what failed and why. -/
def emitPassthrough (files : FileAccess m) (path : String) : m (List String) := do
  match Passthrough.container with
  | .error e => return ["emit passthrough shader", e.message]
  | .ok bytes =>
      match ← files.write path bytes with
      | .error e => return [s!"write {path}", e.message]
      | .ok () => return []

/-- Report on the container at a path. -/
def inspectFile (files : FileAccess m) (args : Arguments) (input : String) : m Outcome := do
  match ← files.read input with
  | .error e => return { failure := [s!"read {input}", e.message] }
  | .ok bytes => return inspect args input bytes

/-- Run the command. -/
def run (files : FileAccess m) (args : Arguments) : m Outcome := do
  match args.emitPassthrough, args.input with
  | none, none =>
      return { failure := ["no input file given (pass a path or --emit-passthrough <PATH>)"] }
  | none, some input => inspectFile files args input
  | some path, input =>
      match ← emitPassthrough files path, input with
      | [], some input => inspectFile files args input
      | failure, _ => return { failure }

end

end ShaderBytecode.CommandLine
