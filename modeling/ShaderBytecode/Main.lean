import ShaderBytecode.CommandLine.Path
import ShaderBytecode.CommandLine.Run

set_option autoImplicit false

/-! # The program

The command on the file system: exit code 0 for success, 1 for a failure and 2 for arguments that
cannot be followed. -/

namespace ShaderBytecode.CommandLine

/-- Does an error of the system have a number? The number comes with either sign. -/
def hasNumber (code number : UInt32) : Bool := code = number ∨ code + number = 0

/-- The reason behind an error of the system. -/
def FileError.ofSystem : IO.Error → FileError
  | .noFileOrDirectory .. => .notFound
  | .permissionDenied .. => .permissionDenied
  | .inappropriateType _ code _ => if hasNumber code 20 then .notDirectory else .isDirectory
  | .invalidArgument _ code details =>
      if hasNumber code 36 then .nameTooLong else .other details
  | e => .other (toString e)

/-- Access to the files of the system. Paths that no system can follow are refused beforehand. -/
def systemFiles : FileAccess IO where
  read path := do
    match Path.ofString path with
    | .error e => return .error e
    | .ok _ =>
        try
          return .ok (← IO.FS.readBinFile path).data.toList
        catch e => return .error (.ofSystem e)
  write path bytes := do
    match Path.ofString path with
    | .error e => return .error e
    | .ok _ =>
        try
          IO.FS.writeBinFile path ⟨bytes.toArray⟩
          return .ok ()
        catch e => return .error (.ofSystem e)

/-- A failure as it is reported: what failed, and under it the causes. -/
def failureText : List String → String
  | [] => ""
  | [failed] => s!"Error: {failed}\n"
  | failed :: causes =>
      s!"Error: {failed}\n\nCaused by:\n" ++ String.join (causes.map fun c => s!"    {c}\n")

end ShaderBytecode.CommandLine

open ShaderBytecode.CommandLine in
def main (arguments : List String) : IO UInt32 := do
  match Arguments.ofList arguments with
  | .error .helpWanted =>
      IO.println UsageError.helpWanted.message
      return 0
  | .error e =>
      IO.eprintln s!"error: {e.message}"
      return 2
  | .ok args =>
      let outcome ← run systemFiles args
      IO.print outcome.output
      IO.eprint (failureText outcome.failure)
      return if outcome.failure.isEmpty then 0 else 1
