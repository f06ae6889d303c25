set_option autoImplicit false

/-! # Access to files

All that the command needs of a file system: reading and writing whole files by path. -/

namespace ShaderBytecode.CommandLine

/-- Why a file cannot be read or written. -/
inductive FileError where
  | notFound | notDirectory | isDirectory | nameTooLong | permissionDenied
  /-- The path holds a character that no name can have. -/
  | nulInPath
  | other (message : String)
  deriving DecidableEq, Repr

/-- The message of the operating system, and one for paths that do not get as far. -/
def FileError.message : FileError → String
  | .notFound => "No such file or directory (os error 2)"
  | .notDirectory => "Not a directory (os error 20)"
  | .isDirectory => "Is a directory (os error 21)"
  | .nameTooLong => "File name too long (os error 36)"
  | .permissionDenied => "Permission denied (os error 13)"
  | .nulInPath => "file name contained an unexpected NUL byte"
  | .other message => message

/-- Reading and writing whole files. -/
structure FileAccess (m : Type → Type) where
  read : String → m (Except FileError (List UInt8))
  write : String → List UInt8 → m (Except FileError Unit)

end ShaderBytecode.CommandLine
