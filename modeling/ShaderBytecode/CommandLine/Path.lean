import ShaderBytecode.CommandLine.FileAccess

set_option autoImplicit false

/-! # Paths

A path is followed component by component, from the root if it starts with a slash and from the working
directory otherwise. Further slashes only separate, so there are no empty components; but a slash at
the end says that the path leads to a directory. -/

namespace ShaderBytecode.CommandLine

/-- A step along a path. -/
inductive Component where
  /-- Stay in the directory. -/
  | current
  /-- Go to the directory that holds this one. -/
  | parent
  /-- Go to the entry of a name. -/
  | name (name : String)
  deriving DecidableEq, Repr

/-- The component that a text between slashes stands for. -/
def Component.ofString : String → Component
  | "." => .current
  | ".." => .parent
  | text => .name text

/-- A path in its components. -/
structure Path where
  /-- Does the path start at the root? -/
  absolute : Bool
  /-- The components in front of the last one. -/
  directories : List Component
  /-- The last component. Only a path of slashes has none. -/
  last : Option Component
  /-- Does the path end with a slash? -/
  asDirectory : Bool
  deriving DecidableEq, Repr

namespace Path

/-- The most bytes that a path can have. -/
def maxBytes : Nat := 4095

/-- The most bytes that a name can have. It binds only when the name is looked for. -/
def maxNameBytes : Nat := 255

/-- The path of a text. -/
def ofString (text : String) : Except FileError Path :=
  if '\x00' ∈ text.toList then .error .nulInPath
  else if text = "" then .error .notFound
  else if maxBytes < text.utf8ByteSize then .error .nameTooLong
  else
    let components := ((text.splitOn "/").filter (· ≠ "")).map Component.ofString
    .ok {
      absolute := text.toList.head? = some '/'
      directories := components.dropLast
      last := components.getLast?
      asDirectory := text.toList.getLast? = some '/' }

end Path

end ShaderBytecode.CommandLine
