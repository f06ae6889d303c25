import ShaderBytecode.CommandLine.Path

set_option autoImplicit false

/-! # Files in memory

A tree of directories and files and a working directory in it, for running the command without a file
system. Every component of a path but the last has to lead to a directory, and the first that does not
decides the error. A file can be written to any directory that is there; no directories are made. -/

namespace ShaderBytecode.CommandLine

/-- What is found under a name. -/
inductive Entry where
  | directory
  | file (bytes : List UInt8)
  /-- A file that stays empty whatever is written to it. -/
  | sink
  deriving DecidableEq, Repr

/-- The names that lead to an entry, the innermost one first; none for the root. -/
abbrev Location := List String

/-- A tree of files and the directory in it that relative paths start from. -/
structure FileTree where
  /-- The entries below the root. -/
  entries : List (Location × Entry)
  workingDirectory : Location
  deriving DecidableEq, Repr

namespace FileTree

/-- The entry at a location. -/
def get? (t : FileTree) : Location → Option Entry
  | [] => some .directory
  | location => t.entries.lookup location

/-- Replace the entry at a location below the root, or add it. -/
def put (t : FileTree) (location : Location) (entry : Entry) : FileTree :=
  { t with entries := (location, entry) :: t.entries.filter (·.1 ≠ location) }

@[simp] theorem get?_put_self (t : FileTree) (name : String) (directory : Location) (entry : Entry) :
    (t.put (name :: directory) entry).get? (name :: directory) = some entry := by
  simp [get?, put]

/-- The directories that a system has at its root. -/
def topDirectories : List String :=
  ["bin", "boot", "dev", "etc", "home", "lib", "media", "mnt", "opt", "proc", "root", "run", "sbin",
    "srv", "sys", "tmp", "usr", "var"]

/-- A directory below the one for temporary files, under a name that no path can spell. -/
def scratch : Location := ["", "tmp"]

/-- A system without files but for its null device and these, which lie in the working directory. -/
def ofFiles (files : List (String × List UInt8)) : FileTree :=
  { entries :=
      files.map (fun (name, bytes) => (name :: scratch, .file bytes)) ++
      (["null", "dev"], .sink) :: (scratch, .directory) ::
      topDirectories.map (fun name => ([name], .directory))
    workingDirectory := scratch }

/-- Look for a name in a directory. -/
def find? (t : FileTree) (directory : Location) (name : String) : Except FileError (Option Entry) :=
  if Path.maxNameBytes < name.utf8ByteSize then .error .nameTooLong
  else .ok (t.get? (name :: directory))

/-- The directory that a component leads to. The root holds itself. -/
def step (t : FileTree) (directory : Location) : Component → Except FileError Location
  | .current => return directory
  | .parent => return directory.tail
  | .name name => do
      match ← t.find? directory name with
      | none => throw .notFound
      | some .directory => return name :: directory
      | some _ => throw .notDirectory

/-- The directory in which the last component of a path is looked for. -/
def walk (t : FileTree) (path : Path) : Except FileError Location :=
  path.directories.foldlM t.step (if path.absolute then [] else t.workingDirectory)

/-- Read a file. -/
def read (t : FileTree) (text : String) : Except FileError (List UInt8) := do
  let path ← Path.ofString text
  let directory ← t.walk path
  match path.last with
  | some (.name name) =>
      match ← t.find? directory name with
      | none => throw .notFound
      | some .directory => throw .isDirectory
      | some (.file bytes) => if path.asDirectory then throw .notDirectory else return bytes
      | some .sink => if path.asDirectory then throw .notDirectory else return []
  | _ => throw .isDirectory

/-- Write a file. A path that ends with a slash cannot be meant for a file, whatever is there. -/
def write (t : FileTree) (text : String) (bytes : List UInt8) : Except FileError FileTree := do
  let path ← Path.ofString text
  let directory ← t.walk path
  match path.last with
  | some (.name name) =>
      if path.asDirectory then
        throw .isDirectory
      match ← t.find? directory name with
      | some .directory => throw .isDirectory
      | some .sink => return t
      | _ => return t.put (name :: directory) (.file bytes)
  | _ => throw .isDirectory

/-- Access to the files of a tree that is carried along. -/
def access : FileAccess (StateM FileTree) where
  read path := return (← get).read path
  write path bytes := do
    match (← get).write path bytes with
    | .ok t => set t; return .ok ()
    | .error e => return .error e

end FileTree

end ShaderBytecode.CommandLine
