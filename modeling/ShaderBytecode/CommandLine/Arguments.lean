set_option autoImplicit false

/-! # Arguments of the command

Options begin with two dashes, letters with one; several letters may share a dash, and whatever follows
a bare double dash is no option. The value of an option follows it after an equals sign or as the
next argument. Every setting can be made once.

A value given as an argument of its own, like the input path, is held back until the next setting is
made, and only looked at then. So an argument that is not understood is reported before a bad value
in front of it. -/

namespace ShaderBytecode.CommandLine

/-- What the command is asked to do. -/
structure Arguments where
  /-- The container to report on. -/
  input : Option String := none
  /-- Report in JSON. -/
  json : Bool := false
  /-- Report on containers that do not store their own digest too. -/
  noVerify : Bool := false
  /-- How many of the program's tokens to show. -/
  head : Nat := 0
  /-- Say more about what is being done. -/
  verbose : Bool := false
  /-- Where to write the passthrough shader. -/
  emitPassthrough : Option String := none
  deriving DecidableEq, Repr

/-- A setting that an argument can make. -/
inductive Setting where
  | input | json | noVerify | head | verbose | emitPassthrough | help
  deriving DecidableEq, Repr

namespace Setting

def takesValue : Setting → Bool
  | .input | .head | .emitPassthrough => true
  | .json | .noVerify | .verbose | .help => false

/-- The setting that is spelt with two dashes. -/
def ofName? : String → Option Setting
  | "json" => some .json
  | "no-verify" => some .noVerify
  | "head" => some .head
  | "verbose" => some .verbose
  | "emit-passthrough" => some .emitPassthrough
  | "help" => some .help
  | _ => none

/-- The setting that is spelt with one dash. -/
def ofLetter? : Char → Option Setting
  | 'v' => some .verbose
  | 'h' => some .help
  | _ => none

/-- The setting as a reader of messages knows it. -/
def name : Setting → String
  | .input => "[INPUT]"
  | .json => "--json"
  | .noVerify => "--no-verify"
  | .head => "--head <N>"
  | .verbose => "--verbose"
  | .emitPassthrough => "--emit-passthrough <PATH>"
  | .help => "--help"

end Setting

/-- Why arguments cannot be followed. -/
inductive UsageError where
  | unknownArgument (argument : String)
  | missingValue (setting : Setting)
  | badNumber (value : String)
  | unwantedValue (setting : Setting)
  | repeated (setting : Setting)
  | helpWanted
  deriving DecidableEq, Repr

def UsageError.message : UsageError → String
  | .unknownArgument argument => s!"unexpected argument {argument}"
  | .missingValue setting => s!"no value for {setting.name}"
  | .badNumber value => s!"{Setting.head.name} does not take the value {value}"
  | .unwantedValue setting => s!"{setting.name} takes no value"
  | .repeated setting => s!"{setting.name} is given twice"
  | .helpWanted =>
      "usage: [--json] [--no-verify] [--head <N>] [-v] [--emit-passthrough <PATH>] [INPUT]"

/-- A number in decimal digits, after a plus sign or not, that fits into 64 bits. -/
def number? (s : String) : Option Nat :=
  let digits := match s.toList with
    | '+' :: digits => digits
    | digits => digits
  if digits ≠ [] ∧ digits.all Char.isDigit then
    let n := digits.foldl (fun n c => 10 * n + (c.toNat - '0'.toNat)) 0
    if n < UInt64.size then some n else none
  else
    none

/-- Make a setting, with the value given to it if it takes one. -/
def Arguments.set (args : Arguments) (setting : Setting) (value : String) :
    Except UsageError Arguments :=
  match setting with
  | .input => if value = "" then throw (.missingValue .input) else pure { args with input := value }
  | .json => pure { args with json := true }
  | .noVerify => pure { args with noVerify := true }
  | .head =>
      match number? value with
      | some n => pure { args with head := n }
      | none => throw (.badNumber value)
  | .verbose => pure { args with verbose := true }
  | .emitPassthrough =>
      if value = "" then throw (.missingValue .emitPassthrough)
      else pure { args with emitPassthrough := value }
  | .help => throw .helpWanted

/-- How far the arguments have been followed. -/
structure Progress where
  arguments : Arguments := {}
  /-- The settings that were made. -/
  made : List Setting := []
  /-- A setting that is not yet made, with its value if that was given. -/
  pending : Option (Setting × Option String) := none

namespace Progress

/-- Make a setting. -/
def make (p : Progress) (setting : Setting) (value : Option String) :
    Except UsageError Progress := do
  if setting.takesValue && value.isNone then
    throw (.missingValue setting)
  if setting ∈ p.made then
    throw (.repeated setting)
  let arguments ← p.arguments.set setting (value.getD "")
  return { p with arguments, made := setting :: p.made }

/-- Make the setting that was held back. -/
def settle (p : Progress) : Except UsageError Progress :=
  match p.pending with
  | none => return p
  | some (setting, value) => { p with pending := none }.make setting value

/-- Follow an argument with two dashes, given without them. -/
def takeLong (p : Progress) (body : String) : Except UsageError Progress := do
  let chars := body.toList
  let name := String.ofList (chars.takeWhile (· ≠ '='))
  match Setting.ofName? name, chars.dropWhile (· ≠ '=') with
  | none, _ => throw (.unknownArgument ("--" ++ name))
  | some setting, [] =>
      let p ← p.settle
      if setting.takesValue then
        return { p with pending := some (setting, none) }
      p.make setting none
  | some setting, _ :: value =>
      if setting.takesValue then
        (← p.settle).make setting (some (String.ofList value))
      else
        throw (.unwantedValue setting)

/-- Follow one letter. -/
def takeLetter (p : Progress) (letter : Char) : Except UsageError Progress := do
  match Setting.ofLetter? letter with
  | none => throw (.unknownArgument (String.ofList ['-', letter]))
  | some setting => (← p.settle).make setting none

/-- Has an input path been given? -/
def hasInput (p : Progress) : Bool :=
  p.made.contains .input || (p.pending.map (·.1)) == some .input

/-- Follow an argument that is the input path. -/
def takeInput (p : Progress) (path : String) : Except UsageError Progress := do
  if p.hasInput then
    throw (.unknownArgument path)
  return { (← p.settle) with pending := some (.input, some path) }

/-- Follow an argument without dashes: the value of the option before it, or the input path. -/
def takeWord (p : Progress) (word : String) : Except UsageError Progress :=
  match p.pending with
  | some (setting, none) => return { p with pending := some (setting, some word) }
  | _ => p.takeInput word

/-- Follow one argument in front of a bare double dash. -/
def take (p : Progress) (argument : String) : Except UsageError Progress :=
  match argument.toList with
  | '-' :: '-' :: body => p.takeLong (String.ofList body)
  | ['-'] => p.takeWord argument
  | '-' :: letters => letters.foldlM takeLetter p
  | _ => p.takeWord argument

/-- Follow the arguments one after another. -/
def takeAll (p : Progress) : List String → Except UsageError Progress
  | [] => p.settle
  | "--" :: rest => do (← rest.foldlM takeInput p).settle
  | argument :: rest => do (← p.take argument).takeAll rest

end Progress

/-- What the arguments ask for. -/
def Arguments.ofList (arguments : List String) : Except UsageError Arguments :=
  return (← Progress.takeAll {} arguments).arguments

end ShaderBytecode.CommandLine
