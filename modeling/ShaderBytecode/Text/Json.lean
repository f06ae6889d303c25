import ShaderBytecode.Text.Hex

set_option autoImplicit false

/-! # Structured text

Values made of text, numbers, truth values, lists and records, and their indented form in JSON. Every
item of a list or record gets a line of its own, two blanks further in than the brackets around it;
an empty list or record is its brackets alone. -/

namespace ShaderBytecode

/-- A value that can be written as JSON. -/
inductive JsonValue where
  | text (s : String)
  | number (n : Nat)
  | bool (b : Bool)
  | list (items : List JsonValue)
  | record (fields : List (String × JsonValue))

namespace JsonValue

/-- A character of a quoted text. Quotes, backslashes and control characters are escaped, the common
    ones of these by a letter; all else stands for itself. -/
def escape (c : Char) : List Char :=
  match c with
  | '\"' => ['\\', '\"']
  | '\\' => ['\\', '\\']
  | '\x08' => ['\\', 'b']
  | '\t' => ['\\', 't']
  | '\n' => ['\\', 'n']
  | '\x0c' => ['\\', 'f']
  | '\r' => ['\\', 'r']
  | c => if c.toNat < 0x20 then '\\' :: 'u' :: '0' :: '0' :: hexByte c.toUInt8 else [c]

/-- Text in quotes. -/
def quote (s : String) : String := String.ofList ('\"' :: s.toList.flatMap escape ++ ['\"'])

/-- A new line that is indented to the given depth. -/
def newLine (depth : Nat) : String := "\n".pushn ' ' (2 * depth)

/-- Items between brackets, each on a line of its own at the given depth. -/
def block (opening closing : Char) (depth : Nat) (items : List String) : String :=
  match items with
  | [] => String.ofList [opening, closing]
  | items =>
      opening.toString ++ newLine (depth + 1)
        ++ ("," ++ newLine (depth + 1)).intercalate items
        ++ newLine depth ++ closing.toString

mutual

/-- The text of a value that stands at the given depth. -/
def textAt (depth : Nat) : JsonValue → String
  | .text s => quote s
  | .number n => toString n
  | .bool true => "true"
  | .bool false => "false"
  | .list items => block '[' ']' depth (itemTexts depth items)
  | .record fields => block '\x7b' '\x7d' depth (fieldTexts depth fields)

/-- The texts of the items of a list that stands at the given depth. -/
def itemTexts (depth : Nat) : List JsonValue → List String
  | [] => []
  | item :: rest => item.textAt (depth + 1) :: itemTexts depth rest

/-- The texts of the fields of a record that stands at the given depth. -/
def fieldTexts (depth : Nat) : List (String × JsonValue) → List String
  | [] => []
  | (name, value) :: rest =>
      (quote name ++ ": " ++ value.textAt (depth + 1)) :: fieldTexts depth rest

end

/-- The text of a value. -/
def pretty (value : JsonValue) : String := value.textAt 0

end JsonValue

end ShaderBytecode
