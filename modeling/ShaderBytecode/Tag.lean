import ShaderBytecode.Text.Hex

set_option autoImplicit false

/-! # Tags

Containers and their chunks are named by four bytes, mostly letters. A tag prints as its characters;
bytes that are not printable ASCII print as an escape of four characters, and a backslash in a tag
prints as itself. -/

namespace ShaderBytecode

/-- A four-byte name. -/
structure Tag where
  first : UInt8
  second : UInt8
  third : UInt8
  fourth : UInt8
  deriving DecidableEq, Repr

namespace Tag

def toList (tag : Tag) : List UInt8 := [tag.first, tag.second, tag.third, tag.fourth]

/-- The tag that the first four bytes make, if there are so many. -/
def ofList? : List UInt8 → Option Tag
  | a :: b :: c :: d :: _ => some ⟨a, b, c, d⟩
  | _ => none

@[simp] theorem ofList?_toList_append (tag : Tag) (rest : List UInt8) :
    ofList? (tag.toList ++ rest) = some tag := rfl

/-- The tag with the given text, in UTF-8, cut to four bytes or filled up with spaces. -/
def ofString (s : String) : Tag :=
  let bytes := s.toUTF8.data.toList
  ⟨bytes.getD 0 0x20, bytes.getD 1 0x20, bytes.getD 2 0x20, bytes.getD 3 0x20⟩

/-- The tag with the given ASCII characters. -/
def ofChars (a b c d : Char) : Tag := ⟨a.toUInt8, b.toUInt8, c.toUInt8, d.toUInt8⟩

/-! ## Known tags -/

/-- The container itself. -/
def dxbc : Tag := ofChars 'D' 'X' 'B' 'C'

/-- Resource definitions. -/
def rdef : Tag := ofChars 'R' 'D' 'E' 'F'

/-- An input signature. -/
def isgn : Tag := ofChars 'I' 'S' 'G' 'N'

/-- An input signature with entries of 32 bytes. -/
def isg1 : Tag := ofChars 'I' 'S' 'G' '1'

/-- An output signature. -/
def osgn : Tag := ofChars 'O' 'S' 'G' 'N'

/-- An output signature with entries of 32 bytes. -/
def osg1 : Tag := ofChars 'O' 'S' 'G' '1'

/-- A program of shader model 5. -/
def shex : Tag := ofChars 'S' 'H' 'E' 'X'

/-- A program of shader model 4. -/
def shdr : Tag := ofChars 'S' 'H' 'D' 'R'

/-! ## Printing -/

/-- One byte of a tag: itself if it is printable ASCII, else `\x` and two digits. -/
def byteText (b : UInt8) : List Char :=
  if 0x20 ≤ b ∧ b ≤ 0x7E then [Char.ofUInt8 b] else '\\' :: 'x' :: hexByte b

def chars (tag : Tag) : List Char := tag.toList.flatMap byteText

def text (tag : Tag) : String := String.ofList tag.chars

/-- The tag in a dump of values. -/
def debugText (tag : Tag) : String := "FourCC(\"" ++ tag.text ++ "\")"

end Tag

end ShaderBytecode
