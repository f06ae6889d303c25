import ShaderBytecode.Tag

set_option autoImplicit false

/-! # What can be wrong with a container

Every way in which a container, one of its chunks or a read of bytes can fail. The causes fall into
seven categories, which give the messages their openings; the first three mean that the bytes are
damaged or no container at all, the others that their structure is wrong. -/

namespace ShaderBytecode

/-- A kind of record that chunks hold in tables. -/
inductive RecordKind where
  | constantBuffer | variable | binding | structMember
  deriving DecidableEq, Repr

def RecordKind.description : RecordKind → String
  | .constantBuffer => "constant buffer"
  | .variable => "variable"
  | .binding => "resource binding"
  | .structMember => "struct member"

/-- What a name that cannot be read was to name. -/
inductive NameOwner where
  | creator | constantBuffer | variable | binding | structMember
  | element (index : Nat)
  deriving DecidableEq, Repr

def NameOwner.description : NameOwner → String
  | .creator => "creator"
  | .constantBuffer => "constant buffer name"
  | .variable => "variable name"
  | .binding => "resource name"
  | .structMember => "member name"
  | .element index => s!"element {index} name"

/-- Why a container or a part of it cannot be read or written. -/
inductive ContainerError where
  | checksumMismatch (stored computed : List UInt8)
  | badMagic (found : Tag)
  | sizeMismatch (declared actual : Nat)
  | headerTooShort (length : Nat)
  | tooManyChunks (count limit : Nat)
  | tableOutside (tableEnd length : Nat)
  | chunkInsideTable (index offset tableEnd : Nat)
  | chunkHeaderOutside (index offset length : Nat)
  | chunkDataOutside (index : Nat) (tag : Tag) (start finish length : Nat)
  | seekOutside (offset length : Nat)
  | readTooLong (count position : Nat)
  | readOutside (count position length : Nat)
  | stringOutside (offset length : Nat)
  | stringUnterminated (offset : Nat)
  | containerTooLarge
  | stringNotUtf8 (offset : Nat)
  | resourceHeaderTooShort (length : Nat)
  | recordsOutside (count : Nat) (kind : RecordKind) (offset length : Nat)
  | typeTooDeep (offset limit : Nat)
  | typeGraphTooLarge (limit length : Nat)
  | typeInsideHeader (offset : Nat)
  | elementTableMisplaced (offset : Nat)
  | elementTableOutside (count size offset length : Nat)
  | elementNameMisplaced (index offset : Nat)
  | badName (owner : NameOwner) (cause : ContainerError)
  | badResourceChunk (tag : Tag) (cause : ContainerError)
  | badSignatureChunk (tag : Tag) (cause : ContainerError)
  | unreadableSignature (size : Nat) (cause : ContainerError) (otherSize : Nat)
      (otherCause : ContainerError)
  deriving DecidableEq, Repr

/-- What part of a container an error is about. -/
inductive ErrorCategory where
  | checksum | magic | size | header | offsets | range | chunk
  deriving DecidableEq, Repr

namespace ErrorCategory

/-- Damage, as opposed to a wrong structure. -/
def isIntegrity : ErrorCategory → Bool
  | .checksum | .magic | .size => true
  | .header | .offsets | .range | .chunk => false

/-- How messages of the category begin. -/
def opening : ErrorCategory → String
  | .checksum | .magic | .size => ""
  | .header => "malformed DXBC header: "
  | .offsets => "malformed DXBC chunk offsets: "
  | .range => "DXBC range out of bounds: "
  | .chunk => "invalid DXBC chunk: "

end ErrorCategory

namespace ContainerError

def category : ContainerError → ErrorCategory
  | .checksumMismatch .. => .checksum
  | .badMagic .. => .magic
  | .sizeMismatch .. => .size
  | .headerTooShort .. => .header
  | .tooManyChunks .. | .tableOutside .. | .chunkInsideTable .. => .offsets
  | .chunkHeaderOutside .. | .chunkDataOutside .. | .seekOutside .. | .readTooLong ..
  | .readOutside .. | .stringOutside .. | .stringUnterminated .. | .containerTooLarge => .range
  | .stringNotUtf8 .. | .resourceHeaderTooShort .. | .recordsOutside .. | .typeTooDeep ..
  | .typeGraphTooLarge .. | .typeInsideHeader .. | .elementTableMisplaced ..
  | .elementTableOutside .. | .elementNameMisplaced .. | .badName .. | .badResourceChunk ..
  | .badSignatureChunk .. | .unreadableSignature .. => .chunk

/-- A digest as its bytes in brackets. -/
def digestText (bytes : List UInt8) : String :=
  "[" ++ ", ".intercalate (bytes.map fun b => String.ofList (hexByte b)) ++ "]"

/-- The message without its opening. -/
def detail : ContainerError → String
  | .checksumMismatch stored computed =>
      "checksum mismatch: header stores " ++ digestText stored
        ++ ", computed " ++ digestText computed
  | .badMagic found => s!"bad magic {found.text}, expected DXBC"
  | .sizeMismatch declared actual =>
      s!"declared file size {declared} does not match buffer length {actual}"
  | .headerTooShort length => s!"need at least 32 bytes, got {length}"
  | .tooManyChunks count limit => s!"chunk_count {count} exceeds maximum {limit}"
  | .tableOutside tableEnd length =>
      s!"chunk offset table ends at {tableEnd}, but total_size is {length}"
  | .chunkInsideTable index offset tableEnd =>
      s!"chunk {index} offset {offset} points into the header or offset table "
        ++ s!"(need >= {tableEnd})"
  | .chunkHeaderOutside index offset length =>
      s!"chunk {index} header at {offset}..{offset + 8} is outside total_size {length}"
  | .chunkDataOutside index tag start finish length =>
      s!"chunk {index} ({tag.text}) data at {start}..{finish} is outside total_size {length}"
  | .seekOutside offset length => s!"offset {offset} is outside buffer length {length}"
  | .readTooLong count position => s!"read of {count} bytes at {position} overflows"
  | .readOutside count position length =>
      s!"need {count} bytes at {position}..{position + count}, but buffer length is {length}"
  | .stringOutside offset length => s!"string offset {offset} is outside buffer length {length}"
  | .stringUnterminated offset => s!"string at offset {offset} is missing a null terminator"
  | .containerTooLarge => "container does not fit in 32-bit offsets"
  | .stringNotUtf8 offset => s!"string at offset {offset} is not valid UTF-8"
  | .resourceHeaderTooShort length => s!"RDEF header needs 28 bytes, got {length}"
  | .recordsOutside count kind offset length =>
      s!"{count} {kind.description} descriptors at {offset} exceed chunk length {length}"
  | .typeTooDeep offset limit => s!"type at {offset} nests deeper than {limit} levels"
  | .typeGraphTooLarge limit length =>
      s!"type graph expands past {limit} nodes for a {length}-byte chunk"
  | .typeInsideHeader offset => s!"type offset {offset} points into the RDEF header"
  | .elementTableMisplaced offset => s!"element table offset {offset} is misplaced"
  | .elementTableOutside count size offset length =>
      s!"{count} elements of {size} bytes at {offset} exceed chunk length {length}"
  | .elementNameMisplaced index offset =>
      s!"element {index} name offset {offset} points into the header or element table"
  | .badName owner cause => s!"{owner.description}: {cause.detail}"
  | .badResourceChunk tag cause => s!"{tag.text} chunk: {cause.detail}"
  | .badSignatureChunk tag cause => s!"{tag.text} signature chunk: {cause.detail}"
  | .unreadableSignature size cause otherSize otherCause =>
      s!"failed to parse signature ({size}-byte entries: {cause.detail}; "
        ++ s!"{otherSize}-byte entries: {otherCause.detail})"

def message (e : ContainerError) : String := e.category.opening ++ e.detail

end ContainerError

end ShaderBytecode
