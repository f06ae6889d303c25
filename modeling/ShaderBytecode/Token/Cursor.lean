import ShaderBytecode.DecodeError

set_option autoImplicit false

/-! # Reading a token stream

A `TokenCursor` is a place in a token stream: how many tokens lie before it and which lie after. The
tokens before it are not kept, so nothing that is read can depend on them. A `Decoder` moves a cursor
forward and either returns a value or fails; a failed decoder leaves the cursor where the read that
failed left it. -/

namespace ShaderBytecode

/-- A place in a token stream. -/
structure TokenCursor where
  /-- How many tokens lie before the cursor. -/
  position : Nat
  /-- The tokens after the cursor. -/
  rest : List UInt32
  deriving DecidableEq, Repr

namespace TokenCursor

/-- The place before token number `position`, or the end of a shorter stream. -/
def ofTokens (tokens : List UInt32) (position : Nat) : TokenCursor :=
  ⟨min position tokens.length, tokens.drop position⟩

/-- How many tokens lie after the cursor. -/
def remaining (c : TokenCursor) : Nat := c.rest.length

def isAtEnd (c : TokenCursor) : Bool := c.rest.isEmpty

/-- The token after the cursor. -/
def peek? (c : TokenCursor) : Option UInt32 := c.rest.head?

theorem position_add_remaining_ofTokens (tokens : List UInt32) (position : Nat) :
    (TokenCursor.ofTokens tokens position).position + (TokenCursor.ofTokens tokens position).remaining
      = tokens.length := by
  simp only [TokenCursor.ofTokens, remaining, List.length_drop]
  omega

end TokenCursor

/-- A step that reads tokens. -/
abbrev Decoder : Type → Type := EStateM DecodeError TokenCursor

namespace Decoder

variable {α : Type}

/-- The position of the next token. -/
def position : Decoder Nat := return (← get).position

/-- Fail because of the token at `position`. -/
def failAt (position : Nat) (fault : DecodeFault) : Decoder α := throw ⟨position, fault⟩

/-- Fail for want of tokens. -/
def failShort (wanted : Nat) : Decoder α := do
  let c ← get
  failAt c.position (.unexpectedEnd wanted c.remaining)

/-- Read one token. -/
def token : Decoder UInt32 := do
  match (← get) with
  | ⟨position, t :: rest⟩ => set (TokenCursor.mk (position + 1) rest); return t
  | ⟨_, []⟩ => failShort 1

/-- Read two tokens as one value, the low half first; with fewer than two left nothing is read. -/
def doubleToken : Decoder UInt64 := do
  match (← get) with
  | ⟨position, low :: high :: rest⟩ =>
      set (TokenCursor.mk (position + 2) rest)
      return low.toUInt64 ||| (high.toUInt64 <<< 32)
  | _ => failShort 2

/-- Run a decoder `n` times and collect the results. -/
def times (n : Nat) (d : Decoder α) : Decoder (List α) :=
  match n with
  | 0 => return []
  | n + 1 => return (← d) :: (← times n d)

end Decoder

end ShaderBytecode
