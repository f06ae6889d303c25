import ShaderBytecode.Decimal.Shortest

set_option autoImplicit false

/-! # Floating-point numbers as bit patterns

The interchange formats with 32 and 64 bits: a sign, a biased exponent and a fraction. The largest
exponent is kept for infinities and for patterns that are no number; the smallest one has no hidden
leading bit. -/

namespace ShaderBytecode

/-- The sizes of the two lower fields of a floating-point format. -/
structure BinaryFormat where
  fractionBits : Nat
  exponentBits : Nat

namespace BinaryFormat

/-- The 32-bit format. -/
def single : BinaryFormat := ⟨23, 8⟩

/-- The 64-bit format. -/
def double : BinaryFormat := ⟨52, 11⟩

end BinaryFormat

/-- What the magnitude bits of a floating-point number stand for. -/
inductive Magnitude where
  | notANumber
  | infinite
  | zero
  | finite (value : Dyadic)
  deriving DecidableEq, Repr

namespace BinaryFormat

/-- Whether the sign bit of a pattern is set. -/
def isNegative (format : BinaryFormat) (bits : Nat) : Bool :=
  bits / Nat.pow 2 (format.fractionBits + format.exponentBits) % 2 = 1

/-- The magnitude of a pattern. -/
def magnitude (format : BinaryFormat) (bits : Nat) : Magnitude :=
  let hidden := Nat.pow 2 format.fractionBits
  let fraction := bits % hidden
  let exponent := bits / hidden % Nat.pow 2 format.exponentBits
  let lowest : Int := 2 - (Nat.pow 2 (format.exponentBits - 1) : Nat) - format.fractionBits
  if exponent = Nat.pow 2 format.exponentBits - 1 then
    if fraction = 0 then .infinite else .notANumber
  else if exponent = 0 then
    if fraction = 0 then .zero else .finite ⟨fraction, lowest, false⟩
  else
    .finite ⟨hidden + fraction, lowest + (exponent - 1),
      fraction = 0 && exponent > 1⟩

end BinaryFormat

end ShaderBytecode
