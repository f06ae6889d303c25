import ShaderBytecode.Decimal.Binary

set_option autoImplicit false

/-! # Writing decimals down

A `DecimalLayout` holds the decisions a text format makes about numbers: between which exponents they
are written out in full, and what stands for the values that are no finite number. -/

namespace ShaderBytecode

/-- How a text format writes floating-point numbers. -/
structure DecimalLayout where
  /-- Numbers whose first digit has a smaller exponent are written with an exponent. -/
  leastPositional : Int
  /-- Numbers whose first digit has this or a larger exponent are written with an exponent. -/
  leastScientific : Int
  /-- What stands for a pattern that is no number, whatever its sign. -/
  notANumber : String
  infinity : String
  zero : String

namespace Decimal

/-- All digits in full, with at least one digit on each side of the point. -/
def positional (d : Decimal) : String :=
  let digits := toString d.digits
  if 0 ≤ d.exponent then
    digits ++ "".pushn '0' d.exponent.toNat ++ ".0"
  else
    let places := (-d.exponent).toNat
    let padded := "".pushn '0' (places + 1 - digits.length) ++ digits
    let whole := padded.toList.take (padded.length - places)
    let fraction := padded.toList.drop (padded.length - places)
    String.ofList whole ++ "." ++ String.ofList fraction

/-- One digit, the others after a point if there are any, and the exponent of the first digit. -/
def scientific (d : Decimal) : String :=
  match (toString d.digits).toList with
  | [] => ""
  | first :: rest =>
      let fraction := if rest.isEmpty then "" else "." ++ String.ofList rest
      first.toString ++ fraction ++ "e" ++ toString (d.exponent + rest.length)

/-- The exponent of the first digit. -/
def leadingExponent (d : Decimal) : Int := d.exponent + (toString d.digits).length - 1

end Decimal

namespace DecimalLayout

def decimalText (layout : DecimalLayout) (d : Decimal) : String :=
  if layout.leastPositional ≤ d.leadingExponent ∧ d.leadingExponent < layout.leastScientific then
    d.positional
  else
    d.scientific

/-- The text of the number with the given bit pattern. -/
def text (layout : DecimalLayout) (format : BinaryFormat) (bits : Nat) : String :=
  let sign := if format.isNegative bits then "-" else ""
  match format.magnitude bits with
  | .notANumber => layout.notANumber
  | .infinite => sign ++ layout.infinity
  | .zero => sign ++ layout.zero
  | .finite value => sign ++ layout.decimalText value.shortest

end DecimalLayout

end ShaderBytecode
