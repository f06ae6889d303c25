set_option autoImplicit false

/-! # The shortest decimal that reads back

A floating-point number stands for every real number that rounds to it. Of the decimals in that
interval the shortest is wanted, and of several equally short ones the nearest to the number itself.

Decimals with a given last place `10 ^ p` form a grid. The coarsest grid with a point in the interval
holds the shortest decimals, and if any point of a grid lies in the interval then one of the two that
enclose the number does. So the search walks from coarse to fine grids and looks at two points of
each, in exact arithmetic on natural numbers. It ends at the latest where the number itself is a
point of the grid. -/

namespace ShaderBytecode

/-- The decimal number `digits * 10 ^ exponent`. -/
structure Decimal where
  digits : Nat
  exponent : Int
  deriving DecidableEq, Repr

/-- A positive floating-point number `mantissa * 2 ^ exponent` and how near its neighbours are. The
    next larger number is `2 ^ exponent` away. -/
structure Dyadic where
  mantissa : Nat
  exponent : Int
  /-- The next smaller number is only half as far away as the next larger one. -/
  nearBelow : Bool
  deriving DecidableEq, Repr

namespace Dyadic

/-- The number itself as a decimal: a negative power of two is a negative power of ten times a power
    of five. -/
def exact (d : Dyadic) : Decimal :=
  if 0 ≤ d.exponent then ⟨d.mantissa * Nat.pow 2 d.exponent.toNat, 0⟩
  else ⟨d.mantissa * Nat.pow 5 (-d.exponent).toNat, d.exponent⟩

/-- The point of the grid with last place `10 ^ p` that rounds to the number and is nearest to it,
    the larger one of two equally near points. Lengths are measured in quarters of `2 ^ exponent`;
    both ends of the interval belong to it if the mantissa is even. -/
def onGrid? (d : Dyadic) (p : Int) : Option Nat :=
  let quarter := d.exponent - 2
  let unit := Nat.pow 2 quarter.toNat * Nat.pow 10 (-p).toNat
  let step := Nat.pow 10 p.toNat * Nat.pow 2 (-quarter).toNat
  let value := 4 * d.mantissa * unit
  let low := value - (if d.nearBelow then unit else 2 * unit)
  let high := value + 2 * unit
  let inside (n : Nat) : Bool :=
    if d.mantissa % 2 = 0 then low ≤ n * step && n * step ≤ high
    else low < n * step && n * step < high
  let below := value / step
  match inside below, inside (below + 1) with
  | true, true => if 2 * value < (2 * below + 1) * step then some below else some (below + 1)
  | true, false => some below
  | false, true => some (below + 1)
  | false, false => none

/-- Try the grids `10 ^ p`, `10 ^ (p - 1)` and so on, `n` of them. -/
def search (d : Dyadic) : Nat → Int → Decimal
  | 0, _ => d.exact
  | n + 1, p =>
      match d.onGrid? p with
      | some digits => ⟨digits, p⟩
      | none => d.search n (p - 1)

/-- The shortest decimal that rounds to the number. The number is below `2 ^ p`, and so below
    `10 ^ p`, for the grid `p` that the search starts with. -/
def shortest (d : Dyadic) : Decimal :=
  let first := max 0 (d.mantissa.log2 + 1 + d.exponent)
  d.search (first - min 0 d.exponent).toNat first

end Dyadic

end ShaderBytecode
