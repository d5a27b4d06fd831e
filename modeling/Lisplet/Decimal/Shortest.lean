/-! The shortest decimal of a binary fraction. A positive double is `m · 2 ^ q`; the reals that
round to it form an interval, closed when `m` is even. Of the decimals in the interval with the
fewest digits the nearest is taken, and the larger of two equally near ones. All arithmetic is on
natural numbers over a common denominator. -/
namespace Lisplet

structure Decimal where
  digits : Nat
  exponent : Int
deriving DecidableEq, Repr

namespace Decimal

/-- The reals that round to one double, as fractions `low / den`, `mid / den`, `high / den`. -/
structure Rounding where
  low : Nat
  mid : Nat
  high : Nat
  den : Nat
  closed : Bool

/-- Below a power of two the neighbour is half as far away, except at the least exponent. -/
def Rounding.ofBinary (m : Nat) (q : Int) : Rounding :=
  let unit := Nat.pow 2 (q - 2).toNat
  let below := if m = Nat.pow 2 52 ∧ -1074 < q then 1 else 2
  { low := (4 * m - below) * unit
    mid := 4 * m * unit
    high := (4 * m + 2) * unit
    den := Nat.pow 2 (2 - q).toNat
    closed := m % 2 == 0 }

/-- The multiple of `10 ^ p` in the interval that is nearest to its middle; a tie goes up. -/
def Rounding.onGrid (r : Rounding) (p : Int) : Option Nat :=
  let up := Nat.pow 10 (-p).toNat
  let den := r.den * Nat.pow 10 p.toNat
  let c := r.mid * up / den
  let within (a b : Nat) : Bool := if r.closed then a ≤ b else a < b
  match within (r.low * up) (c * den), within ((c + 1) * den) (r.high * up) with
  | false, false => none
  | true, false => some c
  | false, true => some (c + 1)
  | true, true => some (if 2 * (r.mid * up) < (2 * c + 1) * den then c else c + 1)

def digitCount (n : Nat) : Nat := (Nat.toDigits 10 n).length

/-- The power of ten of the first digit of `num / den`. -/
def leadingPower (num den : Nat) : Int :=
  if den ≤ num then digitCount (num / den) - 1
  else -(digitCount ((den - 1) / num) : Int)

def trimZeros (d : Decimal) : Decimal :=
  if h : d.digits ≠ 0 ∧ d.digits % 10 = 0 then
    trimZeros ⟨d.digits / 10, d.exponent + 1⟩
  else d
termination_by d.digits
decreasing_by omega

/-- Seventeen digits always suffice for a double. -/
def shortest (m : Nat) (q : Int) : Decimal :=
  let r := Rounding.ofBinary m q
  let lead := leadingPower r.mid r.den
  let found := (List.range 17).findSome? fun (n : Nat) =>
    (r.onGrid (lead - n)).map fun c => (⟨c, lead - n⟩ : Decimal)
  trimZeros (found.getD ⟨0, 0⟩)

end Decimal

end Lisplet
