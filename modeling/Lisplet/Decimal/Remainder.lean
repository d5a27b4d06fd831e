import Lisplet.Decimal.Layout

/-! The remainder of two doubles. Both are integers over a common power of two, so the remainder
of the truncated quotient is an integer remainder and is itself a double. -/
namespace Lisplet.Real

/-- The double `n · 2 ^ q`, which has to exist; below one it is the decimal `n · 5 ^ -q` with
`-q` places. -/
def scaled (n : Nat) (q : Int) : Float :=
  if q < 0 then Float.ofScientific (n * Nat.pow 5 q.natAbs) true q.natAbs
  else Float.ofNat (n * Nat.pow 2 q.natAbs)

def remainder (a b : Float) : Float :=
  match Magnitude.ofFloat a, Magnitude.ofFloat b with
  | (_, .nan), _ | _, (_, .nan) | (_, .infinite), _ | _, (_, .zero) => 0.0 / 0.0
  | (_, .zero), _ | _, (_, .infinite) => a
  | (negative, .finite m p), (_, .finite n q) =>
    let least := min p q
    let r := (m * Nat.pow 2 (p - least).toNat) % (n * Nat.pow 2 (q - least).toNat)
    if negative then -scaled r least else scaled r least

def modulo (a b : Float) : Float :=
  let r := remainder a b
  if r != 0.0 && decide (r < 0.0) != decide (b < 0.0) then r + b else r

end Lisplet.Real
