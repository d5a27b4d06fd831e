import Lisplet.Decimal.Shortest

/-! Texts of reals. A style says which powers of ten are written out in full and what ends a whole
number; every other real has one digit before the point and a power of ten after an `e`. -/
namespace Lisplet

inductive Magnitude where
  | nan
  | infinite
  | zero
  | finite (m : Nat) (q : Int)
deriving DecidableEq, Repr

namespace Magnitude

/-- The sign bit, eleven bits of exponent and fifty-two of fraction. -/
def ofFloat (x : Float) : Bool × Magnitude :=
  let bits := x.toBits.toNat
  let negative := bits / Nat.pow 2 63 == 1
  let exponent : Nat := bits / Nat.pow 2 52 % Nat.pow 2 11
  let fraction := bits % Nat.pow 2 52
  let magnitude :=
    if exponent = 2047 then (if fraction = 0 then infinite else nan)
    else if exponent = 0 then (if fraction = 0 then zero else finite fraction (-1074))
    else finite (Nat.pow 2 52 + fraction) ((exponent : Int) - 1075)
  (negative, magnitude)

end Magnitude

structure RealStyle where
  /-- Whether a real whose first digit stands for this power of ten is written without `e`. -/
  positional : Int → Bool
  /-- What ends a whole number written without `e`. -/
  wholeEnd : String

namespace RealStyle

/-- Reals in source text: in full from `1e-4` up to `1e16`, and never without a point or an `e`. -/
def source : RealStyle := ⟨fun power => -4 ≤ power && power < 16, ".0"⟩

/-- Reals in prose: always in full, whole numbers without a point. -/
def prose : RealStyle := ⟨fun _ => true, ""⟩

def zeros (n : Int) : List Char := List.replicate n.toNat '0'

/-- Digits in full; `power` is the power of ten of the first one. -/
def inFull (style : RealStyle) (digits : List Char) (power : Int) : String :=
  if power < 0 then String.ofList ('0' :: '.' :: zeros (-power - 1) ++ digits)
  else if digits.length ≤ power.toNat + 1 then
    String.ofList (digits ++ zeros (power + 1 - digits.length)) ++ style.wholeEnd
  else String.ofList (digits.take (power.toNat + 1) ++ '.' :: digits.drop (power.toNat + 1))

def withPower (digits : List Char) (power : Int) : String :=
  String.ofList (match digits with
    | first :: second :: rest => first :: '.' :: second :: rest
    | short => short) ++ "e" ++ toString power

def decimal (style : RealStyle) (d : Decimal) : String :=
  let digits := Nat.toDigits 10 d.digits
  let power := d.exponent + digits.length - 1
  if style.positional power then style.inFull digits power else withPower digits power

/-- The sign of a zero is written, that of a NaN is not. -/
def text (style : RealStyle) (x : Float) : String :=
  match Magnitude.ofFloat x with
  | (_, .nan) => "NaN"
  | (negative, magnitude) =>
    let body := match magnitude with
      | .finite m q => style.decimal (Decimal.shortest m q)
      | .zero => "0" ++ style.wholeEnd
      | _ => "inf"
    if negative then "-" ++ body else body

end RealStyle

end Lisplet
