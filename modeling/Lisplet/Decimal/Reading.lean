/-! Numerals as they are written in source text. An integer is an optional sign and digits; a
real may have a point, a power of ten after `e`, or be one of the words for infinity and NaN. -/
namespace Lisplet.Numeral

private def digitValue (c : Char) : Nat := c.toNat - '0'.toNat

def value (digits : List Char) : Nat :=
  digits.foldl (fun n c => 10 * n + digitValue c) 0

/-- The sign in front of a numeral, `true` for minus, and what follows it. -/
def splitSign : List Char → Bool × List Char
  | '-' :: rest => (true, rest)
  | '+' :: rest => (false, rest)
  | rest => (false, rest)

def integer? (cs : List Char) : Option Int :=
  match splitSign cs with
  | (_, []) => none
  | (negative, digits) =>
    if digits.all Char.isDigit then
      some (if negative then -(value digits : Int) else value digits)
    else none

def power? : List Char → Option Int
  | [] => some 0
  | c :: rest => if c == 'e' || c == 'E' then integer? rest else none

/-- The double nearest to `digits · 10 ^ power`. Beyond four hundred powers of ten every double is
infinite or zero, whatever its digits. -/
def nearest (digits : Nat) (power : Int) : Float :=
  let size := (Nat.toDigits 10 digits).length + power
  if digits = 0 || size < -400 then 0.0
  else if 400 < size then 1.0 / 0.0
  else if power < 0 then Float.ofScientific digits true power.natAbs
  else Float.ofScientific digits false power.natAbs

def unsigned? (cs : List Char) : Option Float := do
  let whole := cs.takeWhile Char.isDigit
  let rest := cs.dropWhile Char.isDigit
  let (fraction, rest) := match rest with
    | '.' :: rest => (rest.takeWhile Char.isDigit, rest.dropWhile Char.isDigit)
    | _ => ([], rest)
  if whole.isEmpty && fraction.isEmpty then none
  else
    let power ← power? rest
    some (nearest (value (whole ++ fraction)) (power - fraction.length))

def word? (cs : List Char) : Option Float :=
  match String.ofList (cs.map Char.toLower) with
  | "inf" | "infinity" => some (1.0 / 0.0)
  | "nan" => some (0.0 / 0.0)
  | _ => none

def real? (cs : List Char) : Option Float :=
  let (negative, rest) := splitSign cs
  (word? rest <|> unsigned? rest).map fun x => if negative then -x else x

end Lisplet.Numeral
