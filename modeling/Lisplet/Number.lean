import Lisplet.Decimal.Reading
import Lisplet.Decimal.Remainder

/-! Numbers: integers of the signed sixty-four-bit range, and reals. Integer arithmetic is exact or
fails; as soon as one operand is real the operation is on reals. -/
namespace Lisplet

inductive Number where
  | int (n : Int64)
  | real (r : Float)

inductive Arithmetic where
  | addition
  | subtraction
  | multiplication
deriving DecidableEq, Repr

inductive ArithmeticFault where
  | overflow (operation : Arithmetic)
  | divisionByZero
  | moduloByZero
deriving DecidableEq, Repr

def Arithmetic.name : Arithmetic → String
  | .addition => "addition"
  | .subtraction => "subtraction"
  | .multiplication => "multiplication"

def ArithmeticFault.message : ArithmeticFault → String
  | .overflow operation => "Integer overflow in " ++ operation.name
  | .divisionByZero => "Division by zero"
  | .moduloByZero => "Modulo by zero"

namespace Number

def ofInt? (n : Int) : Option Number :=
  if Int64.minValue.toInt ≤ n ∧ n ≤ Int64.maxValue.toInt then some (int (Int64.ofInt n)) else none

def toReal : Number → Float
  | int n => Float.ofInt n.toInt
  | real r => r

def isZero : Number → Bool
  | int n => n == 0
  | real r => r == 0.0

/-- The exact integer result if there is one, the real result if an operand is real. -/
def combine (operation : Arithmetic) (onInts : Int → Int → Int) (onReals : Float → Float → Float)
    (a b : Number) : Except ArithmeticFault Number :=
  match a, b with
  | int a, int b =>
    match ofInt? (onInts a.toInt b.toInt) with
    | some n => .ok n
    | none => .error (.overflow operation)
  | a, b => .ok (real (onReals a.toReal b.toReal))

def add : Number → Number → Except ArithmeticFault Number :=
  combine .addition (· + ·) (· + ·)

def sub : Number → Number → Except ArithmeticFault Number :=
  combine .subtraction (· - ·) (· - ·)

def mul : Number → Number → Except ArithmeticFault Number :=
  combine .multiplication (· * ·) (· * ·)

def div (a b : Number) : Except ArithmeticFault Number :=
  if b.isZero then .error .divisionByZero else .ok (real (a.toReal / b.toReal))

/-- Whether a remainder is not zero and of another sign than the divisor. -/
def signsDiffer (r b : Int64) : Bool := r != 0 && decide (r < 0) != decide (b < 0)

def modulo (a b : Int64) : Int64 :=
  let r := a % b
  if signsDiffer r b then r + b else r

/-- The remainder of floored division: zero, or of the sign of the divisor. -/
def mod (a b : Number) : Except ArithmeticFault Number :=
  if b.isZero then .error .moduloByZero
  else match a, b with
    | int a, int b => .ok (int (modulo a b))
    | a, b => .ok (real (Real.modulo a.toReal b.toReal))

/-- Equal as integers when both are, as reals otherwise. -/
def same : Number → Number → Bool
  | int a, int b => a == b
  | a, b => a.toReal == b.toReal

/-- No order holds between a NaN and anything. -/
def compare? : Number → Number → Option Ordering
  | int a, int b => some (compare a.toInt b.toInt)
  | a, b =>
    let x := a.toReal
    let y := b.toReal
    if x < y then some .lt else if y < x then some .gt else if x == y then some .eq else none

def text : Number → String
  | int n => toString n.toInt
  | real r => RealStyle.source.text r

def startsNumeral : List Char → Bool
  | c :: _ => c.isDigit || c == '-' || c == '+' || c == '.'
  | [] => false

/-- The number that an atom denotes: an integer in the range, or else a finite real. A word for
infinity is no number, nor is a numeral beyond the doubles: neither could be written again. -/
def ofAtom? (cs : List Char) : Option Number :=
  (Numeral.integer? cs).bind ofInt? <|>
    (if startsNumeral cs then (Numeral.real? cs).filter Float.isFinite |>.map real else none)

theorem ofInt?_toInt (n : Int64) : ofInt? n.toInt = some (int n) := by
  simp only [ofInt?, Int64.ofInt_toInt]
  exact if_pos ⟨n.minValue_le_toInt, n.toInt_le⟩

theorem ofInt?_eq_none_iff {n : Int} : ofInt? n = none ↔
    n < Int64.minValue.toInt ∨ Int64.maxValue.toInt < n := by
  rw [ofInt?, ite_eq_right_iff, ← Int.not_le, ← Int.not_le, ← Decidable.not_and_iff_not_or_not]
  simp

end Number

end Lisplet
