import Lisplet.Value.Convert
import Lisplet.Value.Equality
import Lisplet.World

/-! What built-in procedures do. An operation that calls a procedure is given the way to call it.
Arguments are converted from left to right before anything else happens. -/
namespace Lisplet

abbrev Applier := Value → List Value → Run Value

namespace Run

def arithmetic (result : Except ArithmeticFault Number) : Run Value :=
  match result with
  | .ok n => pure (.number n)
  | .error fault => fail (.ofArithmetic fault)

/-- Shows a prompt and reads one line, which has to be an expression. The end of input is an empty
line. -/
def readExpression (prompt : String) : Run Value := do
  print prompt
  match ← readLine? with
  | some (.text line) => parsed (Value.parse {} line)
  | some .garbled => fail (.eval (.readLine .notText))
  | none => parsed (Value.parse {} "")

end Run

open Run

/-- A time that can be waited for: not negative, not beyond sixty-four bits of seconds. -/
def isDuration (seconds : Float) : Bool :=
  !(seconds < 0.0) && seconds < 18446744073709551616.0

def Comparison.run (c : Comparison) : Value → Value → Run Value
  | .number a, .number b => pure (.bool (c.holds (a.compare? b)))
  | .string a, .string b => pure (.bool (c.holds (some (compare a b))))
  | x, y => fail (.type (.comparison c x.kind y.kind))

namespace Unary

def run : Unary → Value → Run Value
  | not, x => pure (.bool !x.isTruthy)
  | increment, x => do arithmetic ((← ofExcept x.toNumber).add (.int 1))
  | double, x => do arithmetic ((← ofExcept x.toNumber).mul (.int 2))
  | head, x => return (← ofExcept x.toItems).headD (.string "err-empty-list")
  | tail, x => return .list (← ofExcept x.toItems).tail
  | isList, x => pure (.bool (x.kind == .list))
  | isAtom, x => pure (.bool (x.kind == .number || x.kind == .string || x.kind == .symbol))
  | help, .closure c => pure (c.help.getD (.bool false))
  | help, _ => pure (.bool false)
  | sleep, x => do
    let seconds ← ofExcept x.toReal
    if isDuration seconds then pure .nil else fail (.eval (.sleep seconds))
  | read, x => do readExpression (← ofExcept x.toText)
  | readFile, x => do
    let path ← ofExcept x.toText
    match ← Run.readFile path with
    | .ok text => pure (.string text)
    | .error fault => fail (.eval (.readFile path fault))

end Unary

namespace Binary

def sum : Value → Value → Run Value
  | .number a, .number b => arithmetic (a.add b)
  | .string a, .string b => pure (.string (a ++ b))
  | .list xs, .list ys => pure (.list (xs ++ ys))
  | x, y => fail (.type (.addition x.kind y.kind))

def onNumbers (operation : Number → Number → Except ArithmeticFault Number) (x y : Value) :
    Run Value := do
  let a ← ofExcept x.toNumber
  let b ← ofExcept y.toNumber
  arithmetic (operation a b)

def composed (f g : Value) : Run Value :=
  if f.arity?.isNone then fail (.type (.compose f.kind))
  else if g.arity?.isNone then fail (.type (.compose g.kind))
  else pure (.builtin (.composed f g))

def run (apply : Applier) : Binary → Value → Value → Run Value
  | and, x, y => pure (if x.isTruthy then y else x)
  | or, x, y => pure (if x.isTruthy then x else y)
  | implies, x, y => pure (if x.isTruthy then y else .bool true)
  | equal, x, y => pure (.bool (x.same y))
  | unequal, x, y => pure (.bool !x.same y)
  | compare c, x, y => c.run x y
  | add, x, y => sum x y
  | sub, x, y => onNumbers Number.sub x y
  | mul, x, y => onNumbers Number.mul x y
  | div, x, y => onNumbers Number.div x y
  | mod, x, y => onNumbers Number.mod x y
  | cons, x, y => return .list (x :: (← ofExcept y.toItems))
  | append, x, y => return .list ((← ofExcept y.toItems) ++ [x])
  | compose, f, g => composed f g
  | readWithMacro, x, expander => do
    let expression ← readExpression (← ofExcept x.toText)
    apply expander [expression]
  | writeFile, x, y => do
    let path ← ofExcept x.toText
    let text ← ofExcept y.toText
    match ← Run.writeFile path text with
    | .ok () => pure (.int (Int64.ofNat text.utf8ByteSize))
    | .error fault => fail (.eval (.writeFile path fault))

end Binary

def Reply.run (apply : Applier) : Reply → Run Value
  | .finish result => ofExcept result
  | .call f args resume => do
    let result ← attempt (apply f args)
    (resume result).run apply

namespace BuiltinOf

/-- Runs a builtin on as many arguments as it takes. The host keeps an operation for every slot in
use; a slot it does not know behaves like an operation without a result. -/
def run (apply : Applier) (b : Builtin) (args : List Value) : Run Value :=
  match b, args with
  | unary op, [x] => op.run x
  | binary op, [x, y] => op.run apply x y
  | composed f g, [x] => do
    let y ← apply g [x]
    apply f [y]
  | host name arity slot, args => do
    if args.length = arity then
      match ← hostOperation? slot with
      | some operation => (operation args).run apply
      | none => pure .unspecified
    else fail (.arity arity args.length (some name))
  | b, args => fail (.arity b.arity args.length (some b.name))

end BuiltinOf

end Lisplet
