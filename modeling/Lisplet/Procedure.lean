/-! Procedures: the operations every registry can offer, closures and built-in procedures over
whatever values are, and the names under which the operations go. -/
namespace Lisplet

inductive Comparison where
  | less
  | lessEqual
  | greater
  | greaterEqual
deriving DecidableEq, Repr

namespace Comparison

def symbol : Comparison → String
  | less => "<"
  | lessEqual => "<="
  | greater => ">"
  | greaterEqual => ">="

/-- Whether the comparison holds of two things in this order; two without an order satisfy none. -/
def holds : Comparison → Option Ordering → Bool
  | less, some .lt => true
  | lessEqual, some .lt | lessEqual, some .eq => true
  | greater, some .gt => true
  | greaterEqual, some .gt | greaterEqual, some .eq => true
  | _, _ => false

end Comparison

inductive Unary where
  | not
  | increment
  | double
  | head
  | tail
  | isList
  | isAtom
  | help
  | sleep
  | read
  | readFile
deriving DecidableEq, Repr

inductive Binary where
  | and
  | or
  | implies
  | equal
  | unequal
  | compare (comparison : Comparison)
  | add
  | sub
  | mul
  | div
  | mod
  | cons
  | append
  | compose
  | readWithMacro
  | writeFile
deriving DecidableEq, Repr

namespace Unary

def name : Unary → String
  | not => "not"
  | increment => "++"
  | double => "*2"
  | head => "head"
  | tail => "tail"
  | isList => "is-list?"
  | isAtom => "atom?"
  | help => "help"
  | sleep => "sleep"
  | read => "read"
  | readFile => "read-file"

def all : List Unary :=
  [not, increment, double, head, tail, isList, isAtom, help, sleep, read, readFile]

end Unary

namespace Binary

def name : Binary → String
  | and => "and"
  | or => "or"
  | implies => "->"
  | equal => "="
  | unequal => "!="
  | compare comparison => comparison.symbol
  | add => "+"
  | sub => "-"
  | mul => "*"
  | div => "/"
  | mod => "mod"
  | cons => "cons"
  | append => "append"
  | compose => "compose"
  | readWithMacro => "read-with-macro"
  | writeFile => "write-file"

def all : List Binary :=
  [and, or, implies, equal, unequal, compare .less, compare .lessEqual, compare .greater,
    compare .greaterEqual, add, sub, mul, div, mod, cons, append, compose, readWithMacro, writeFile]

end Binary

abbrev FrameId := Nat

/-- A procedure made by the program. It is told from every other by its number. -/
structure ClosureOf (α : Type) where
  id : Nat
  params : List String
  body : α
  frame : FrameId
  help : Option α

/-- A procedure supplied from outside the program: an operation, two procedures to be called one
after the other, or an operation of the host, found by its slot. -/
inductive BuiltinOf (α : Type) where
  | unary (op : Unary)
  | binary (op : Binary)
  | composed (outer inner : α)
  | host (name : String) (arity : Nat) (slot : Nat)

def ClosureOf.arity {α : Type} (c : ClosureOf α) : Nat := c.params.length

namespace BuiltinOf
variable {α : Type}

def name : BuiltinOf α → String
  | unary op => op.name
  | binary op => op.name
  | composed _ _ => "composed"
  | host name _ _ => name

def arity : BuiltinOf α → Nat
  | unary _ => 1
  | binary _ => 2
  | composed _ _ => 1
  | host _ arity _ => arity

end BuiltinOf

end Lisplet
