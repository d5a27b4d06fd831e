import Lisplet.Number
import Lisplet.Procedure

/-! Values. What the reader makes of source text (numbers, symbols and lists) is itself a value, so
quoted code is data and data can be evaluated. -/
namespace Lisplet

inductive Value where
  | number (n : Number)
  | symbol (name : String)
  | string (text : String)
  | bool (b : Bool)
  | list (items : List Value)
  | closure (c : ClosureOf Value)
  | builtin (b : BuiltinOf Value)
  /-- What a `cond` yields whose last test holds only when it is tried again. -/
  | unspecified

abbrev Closure := ClosureOf Value
abbrev Builtin := BuiltinOf Value

inductive Kind where
  | number
  | symbol
  | string
  | boolean
  | list
  | closure
  | builtin
  | unspecified
deriving DecidableEq, Repr

def Kind.name : Kind → String
  | number => "number"
  | symbol => "symbol"
  | string => "string"
  | boolean => "boolean"
  | list => "list"
  | closure => "closure"
  | builtin => "builtin"
  | unspecified => "unspecified"

namespace Value

instance : Inhabited Value := ⟨list []⟩

abbrev nil : Value := list []

def int (n : Int64) : Value := number (.int n)

def real (r : Float) : Value := number (.real r)

def quoted (v : Value) : Value := list [symbol "quote", v]

def literal (text : String) : Value := list [symbol "string", string text]

def kind : Value → Kind
  | number _ => .number
  | symbol _ => .symbol
  | string _ => .string
  | bool _ => .boolean
  | list _ => .list
  | closure _ => .closure
  | builtin _ => .builtin
  | unspecified => .unspecified

/-- Zero, empty text, the empty list and the unspecified value are false. -/
def isTruthy : Value → Bool
  | bool b => b
  | number n => !n.isZero
  | string text => !text.isEmpty
  | list items => !items.isEmpty
  | unspecified => false
  | symbol _ | closure _ | builtin _ => true

def arity? : Value → Option Nat
  | closure c => some c.arity
  | builtin b => some b.arity
  | _ => none

end Value

end Lisplet
