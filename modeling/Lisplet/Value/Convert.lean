import Lisplet.Error

/-! Values taken as data of one kind, and data as values. -/
namespace Lisplet.Value

private def expected {α : Type} (wanted : Kind) (v : Value) : Except Error α :=
  .error (.type (.expected wanted v.kind))

def toNumber : Value → Except Error Number
  | number n => .ok n
  | v => expected .number v

def toReal (v : Value) : Except Error Float := v.toNumber.map Number.toReal

def toText : Value → Except Error String
  | string text => .ok text
  | v => expected .string v

def toItems : Value → Except Error (List Value)
  | list items => .ok items
  | v => expected .list v

end Lisplet.Value
