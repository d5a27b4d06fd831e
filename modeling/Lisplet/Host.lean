import Lisplet.Builtin

/-! Functions of the host as procedures. The type of a function says how many arguments it takes and
of what kinds; arguments are converted from left to right, and the first that is of the wrong kind
is the error. -/
namespace Lisplet

class Argument (α : Type) where
  ofValue : Value → Except Error α

instance : Argument Value := ⟨.ok⟩
instance : Argument Number := ⟨Value.toNumber⟩
instance : Argument Float := ⟨Value.toReal⟩
instance : Argument String := ⟨Value.toText⟩
instance : Argument (List Value) := ⟨Value.toItems⟩

class Answer (α : Type) where
  toValue : α → Value

instance : Answer Value := ⟨id⟩
instance : Answer Number := ⟨.number⟩
instance : Answer Int64 := ⟨.int⟩
instance : Answer Float := ⟨.real⟩
instance : Answer String := ⟨.string⟩
instance : Answer Bool := ⟨.bool⟩
instance : Answer (List Value) := ⟨.list⟩

class HostFunction (φ : Type) where
  arity : Nat
  run : φ → (args : List Value) → args.length = arity → Reply

instance {α : Type} [Answer α] : HostFunction (Except Error α) where
  arity := 0
  run result _ _ := .finish (result.map Answer.toValue)

instance : HostFunction Reply where
  arity := 0
  run reply _ _ := reply

instance {α φ : Type} [Argument α] [HostFunction φ] : HostFunction (α → φ) where
  arity := HostFunction.arity φ + 1
  run
    | f, x :: rest, h =>
      match Argument.ofValue x with
      | .ok a => HostFunction.run (f a) rest (by simpa using h)
      | .error e => .finish (.error e)

def HostOperation.ofFunction {φ : Type} [HostFunction φ] (f : φ) : HostOperation := fun args =>
  if h : args.length = HostFunction.arity φ then HostFunction.run f args h
  else .finish (.error (.arity (HostFunction.arity φ) args.length none))

end Lisplet
