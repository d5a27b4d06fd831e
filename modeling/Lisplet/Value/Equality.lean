import Lisplet.Value

/-! Equality of values, decided pair by pair with the lists still to be compared on a list of
pending pairs, so the depth of a value costs no recursion. Closures are equal when they are the
same closure and builtins when they have the same name. Nothing equals the unspecified value. -/
namespace Lisplet.Value

def sameAtom : Value → Value → Bool
  | number a, number b => a.same b
  | symbol a, symbol b => a == b
  | string a, string b => a == b
  | bool a, bool b => a == b
  | closure a, closure b => a.id == b.id
  | builtin a, builtin b => a.name == b.name
  | _, _ => false

/-- Whether two lists are equal element by element, and each of the pending pairs as well. -/
def sameAll (xs ys : List Value) (pending : List (List Value × List Value)) : Bool :=
  match xs, ys, pending with
  | [], [], [] => true
  | [], [], (xs, ys) :: pending => sameAll xs ys pending
  | list a :: xs, list b :: ys, pending => sameAll xs ys ((a, b) :: pending)
  | x :: xs, y :: ys, pending => sameAtom x y && sameAll xs ys pending
  | _, _, _ => false
termination_by sizeOf xs + sizeOf ys + sizeOf pending
decreasing_by all_goals simp; omega

def same (x y : Value) : Bool := sameAll [x] [y] []

end Lisplet.Value
