import Lisplet.Host

/-! Registries: the names a global frame starts with and what they stand for, together with the
operations of the host. Building one only ever adds; a later entry of a name replaces an earlier. -/
namespace Lisplet

structure Registry where
  entries : Bindings
  operations : Array HostOperation

namespace Registry

def empty : Registry := ⟨∅, #[]⟩

def constant (registry : Registry) (name : String) (v : Value) : Registry :=
  { registry with entries := registry.entries.insert name v }

def raw (registry : Registry) (name : String) (arity : Nat) (operation : HostOperation) :
    Registry :=
  { entries := registry.entries.insert name (.builtin (.host name arity registry.operations.size))
    operations := registry.operations.push operation }

/-- Adds a typed function; it takes as many arguments as its type says. -/
def operation {φ : Type} [HostFunction φ] (registry : Registry) (name : String) (f : φ) :
    Registry :=
  registry.raw name (HostFunction.arity φ) (HostOperation.ofFunction f)

def get? (registry : Registry) (name : String) : Option Value := registry.entries[name]?

def toList (registry : Registry) : List (String × Value) := registry.entries.toList

def standard (workingDirectory : String) : Registry :=
  let constants := ((empty.constant "t" (.bool true)).constant "nil" (.bool false)).constant "pwd"
    (.string workingDirectory)
  let unaries := Unary.all.foldl (fun r op => r.constant op.name (.builtin (.unary op))) constants
  Binary.all.foldl (fun r op => r.constant op.name (.builtin (.binary op))) unaries

theorem get?_constant (registry : Registry) (name key : String) (v : Value) :
    (registry.constant name v).get? key = if name = key then some v else registry.get? key := by
  simp [get?, constant, Std.TreeMap.getElem?_insert]

end Registry

end Lisplet
