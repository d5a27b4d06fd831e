import Lisplet.Value.Layout
import Lisplet.Text.Escape

/-! The form in which a value is shown for inspection: every part with its kind. -/
namespace Lisplet.Value

def inspectedLeaf : Value → String
  | number (.int n) => "Int(" ++ toString n.toInt ++ ")"
  | number (.real r) => "Real(" ++ RealStyle.source.text r ++ ")"
  | symbol name => "Symbol(" ++ name ++ ")"
  | string text => "String(" ++ Text.inspected text ++ ")"
  | bool b => "Bool(" ++ (if b then "true" else "false") ++ ")"
  | builtin b => "Builtin(" ++ b.name ++ "/" ++ toString b.arity ++ ")"
  | _ => "Unspecified"

def inspectedParts? : Value → Option (String × List Value)
  | list items => some ("List(", items)
  | closure ⟨_, params, body, _, _⟩ =>
    some ("Closure(params=" ++ Text.inspectedList params ++ ", body=", [body])
  | _ => none

theorem sizeOf_lt_of_inspectedParts? (v : Value) (opening : String) (members : List Value)
    (h : v.inspectedParts? = some (opening, members)) : sizeOf members < sizeOf v := by
  unfold inspectedParts? at h
  split at h
  · cases h
    simp only [list.sizeOf_spec]; omega
  · next id params body frame help =>
    cases h
    have : 0 < sizeOf params := by cases params <;> simp only [List.nil.sizeOf_spec,
      List.cons.sizeOf_spec] <;> omega
    simp only [closure.sizeOf_spec, ClosureOf.mk.sizeOf_spec, List.cons.sizeOf_spec,
      List.nil.sizeOf_spec]
    omega
  · cases h

def full : Style := ⟨inspectedParts?, ", ", inspectedLeaf, sizeOf_lt_of_inspectedParts?⟩

def inspected (v : Value) : String := full.text v

end Lisplet.Value
