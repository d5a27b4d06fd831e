import Lisplet.Value

/-! Writing nested values. A style says which values open a group, what stands in front of a group
and between its members, and how every other value is written; a group ends with a closing
parenthesis. The groups around the one being written are on a stack, so the depth of a value costs
no recursion. -/
namespace Lisplet.Value

structure Style where
  /-- The text that opens a group, and its members; nothing for a value that is no group. -/
  group? : Value → Option (String × List Value)
  separator : String
  leaf : Value → String
  group_lt : ∀ v opening members, group? v = some (opening, members) → sizeOf members < sizeOf v

namespace Style

/-- Writes the remaining members of a group, then what remains of the groups around it, innermost
first. `first` says that the group has just been opened. -/
def write (style : Style) (rest : List Value) (first : Bool) (around : List (List Value))
    (out : String) : String :=
  match rest, around with
  | [], [] => out ++ ")"
  | [], outer :: around => style.write outer false around (out ++ ")")
  | v :: rest, around =>
    let out := if first then out else out ++ style.separator
    match _h : style.group? v with
    | some (opening, members) => style.write members true (rest :: around) (out ++ opening)
    | none => style.write rest false around (out ++ style.leaf v)
termination_by sizeOf rest + sizeOf around
decreasing_by
  · simp only [List.nil.sizeOf_spec, List.cons.sizeOf_spec]; omega
  · have := style.group_lt v opening members _h
    simp only [List.cons.sizeOf_spec]; omega
  · simp only [List.cons.sizeOf_spec]; omega

def text (style : Style) (v : Value) : String :=
  match style.group? v with
  | some (opening, members) => style.write members true [] opening
  | none => style.leaf v

end Style

end Lisplet.Value
