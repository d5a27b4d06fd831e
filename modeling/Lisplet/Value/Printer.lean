import Lisplet.Value.Layout

/-! The text of a value. Reading the text of an expression gives the expression back. The
characters of a string stand as they are: an escape was kept when the string was read. -/
namespace Lisplet.Value

def atomText : Value → String
  | number n => n.text
  | symbol name => name
  | string text => "\"" ++ text ++ "\""
  | bool b => if b then "t" else "nil"
  | list _ => "(...)"
  | closure c => "#<lambda (" ++ " ".intercalate c.params ++ ")>"
  | builtin b => "#<builtin:" ++ b.name ++ ">"
  | unspecified => "#<unspecified>"

/-- The elements of a list. The list that stands for a string literal is not written as one. -/
def elements? : Value → Option (String × List Value)
  | list [symbol "string", string _] => none
  | list items => some ("(", items)
  | _ => none

def leafText : Value → String
  | list [symbol "string", string text] => (string text).atomText
  | v => v.atomText

theorem sizeOf_lt_of_elements? (v : Value) (opening : String) (items : List Value)
    (h : v.elements? = some (opening, items)) : sizeOf items < sizeOf v := by
  unfold elements? at h
  split at h <;> simp_all

def plain : Style := ⟨elements?, " ", leafText, sizeOf_lt_of_elements?⟩

def text (v : Value) : String := plain.text v

instance : ToString Value := ⟨text⟩

end Lisplet.Value
