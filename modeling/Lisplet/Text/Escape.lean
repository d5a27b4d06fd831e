import Lisplet.Text.Unprintable

/-! Text shown for inspection: between double quotes, with a backslash in front of a quote or a
backslash and an escape for every character that could not be seen. -/
namespace Lisplet.Text

def escape : Char → List Char
  | '\x00' => ['\\', '0']
  | '\t' => ['\\', 't']
  | '\r' => ['\\', 'r']
  | '\n' => ['\\', 'n']
  | '\\' => ['\\', '\\']
  | '"' => ['\\', '"']
  | c =>
    if isUnprintable c then
      ['\\', 'u', '\x7b'] ++ Nat.toDigits 16 c.toNat ++ ['\x7d']
    else [c]

def inspected (text : String) : String :=
  "\"" ++ String.ofList (text.toList.flatMap escape) ++ "\""

def inspectedList (texts : List String) : String :=
  "[" ++ ", ".intercalate (texts.map inspected) ++ "]"

end Lisplet.Text
