/-! The piece of source text shown with an error: up to a hundred characters, beginning twenty
before the place of the error, on one line. -/
namespace Lisplet.Text

/-- The number of characters in front of a byte offset that lies between two characters, on top of
those already `passed`. -/
def charsBefore? : List Char → Nat → Nat → Option Nat
  | _, 0, passed => some passed
  | [], _ + 1, _ => none
  | c :: cs, offset + 1, passed =>
    if c.utf8Size ≤ offset + 1 then charsBefore? cs (offset + 1 - c.utf8Size) (passed + 1)
    else none

def cutMark : List Char := "[...]".toList

/-- A line end is written as an escape and a carriage return not at all. -/
def onOneLine (cs : List Char) : List Char :=
  cs.flatMap fun c => if c == '\n' then ['\\', 'n'] else if c == '\r' then [] else [c]

/-- An offset that is not between two characters counts as the beginning. -/
def excerpt (source : String) (offset : Nat) : String :=
  let cs := source.toList
  let start := (charsBefore? cs offset 0).getD 0 - 20
  let shown := (cs.drop start).take 100
  String.ofList <| onOneLine <|
    (if 0 < start then cutMark else []) ++ shown ++
      (if start + shown.length < cs.length then cutMark else [])

@[simp] theorem charsBefore?_zero (cs : List Char) (passed : Nat) :
    charsBefore? cs 0 passed = some passed := by
  cases cs <;> rfl

end Lisplet.Text
