import Lisplet.Value.Printer

/-! The printer with its stack of open lists writes the text that recursion over the value gives,
and no other way to write values has the shape of this recursion. -/
namespace Lisplet.Value

mutual

def written : Value → String
  | list [symbol "string", string text] => "\"" ++ text ++ "\""
  | list items => "(" ++ writtenItems true items ++ ")"
  | v => v.atomText

/-- The texts of items with a space in front of each; the one that opens a list has none. -/
def writtenItems (first : Bool) : List Value → String
  | [] => ""
  | v :: rest => (if first then "" else " ") ++ v.written ++ writtenItems false rest

end

def writtenAround : List (List Value) → String
  | [] => ""
  | rest :: around => writtenItems false rest ++ ")" ++ writtenAround around

theorem written_literal (text : String) : (literal text).written = "\"" ++ text ++ "\"" := by
  simp [literal, written]

theorem written_list {items : List Value} (h : ∀ text, list items ≠ literal text) :
    (list items).written = "(" ++ writtenItems true items ++ ")" := by
  rw [written]
  intro text heq
  exact h text (by rw [heq, literal])

theorem written_of_elements?_eq_none {v : Value} (h : v.elements? = none) :
    v.written = v.leafText := by
  unfold elements? at h
  split at h
  · rw [written, leafText, atomText]
  · cases h
  · next hlist => cases v <;> first | rfl | exact absurd rfl (hlist _)

theorem written_of_elements?_eq_some {v : Value} {opening : String} {items : List Value}
    (h : v.elements? = some (opening, items)) :
    v.written = opening ++ writtenItems true items ++ ")" := by
  unfold elements? at h
  split at h
  · cases h
  · next items' hliteral =>
    cases h
    refine written_list fun text heq => ?_
    exact hliteral text (list.inj heq)
  · cases h

/-- Invariant of the loop: the text so far, then what is left of every open list. -/
theorem write_plain (rest : List Value) (first : Bool) (around : List (List Value)) (out : String) :
    plain.write rest first around out =
      out ++ (writtenItems first rest ++ ")" ++ writtenAround around) := by
  fun_induction Style.write plain rest first around out with
  | case1 => simp [writtenItems, writtenAround]
  | case2 first out outer around ih =>
    rw [ih]
    simp [writtenItems, writtenAround, String.append_assoc]
  | case3 first out v rest around sep opening members h ih =>
    rw [ih, writtenItems, written_of_elements?_eq_some h, writtenAround]
    cases first <;> simp [sep, plain, String.append_assoc]
  | case4 first out v rest around sep h ih =>
    rw [ih, writtenItems, written_of_elements?_eq_none h]
    cases first <;> simp [sep, plain, String.append_assoc]

theorem text_eq_written (v : Value) : v.text = v.written := by
  unfold text Style.text
  split
  · next opening items h =>
    rw [write_plain, written_of_elements?_eq_some h, writtenAround]
    simp [String.append_assoc]
  · next h => exact (written_of_elements?_eq_none h).symm

theorem writtenItems_false_cons (v : Value) (rest : List Value) :
    writtenItems false (v :: rest) = " " ++ writtenItems true (v :: rest) := by
  simp [writtenItems, String.append_assoc]

theorem writtenItems_eq_intercalate (items : List Value) :
    writtenItems true items = " ".intercalate (items.map written) := by
  induction items with
  | nil => rfl
  | cons v rest ih =>
    cases rest with
    | nil => simp [writtenItems]
    | cons u rest =>
      rw [List.map_cons] at ih
      rw [List.map_cons, List.map_cons, String.intercalate_cons_cons, ← ih, writtenItems,
        writtenItems_false_cons]
      simp [String.append_assoc]

/-- The function writes a value by recursion: a string literal as its string between quotes, any
other list as the texts of its elements, with single spaces between them, in parentheses, and what
is no list as an atom. -/
structure ByRecursion (text : Value → String) : Prop where
  literal : ∀ s, text (list [symbol "string", string s]) = "\"" ++ s ++ "\""
  elements : ∀ items, (∀ s, items ≠ [symbol "string", string s]) →
    text (list items) = "(" ++ " ".intercalate (items.map text) ++ ")"
  atom : ∀ v, (∀ items, v ≠ list items) → text v = v.atomText

theorem byRecursion_written : ByRecursion written where
  literal := written_literal
  elements items h := by
    rw [written_list fun s heq => h s (list.inj heq), writtenItems_eq_intercalate]
  atom v h := by
    cases v with
    | list items => exact absurd rfl (h items)
    | _ => rfl

theorem ByRecursion.eq_written {text : Value → String} (h : ByRecursion text) (v : Value) :
    text v = v.written := by
  by_cases hlist : ∃ items, v = list items
  · obtain ⟨items, rfl⟩ := hlist
    have hitems : items.map text = items.map written :=
      List.map_congr_left fun v hv => h.eq_written v
    by_cases hliteral : ∃ s, items = [symbol "string", string s]
    · obtain ⟨s, rfl⟩ := hliteral
      rw [h.literal, byRecursion_written.literal]
    · have hplain := not_exists.1 hliteral
      rw [h.elements items hplain, byRecursion_written.elements items hplain, hitems]
  · have hatom := not_exists.1 hlist
    rw [h.atom v hatom, byRecursion_written.atom v hatom]
termination_by sizeOf v

/-- The text that the printer with its stack of open lists writes for every value is the one that
recursion over the value gives. -/
theorem byRecursion_iff {text : Value → String} : ByRecursion text ↔ text = Value.text := by
  constructor
  · intro h
    funext v
    rw [text_eq_written, h.eq_written]
  · rintro rfl
    have hsame : Value.text = written := funext text_eq_written
    exact hsame ▸ byRecursion_written

end Lisplet.Value
