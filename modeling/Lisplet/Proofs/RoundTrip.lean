import Lisplet.Proofs.Grammar
import Lisplet.Proofs.Printer
import Lisplet.Proofs.RealText

/-! Reading the text of a value that was read gives that value back. -/
namespace Lisplet

theorem Dialect.isAtomChar_of_isNumeralChar (dialect : Dialect) {c : Char}
    (h : Numeral.IsNumeralChar c) : dialect.isAtomChar c = true := by
  obtain hdigit | rfl | rfl | rfl := h
  · have hbounds : 48 ≤ c.toNat ∧ c.toNat ≤ 57 := by
      simp only [Char.isDigit, Bool.and_eq_true, decide_eq_true_eq] at hdigit
      exact hdigit
    have hne (d : Char) (hd : d.toNat < 48 ∨ 57 < d.toNat) : c ≠ d := by
      rintro rfl
      omega
    have hblank : Text.isBlank c = false := by
      simp [Text.isBlank]
      omega
    simp [isAtomChar, hblank, hne '(' (by decide), hne ')' (by decide), hne '\'' (by decide),
      hne '"' (by decide), hne ';' (by decide)]
  all_goals simp [isAtomChar, Text.isBlank]

namespace Number
open Numeral

theorem ofAtom?_text_int (n : Int64) : ofAtom? (int n).text.toList = some (int n) := by
  have hread : integer? (toString n.toInt).toList = some n.toInt := integer?_repr n.toInt
  simp only [ofAtom?, text, hread, Option.bind_some, ofInt?_toInt]
  rfl

theorem ofAtom?_text_real {r : Float} (h : r.isFinite = true) :
    ofAtom? (real r).text.toList = some (real r) := by
  have hr := RealStyle.real?_source_text h
  obtain ⟨body, htext, ⟨hbody⟩⟩ := RealStyle.source_text h
  have hinteger := hbody.integer?_signed (Magnitude.ofFloat r).1
  obtain ⟨c, cs, heq, hc⟩ := hbody.starts_with_digit
  have hstart : startsNumeral (RealStyle.source.text r).toList = true := by
    rw [htext, heq]
    cases (Magnitude.ofFloat r).1 <;> simp [startsNumeral, hc]
  rw [← htext] at hinteger
  simp [ofAtom?, text, hinteger, hstart, hr, h]

theorem ofAtom?_text {n : Number} (h : n.IsFinite) : ofAtom? n.text.toList = some n := by
  cases n with
  | int n => exact ofAtom?_text_int n
  | real r => exact ofAtom?_text_real h

theorem isNumeralChar_text {n : Number} (h : n.IsFinite) :
    n.text.toList ≠ [] ∧ ∀ c ∈ n.text.toList, IsNumeralChar c := by
  cases n with
  | int n =>
    have htext : (int n).text.toList = n.toInt.repr.toList := rfl
    rw [htext, toList_repr]
    split
    · exact ⟨Nat.toDigits_ne_nil, fun c hc => .inl (isDigit_of_mem_toDigits hc)⟩
    · refine ⟨by simp, fun c hc => ?_⟩
      obtain rfl | hc := List.mem_cons.1 hc
      · exact .inr (.inl rfl)
      · exact .inl (isDigit_of_mem_toDigits hc)
  | real r =>
    obtain ⟨body, htext, ⟨hbody⟩⟩ := RealStyle.source_text h
    have htext : (real r).text.toList = _ := htext
    obtain ⟨d, ds, heq, hd⟩ := hbody.starts_with_digit
    rw [htext]
    refine ⟨by simp [heq], fun c hc => ?_⟩
    obtain hc | hc := List.mem_append.1 hc
    · have hminus : c = '-' := by
        cases hsign : (Magnitude.ofFloat r).1 <;> simp_all
      exact .inr (.inl hminus)
    · exact hbody.isNumeralChar c hc

theorem isAtom_text (dialect : Dialect) {n : Number} (h : n.IsFinite) :
    dialect.IsAtom n.text.toList := by
  obtain ⟨hne, hall⟩ := isNumeralChar_text h
  exact ⟨hne, fun c hc => dialect.isAtomChar_of_isNumeralChar (hall c hc)⟩

end Number

namespace Value

mutual

def lexemes : Value → List Lexeme
  | list [symbol "string", string text] => [.string text]
  | list items => .opening :: (lexemesOf items ++ [.closing])
  | v => [.atom v.atomText]

def lexemesOf : List Value → List Lexeme
  | [] => []
  | v :: rest => v.lexemes ++ lexemesOf rest

end

theorem lexemes_literal (text : String) : (literal text).lexemes = [.string text] := by
  simp [literal, lexemes]

theorem lexemes_list {items : List Value} (h : ∀ text, list items ≠ literal text) :
    (list items).lexemes = .opening :: (lexemesOf items ++ [.closing]) := by
  rw [lexemes]
  intro text heq
  exact h text (by rw [heq, literal])

end Value

theorem Readable.list_ne_literal {dialect : Dialect} {room : Nat} {items : List Value}
    (h : ∀ v ∈ items, Readable dialect room v) (text : String) :
    .list items ≠ Value.literal text := by
  intro heq
  cases heq
  exact (h (.string text) (by simp)).ne_string text rfl

namespace Token
open Value
variable {dialect : Dialect} {room : Nat} {v : Value} {rest : List Char} {lexemes : List Lexeme}

theorem endsAtom_writtenItems (items : List Value) (hrest : dialect.EndsAtom rest) :
    dialect.EndsAtom ((writtenItems false items).toList ++ rest) := by
  cases items with
  | nil => simpa [writtenItems] using hrest
  | cons v items =>
    intro c hc
    simp only [writtenItems, Bool.false_eq_true, if_false, String.toList_append,
      List.append_assoc] at hc
    cases hc
    rfl

theorem spells_writtenItems {items : List Value} (first : Bool)
    (hitems : ∀ v ∈ items, ∀ rest lexemes, dialect.EndsAtom rest → Spells dialect rest lexemes →
      Spells dialect (v.written.toList ++ rest) (v.lexemes ++ lexemes))
    (hrest : dialect.EndsAtom rest) (h : Spells dialect rest lexemes) :
    Spells dialect ((writtenItems first items).toList ++ rest) (lexemesOf items ++ lexemes) := by
  induction items generalizing first with
  | nil => simpa [writtenItems, lexemesOf] using h
  | cons v items ih =>
    have htail := ih false (fun w hw => hitems w (.tail _ hw))
    have hv := hitems v (.head _) _ _ (endsAtom_writtenItems items hrest) htail
    cases first with
    | true => simpa [writtenItems, lexemesOf, List.append_assoc] using hv
    | false => simpa [writtenItems, lexemesOf, List.append_assoc] using spells_space hv

theorem spells_written (hv : Readable dialect room v) (hrest : dialect.EndsAtom rest)
    (h : Spells dialect rest lexemes) :
    Spells dialect (v.written.toList ++ rest) (v.lexemes ++ lexemes) := by
  induction hv generalizing rest lexemes with
  | @number room n hfinite =>
    have hvalid : (Lexeme.atom n.text).Valid dialect := Number.isAtom_text dialect hfinite
    exact spells_lexeme hvalid hrest h
  | @symbol room name hatom hnumber =>
    have hvalid : (Lexeme.atom name).Valid dialect := hatom
    exact spells_lexeme hvalid hrest h
  | @literal room text htext =>
    have hvalid : (Lexeme.string text).Valid dialect := htext
    rw [written_literal, lexemes_literal]
    exact spells_lexeme hvalid trivial h
  | @list room items hitems ih =>
    have hne := Readable.list_ne_literal hitems
    have hclosing : Spells dialect (')' :: rest) (.closing :: lexemes) :=
      @spells_lexeme dialect rest .closing lexemes trivial trivial h
    have hend : dialect.EndsAtom (')' :: rest) := by
      rintro c ⟨⟩
      rfl
    have hall := spells_writtenItems true (fun w hw rest lexemes => ih w hw) hend hclosing
    have hopening := @spells_lexeme dialect _ .opening _ trivial trivial hall
    rw [written_list hne, lexemes_list hne]
    simpa [Lexeme.source, List.append_assoc] using hopening

end Token

namespace Readable
open Expression
variable {dialect : Dialect} {room : Nat} {v : Value}

theorem exists_items {items : List Value} {Q : Expression → Prop}
    (hitems : ∀ v ∈ items, ∃ e : Expression, e.lexemes = v.lexemes ∧ e.value = v ∧ Q e) :
    ∃ es : List Expression, es.flatMap lexemes = Value.lexemesOf items ∧ es.map value = items ∧
      ∀ e ∈ es, Q e := by
  induction items with
  | nil => exact ⟨[], rfl, rfl, List.forall_mem_nil _⟩
  | cons v items ih =>
    obtain ⟨e, hlexemes, hvalue, he⟩ := hitems v (.head _)
    obtain ⟨es, hlexemes', hvalues, hes⟩ := ih fun w hw => hitems w (.tail _ hw)
    refine ⟨e :: es, ?_, ?_, List.forall_mem_cons.2 ⟨he, hes⟩⟩
    · rw [List.flatMap_cons, hlexemes, hlexemes', Value.lexemesOf]
    · rw [List.map_cons, hvalue, hvalues]

theorem exists_expression (hv : Readable dialect room v) :
    ∃ e : Expression, e.lexemes = v.lexemes ∧ e.value = v ∧
      ∀ around, around + room ≤ maxReadDepth → e.Fits around := by
  induction hv with
  | @number room n hfinite =>
    refine ⟨.atom n.text, by simp [Value.lexemes, Value.atomText], ?_, fun around h => ?_⟩
    · simp [Value.ofAtom, Number.ofAtom?_text hfinite]
    · exact fits_atom (by omega)
  | @symbol room name hatom hnumber =>
    refine ⟨.atom name, by simp [Value.lexemes, Value.atomText], ?_, fun around h => ?_⟩
    · simp [Value.ofAtom, hnumber]
    · exact fits_atom (by omega)
  | @literal room text htext =>
    refine ⟨.string text, by simp [Value.lexemes_literal], by simp, fun around h => ?_⟩
    exact fits_string (by omega)
  | @list room items hitems ih =>
    obtain ⟨es, hlexemes, hvalues, hfits⟩ := exists_items ih
    refine ⟨.list es, ?_, by rw [value_list, hvalues], fun around h => ?_⟩
    · rw [lexemes_list, hlexemes, Value.lexemes_list (list_ne_literal hitems)]
    · exact fits_list_iff.2 ⟨by omega, fun e he => hfits e he (around + 1) (by omega)⟩

end Readable

theorem Reader.readFrom_lexemes {dialect : Dialect} {room : Nat} {v : Value}
    {tokens rest : List Token} {around : List Open} (hv : Readable dialect room v)
    (hroom : around.length + room ≤ maxReadDepth) (htokens : tokens.map Token.lexeme = v.lexemes) :
    readFrom (tokens ++ rest) around = resume v around rest := by
  obtain ⟨e, hlexemes, rfl, hfits⟩ := hv.exists_expression
  exact readFrom_expression (hfits _ hroom) (htokens.trans hlexemes.symm)

/-- A value that was read from a text is read from its own text. -/
theorem Value.parse_text {dialect : Dialect} {source : String} {v : Value}
    (h : Value.parse dialect source = .ok v) : Value.parse dialect v.text = .ok v := by
  have hv := Value.readable_of_parse h
  have hspells : Token.Spells dialect v.text.toList v.lexemes := by
    have hend : dialect.EndsAtom [] := by rintro c ⟨⟩
    have h := Token.spells_written hv hend Token.spells_nil
    rw [List.append_nil, List.append_nil] at h
    rwa [Value.text_eq_written]
  obtain ⟨tokens, hmap, htokens⟩ := Token.ofSource_of_spells hspells
  have hread : Reader.readFrom (tokens ++ []) [] = Reader.resume v [] [] :=
    Reader.readFrom_lexemes hv (by simp) hmap
  rw [List.append_nil] at hread
  exact Value.parse_eq_ok_iff.2 ⟨tokens, htokens, hread⟩

theorem Value.parse_text_mixed : ∃ v,
    Value.parse {} "(1e3 '+7 \"a\\\"b\")" = .ok v ∧ Value.parse {} v.text = .ok v := by
  have htokens : Token.ofSource {} "(1e3 '+7 \"a\\\"b\")" =
      .ok [⟨.opening, 0⟩, ⟨.atom "1e3", 1⟩, ⟨.quoteMark, 5⟩, ⟨.atom "+7", 6⟩,
        ⟨.string "a\\\"b", 9⟩, ⟨.closing, 15⟩] := by
    cbv
  have hparse : Value.parse {} "(1e3 '+7 \"a\\\"b\")" =
      .ok (.list [.real 1000.0, (Value.int 7).quoted, .literal "a\\\"b"]) :=
    Value.parse_eq_ok_iff.2 ⟨_, htokens, rfl⟩
  exact ⟨_, hparse, Value.parse_text hparse⟩

end Lisplet
