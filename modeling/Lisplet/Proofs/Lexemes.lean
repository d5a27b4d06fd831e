import Mathlib.Data.List.TakeWhile
import Lisplet.Token

/-! What the tokens of a text are like, and which text gives which tokens. -/
namespace Lisplet

namespace Dialect

def IsAtom (dialect : Dialect) (cs : List Char) : Prop :=
  cs ≠ [] ∧ ∀ c ∈ cs, dialect.isAtomChar c = true

def EndsAtom (dialect : Dialect) (cs : List Char) : Prop :=
  ∀ c ∈ cs.head?, dialect.isAtomChar c = false

theorem ne_of_isAtomChar {dialect : Dialect} {c : Char} (h : dialect.isAtomChar c = true) :
    c ≠ '(' ∧ c ≠ ')' ∧ c ≠ '\'' ∧ c ≠ '"' := by
  refine ⟨?_, ?_, ?_, ?_⟩
  all_goals
    rintro rfl
    simp [isAtomChar] at h

end Dialect

namespace Token

/-- The characters of a string literal: a double quote or a backslash stands in it only with a
backslash before it. -/
inductive Quotable : List Char → Prop where
  | nil : Quotable []
  | plain {c : Char} {cs : List Char} (hquote : c ≠ '"') (hescape : c ≠ '\\') (h : Quotable cs) :
    Quotable (c :: cs)
  | escape {c : Char} {cs : List Char} (h : Quotable cs) : Quotable ('\\' :: c :: cs)

theorem closeString?_eq_some {cs passed text rest : List Char}
    (h : closeString? cs passed = some (text, rest)) :
    ∃ body, Quotable body ∧ text = passed.reverse ++ body ∧ cs = body ++ '"' :: rest := by
  fun_induction closeString? cs passed with
  | case1 => cases h
  | case2 rest' =>
    cases h
    exact ⟨[], .nil, by simp, rfl⟩
  | case3 => cases h
  | case4 c rest' passed ih =>
    obtain ⟨body, hbody, rfl, rfl⟩ := ih h
    exact ⟨'\\' :: c :: body, hbody.escape, by simp, rfl⟩
  | case5 c rest' passed hquote hlone hescape ih =>
    obtain ⟨body, hbody, rfl, rfl⟩ := ih h
    refine ⟨c :: body, hbody.plain hquote ?_, by simp, rfl⟩
    rintro rfl
    cases body with
    | nil => exact hescape '"' rest rfl rfl
    | cons c' body => exact hescape c' _ rfl rfl

theorem closeString?_quotable {body : List Char} (h : Quotable body) (passed rest : List Char) :
    closeString? (body ++ '"' :: rest) passed = some (passed.reverse ++ body, rest) := by
  induction h generalizing passed with
  | nil => simp [closeString?]
  | plain hquote hescape _ ih =>
    rw [List.cons_append, closeString?]
    · simp [ih]
    · exact hquote
    · rintro rfl
      exact absurd rfl hescape
    · rintro c' rest' rfl
      exact absurd rfl hescape
  | escape _ ih =>
    rw [List.cons_append, List.cons_append, closeString?]
    simp [ih]

end Token

namespace Lexeme

def Valid (dialect : Dialect) : Lexeme → Prop
  | .atom text => dialect.IsAtom text.toList
  | .string text => Token.Quotable text.toList
  | _ => True

/-- An atom is as long as it can be. -/
def EndsBefore (dialect : Dialect) (rest : List Char) : Lexeme → Prop
  | .atom _ => dialect.EndsAtom rest
  | _ => True

end Lexeme

namespace Token
variable {dialect : Dialect} {cs rest : List Char} {lexeme : Lexeme}

theorem lexeme?_eq_some (h : lexeme? dialect cs = some (lexeme, rest)) :
    lexeme.Valid dialect ∧ lexeme.EndsBefore dialect rest ∧ cs = lexeme.source.toList ++ rest := by
  unfold lexeme? at h
  split at h
  · cases h
  · cases h; exact ⟨trivial, trivial, rfl⟩
  · cases h; exact ⟨trivial, trivial, rfl⟩
  · cases h; exact ⟨trivial, trivial, rfl⟩
  · simp only [Option.map_eq_some_iff, Prod.exists] at h
    obtain ⟨text, rest', h, heq⟩ := h
    cases heq
    obtain ⟨body, hbody, rfl, rfl⟩ := closeString?_eq_some h
    exact ⟨by simpa [Lexeme.Valid] using hbody, trivial, by simp [Lexeme.source]⟩
  · next c tail _ _ _ _ =>
    split at h
    · next hc =>
      cases h
      refine ⟨⟨by simp, ?_⟩, ?_, ?_⟩
      · intro x hx
        simp only [String.toList_ofList, List.mem_cons] at hx
        obtain rfl | hx := hx
        · exact hc
        · exact List.mem_takeWhile_imp hx
      · intro x hx
        have := List.head?_dropWhile_not dialect.isAtomChar tail
        grind
      · simp [Lexeme.source, List.takeWhile_append_dropWhile]
    · cases h

theorem lexeme?_opening (rest : List Char) :
    lexeme? dialect ('(' :: rest) = some (.opening, rest) := by
  rw [lexeme?.eq_def]
  split <;> grind

theorem lexeme?_closing (rest : List Char) :
    lexeme? dialect (')' :: rest) = some (.closing, rest) := by
  rw [lexeme?.eq_def]
  split <;> grind

theorem lexeme?_quoteMark (rest : List Char) :
    lexeme? dialect ('\'' :: rest) = some (.quoteMark, rest) := by
  rw [lexeme?.eq_def]
  split <;> grind

theorem lexeme?_string {text : List Char} (h : Quotable text) (rest : List Char) :
    lexeme? dialect ('"' :: (text ++ '"' :: rest)) =
      some (.string (String.ofList text), rest) := by
  rw [lexeme?.eq_def]
  split <;> grind [closeString?_quotable]

theorem lexeme?_atom {cs rest : List Char} (h : dialect.IsAtom cs)
    (hend : dialect.EndsAtom rest) :
    lexeme? dialect (cs ++ rest) = some (.atom (String.ofList cs), rest) := by
  obtain ⟨hne, hall⟩ := h
  obtain ⟨c, tail, rfl⟩ := List.exists_cons_of_ne_nil hne
  have hc : dialect.isAtomChar c = true := hall c (by simp)
  have htail : ∀ x ∈ tail, dialect.isAtomChar x = true := fun x hx => hall x (by simp [hx])
  have hstop : rest.takeWhile dialect.isAtomChar = [] ∧
      rest.dropWhile dialect.isAtomChar = rest := by
    cases rest with
    | nil => exact ⟨rfl, rfl⟩
    | cons x xs => simp [hend x rfl]
  have hmatch : lexeme? dialect (c :: (tail ++ rest)) =
      some (.atom (String.ofList (c :: (tail ++ rest).takeWhile dialect.isAtomChar)),
        (tail ++ rest).dropWhile dialect.isAtomChar) := by
    obtain ⟨h1, h2, h3, h4⟩ := Dialect.ne_of_isAtomChar hc
    rw [lexeme?.eq_def]
    split <;> grind
  rw [List.cons_append, hmatch, List.takeWhile_append_of_pos htail,
    List.dropWhile_append_of_pos htail, hstop.1, hstop.2, List.append_nil]

theorem lexeme?_source (h : lexeme.Valid dialect) (hend : lexeme.EndsBefore dialect rest) :
    lexeme? dialect (lexeme.source.toList ++ rest) = some (lexeme, rest) := by
  cases lexeme with
  | opening => simpa [Lexeme.source] using lexeme?_opening rest
  | closing => simpa [Lexeme.source] using lexeme?_closing rest
  | quoteMark => simpa [Lexeme.source] using lexeme?_quoteMark rest
  | string text => simpa [Lexeme.source] using lexeme?_string h rest
  | atom text => simpa [Lexeme.source] using lexeme?_atom h hend

theorem valid_of_cut {source : String} {offset : Nat} {passed tokens : List Token}
    (h : cut dialect source cs offset passed = .ok tokens)
    (hpassed : ∀ token ∈ passed, token.lexeme.Valid dialect) :
    ∀ token ∈ tokens, token.lexeme.Valid dialect := by
  fun_induction cut dialect source cs offset passed with
  | case1 cs offset passed hempty =>
    cases h
    simpa using hpassed
  | case2 => cases h
  | case3 cs offset passed hempty lexeme rest hlexeme next ih =>
    refine ih h ?_
    intro token htoken
    obtain rfl | htoken := List.mem_cons.1 htoken
    · exact (lexeme?_eq_some hlexeme).1
    · exact hpassed token htoken

theorem valid_of_ofSource {source : String} {tokens : List Token}
    (h : ofSource dialect source = .ok tokens) :
    ∀ token ∈ tokens, token.lexeme.Valid dialect :=
  valid_of_cut h (by simp)

def Spells (dialect : Dialect) (cs : List Char) (lexemes : List Lexeme) : Prop :=
  ∀ source offset passed, ∃ tokens : List Token, tokens.map Token.lexeme = lexemes ∧
    cut dialect source (skipTrivia dialect cs offset).1 (skipTrivia dialect cs offset).2 passed =
      .ok (passed.reverse ++ tokens)

theorem spells_nil : Spells dialect [] [] := by
  intro source offset passed
  refine ⟨[], rfl, ?_⟩
  rw [skipTrivia, cut]
  simp

theorem spells_space {lexemes : List Lexeme} (h : Spells dialect cs lexemes) :
    Spells dialect (' ' :: cs) lexemes := by
  intro source offset passed
  rw [skipTrivia]
  exact h source (offset + 1) passed

theorem isGap_of_isAtomChar {c : Char} (h : dialect.isAtomChar c = true) : isGap c = false := by
  refine Bool.eq_false_iff.2 fun hgap => ?_
  simp only [isGap, Bool.or_eq_true, beq_iff_eq] at hgap
  obtain ((rfl | rfl) | rfl) | rfl := hgap
  all_goals simp [Dialect.isAtomChar, Text.isBlank] at h

theorem skipTrivia_source (h : lexeme.Valid dialect) (offset : Nat) :
    skipTrivia dialect (lexeme.source.toList ++ rest) offset =
      (lexeme.source.toList ++ rest, offset) := by
  cases lexeme with
  | opening => simp [Lexeme.source, skipTrivia, isGap]
  | closing => simp [Lexeme.source, skipTrivia, isGap]
  | quoteMark => simp [Lexeme.source, skipTrivia, isGap]
  | string text => simp [Lexeme.source, skipTrivia, isGap]
  | atom text =>
    obtain ⟨hne, hall⟩ := h
    obtain ⟨c, tail, heq⟩ := List.exists_cons_of_ne_nil hne
    have hc : dialect.isAtomChar c = true := hall c (by simp [heq])
    have hcomment : (dialect.comments && c == ';') = false := by
      simp only [Dialect.isAtomChar, Bool.not_eq_true', Bool.or_eq_false_iff] at hc
      exact hc.2
    simp only [Lexeme.source, heq, List.cons_append]
    rw [skipTrivia, isGap_of_isAtomChar hc, hcomment]
    simp

theorem cut_source (hvalid : lexeme.Valid dialect) (hend : lexeme.EndsBefore dialect rest)
    (source : String) (offset : Nat) (passed : List Token) :
    cut dialect source (lexeme.source.toList ++ rest) offset passed =
      cut dialect source (skipTrivia dialect rest (offset + lexeme.source.utf8ByteSize)).1
        (skipTrivia dialect rest (offset + lexeme.source.utf8ByteSize)).2
        (⟨lexeme, offset⟩ :: passed) := by
  have hlexeme := lexeme?_source hvalid hend
  have hne : (lexeme.source.toList ++ rest).isEmpty = false := by
    rw [List.isEmpty_eq_false_iff]
    intro hnil
    rw [hnil] at hlexeme
    cases hlexeme
  rw [cut, if_neg (by simp [hne])]
  split
  · next hnone => simp [hlexeme] at hnone
  · next lexeme' rest' hsome =>
    rw [hlexeme, Option.some.injEq, Prod.mk.injEq] at hsome
    obtain ⟨rfl, rfl⟩ := hsome
    rfl

theorem spells_lexeme {lexemes : List Lexeme} (hvalid : lexeme.Valid dialect)
    (hend : lexeme.EndsBefore dialect rest) (h : Spells dialect rest lexemes) :
    Spells dialect (lexeme.source.toList ++ rest) (lexeme :: lexemes) := by
  intro source offset passed
  obtain ⟨tokens, hmap, hcut⟩ := h source (offset + lexeme.source.utf8ByteSize)
    (⟨lexeme, offset⟩ :: passed)
  refine ⟨⟨lexeme, offset⟩ :: tokens, by simp [hmap], ?_⟩
  rw [skipTrivia_source hvalid, cut_source hvalid hend]
  simpa using hcut

theorem ofSource_of_spells {source : String} {lexemes : List Lexeme}
    (h : Spells dialect source.toList lexemes) :
    ∃ tokens : List Token, tokens.map Token.lexeme = lexemes ∧
      ofSource dialect source = .ok tokens := by
  obtain ⟨tokens, hmap, hcut⟩ := h source 0 []
  exact ⟨tokens, hmap, by simpa [ofSource] using hcut⟩

end Token

end Lisplet
