import Lisplet.Proofs.Readable

/-! The grammar of expressions. An expression is an atom, a string literal, a list or a quoted
expression; its derivation gives the lexemes it is written in and the value it stands for. The
reader accepts exactly the derivations in which every part has fewer lists and quote marks around it
than the greatest depth. -/
namespace Lisplet

inductive Expression where
  | atom (text : String)
  | string (text : String)
  | list (items : List Expression)
  | quote (e : Expression)

namespace Expression

mutual

def lexemes : Expression → List Lexeme
  | atom text => [.atom text]
  | string text => [.string text]
  | list items => .opening :: (lexemesOf items ++ [.closing])
  | quote e => .quoteMark :: e.lexemes

def lexemesOf : List Expression → List Lexeme
  | [] => []
  | e :: rest => e.lexemes ++ lexemesOf rest

end

mutual

def value : Expression → Value
  | atom text => .ofAtom text
  | string text => .literal text
  | list items => .list (values items)
  | quote e => e.value.quoted

def values : List Expression → List Value
  | [] => []
  | e :: rest => e.value :: values rest

end

theorem lexemesOf_eq_flatMap (items : List Expression) :
    lexemesOf items = items.flatMap lexemes := by
  induction items with
  | nil => rfl
  | cons e rest ih => rw [lexemesOf, ih, List.flatMap_cons]

theorem values_eq_map (items : List Expression) : values items = items.map value := by
  induction items with
  | nil => rfl
  | cons e rest ih => rw [values, ih, List.map_cons]

@[simp] theorem lexemes_atom (text : String) : (atom text).lexemes = [.atom text] := by
  rw [lexemes]

@[simp] theorem lexemes_string (text : String) : (string text).lexemes = [.string text] := by
  rw [lexemes]

@[simp] theorem lexemes_list (items : List Expression) :
    (list items).lexemes = .opening :: (items.flatMap lexemes ++ [.closing]) := by
  rw [lexemes, lexemesOf_eq_flatMap]

@[simp] theorem lexemes_quote (e : Expression) :
    (quote e).lexemes = .quoteMark :: e.lexemes := by
  rw [lexemes]

@[simp] theorem value_atom (text : String) : (atom text).value = .ofAtom text := by
  rw [value]

@[simp] theorem value_string (text : String) : (string text).value = .literal text := by
  rw [value]

@[simp] theorem value_list (items : List Expression) :
    (list items).value = .list (items.map value) := by
  rw [value, values_eq_map]

@[simp] theorem value_quote (e : Expression) : (quote e).value = e.value.quoted := by
  rw [value]

@[elab_as_elim, induction_eliminator]
theorem induct {motive : Expression → Prop} (atom : ∀ text, motive (.atom text))
    (string : ∀ text, motive (.string text))
    (list : ∀ items, (∀ e ∈ items, motive e) → motive (.list items))
    (quote : ∀ e, motive e → motive (.quote e)) : ∀ e, motive e
  | .atom text => atom text
  | .string text => string text
  | .list items => list items fun e _ => induct atom string list quote e
  | .quote e => quote e (induct atom string list quote e)

/-- The part has so many lists and quote marks of the expression around it. -/
inductive Part (part : Expression) : Nat → Expression → Prop where
  | self : Part part 0 part
  | item {n : Nat} {e : Expression} {items : List Expression} (hmem : e ∈ items)
    (h : Part part n e) : Part part (n + 1) (.list items)
  | quoted {n : Nat} {e : Expression} (h : Part part n e) : Part part (n + 1) (.quote e)

/-- With so many lists and quote marks around the expression, every part of it has fewer than the
greatest depth around it. -/
def Fits (around : Nat) (e : Expression) : Prop :=
  ∀ part n, Part part n e → around + n < maxReadDepth

section
variable {around : Nat} {text : String} {items : List Expression} {e : Expression}

theorem Fits.lt (h : e.Fits around) : around < maxReadDepth := h e 0 .self

theorem fits_atom (h : around < maxReadDepth) : (atom text).Fits around := by
  rintro part n ⟨⟩
  exact h

theorem fits_string (h : around < maxReadDepth) : (string text).Fits around := by
  rintro part n ⟨⟩
  exact h

theorem fits_list_iff : (list items).Fits around ↔
    around < maxReadDepth ∧ ∀ e ∈ items, e.Fits (around + 1) := by
  constructor
  · intro h
    refine ⟨h.lt, fun e he part n hpart => ?_⟩
    have hlt := h part (n + 1) (.item he hpart)
    omega
  · rintro ⟨hlt, hitems⟩ part n hpart
    cases hpart with
    | self => exact hlt
    | @item n e _ hmem hpart =>
      have hlt := hitems e hmem part n hpart
      omega

theorem fits_quote_iff :
    (quote e).Fits around ↔ around < maxReadDepth ∧ e.Fits (around + 1) := by
  constructor
  · intro h
    refine ⟨h.lt, fun part n hpart => ?_⟩
    have hlt := h part (n + 1) (.quoted hpart)
    omega
  · rintro ⟨hlt, he⟩ part n hpart
    cases hpart with
    | self => exact hlt
    | @quoted n _ hpart =>
      have hlt := he part n hpart
      omega

end

theorem exists_lexemes_eq_cons (e : Expression) :
    ∃ lexeme rest, e.lexemes = lexeme :: rest ∧ lexeme ≠ .closing := by
  cases e with
  | atom text => exact ⟨_, _, lexemes_atom text, nofun⟩
  | string text => exact ⟨_, _, lexemes_string text, nofun⟩
  | list items => exact ⟨_, _, lexemes_list items, nofun⟩
  | quote e => exact ⟨_, _, lexemes_quote e, nofun⟩

theorem flatMap_lexemes_inj {items items' : List Expression} {rest rest' : List Lexeme}
    (hitems : ∀ e ∈ items, ∀ {e' : Expression} {rest rest' : List Lexeme},
      e.lexemes ++ rest = e'.lexemes ++ rest' → e = e' ∧ rest = rest')
    (h : items.flatMap lexemes ++ .closing :: rest = items'.flatMap lexemes ++ .closing :: rest') :
    items = items' ∧ rest = rest' := by
  induction items generalizing items' with
  | nil =>
    cases items' with
    | nil => exact ⟨rfl, by simpa using h⟩
    | cons e' items' =>
      obtain ⟨lexeme, tail, heq, hne⟩ := e'.exists_lexemes_eq_cons
      simp only [List.flatMap_nil, List.nil_append, List.flatMap_cons, heq, List.cons_append,
        List.cons.injEq] at h
      exact absurd h.1.symm hne
  | cons e items ih =>
    cases items' with
    | nil =>
      obtain ⟨lexeme, tail, heq, hne⟩ := e.exists_lexemes_eq_cons
      simp only [List.flatMap_nil, List.nil_append, List.flatMap_cons, heq, List.cons_append,
        List.cons.injEq] at h
      exact absurd h.1 hne
    | cons e' items' =>
      rw [List.flatMap_cons, List.flatMap_cons, List.append_assoc, List.append_assoc] at h
      obtain ⟨rfl, htail⟩ := hitems e (.head _) h
      obtain ⟨rfl, hrest⟩ := ih (fun e he => hitems e (.tail _ he)) htail
      exact ⟨rfl, hrest⟩

theorem lexemes_inj {e e' : Expression} {rest rest' : List Lexeme}
    (h : e.lexemes ++ rest = e'.lexemes ++ rest') : e = e' ∧ rest = rest' := by
  induction e generalizing e' rest rest' with
  | atom text => cases e' <;> simp_all
  | string text => cases e' <;> simp_all
  | list items ih =>
    cases e' with
    | list items' =>
      simp only [lexemes_list, List.cons_append, List.append_assoc, List.nil_append,
        List.cons.injEq, true_and] at h
      obtain ⟨rfl, hrest⟩ := flatMap_lexemes_inj (fun e he _ _ _ => ih e he) h
      exact ⟨rfl, hrest⟩
    | _ => simp at h
  | quote e ih =>
    cases e' with
    | quote e' =>
      simp only [lexemes_quote, List.cons_append, List.cons.injEq, true_and] at h
      obtain ⟨rfl, hrest⟩ := ih h
      exact ⟨rfl, hrest⟩
    | _ => simp at h

end Expression

namespace Reader
open Expression
variable {tokens rest : List Token} {around outer : List Open} {v : Value}

def resume (v : Value) (around : List Open) (rest : List Token) :
    Except Misread Value × List Token :=
  match settle v around with
  | .inl w => (.ok w, rest)
  | .inr next => readFrom rest next

theorem resume_list (v : Value) (done : List Value) (around : List Open) (rest : List Token) :
    resume v (.list done :: around) rest = readFrom rest (.list (v :: done) :: around) := rfl

theorem readFrom_closing {token : Token} {done : List Value} (h : token.lexeme = .closing) :
    readFrom (token :: rest) (.list done :: around) = resume (.list done.reverse) around rest := by
  obtain ⟨lexeme, offset⟩ := token
  cases h
  rw [readFrom]
  · rfl
  · rfl

theorem readFrom_opening {token : Token} (h : token.lexeme = .opening)
    (hroom : around.length < maxReadDepth) :
    readFrom (token :: rest) around = readFrom rest (.list [] :: around) := by
  obtain ⟨lexeme, offset⟩ := token
  cases h
  rw [readFrom, if_neg (Nat.not_le.2 hroom)]
  simp

theorem readFrom_string {token : Token} {text : String} (h : token.lexeme = .string text)
    (hroom : around.length < maxReadDepth) :
    readFrom (token :: rest) around = resume (.literal text) around rest := by
  obtain ⟨lexeme, offset⟩ := token
  cases h
  rw [readFrom, if_neg (Nat.not_le.2 hroom)]
  · rfl
  · simp

theorem readFrom_atom {token : Token} {text : String} (h : token.lexeme = .atom text)
    (hroom : around.length < maxReadDepth) :
    readFrom (token :: rest) around = resume (.ofAtom text) around rest := by
  obtain ⟨lexeme, offset⟩ := token
  cases h
  rw [readFrom, if_neg (Nat.not_le.2 hroom)]
  · rfl
  · simp

theorem readFrom_quoteMark {token : Token} (h : token.lexeme = .quoteMark)
    (hroom : around.length < maxReadDepth) :
    readFrom (token :: rest) around = readFrom rest (.quote :: around) := by
  obtain ⟨lexeme, offset⟩ := token
  cases h
  rw [readFrom, if_neg (Nat.not_le.2 hroom)]
  simp

theorem readFrom_items {items : List Expression} {done : List Value}
    (hitems : ∀ e ∈ items, ∀ tokens rest done, tokens.map Token.lexeme = e.lexemes →
      readFrom (tokens ++ rest) (.list done :: outer) =
        readFrom rest (.list (e.value :: done) :: outer))
    (htokens : tokens.map Token.lexeme = items.flatMap lexemes) :
    readFrom (tokens ++ rest) (.list done :: outer) =
      readFrom rest (.list ((items.map value).reverse ++ done) :: outer) := by
  induction items generalizing tokens done with
  | nil =>
    obtain rfl : tokens = [] := by simpa using htokens
    rfl
  | cons e items ih =>
    obtain ⟨head, tail, rfl, hhead, htail⟩ := List.map_eq_append_iff.1 htokens
    rw [List.append_assoc, hitems e (.head _) head _ done hhead,
      ih (fun e he => hitems e (.tail _ he)) htail]
    simp

theorem readFrom_expression {e : Expression} (hfits : e.Fits around.length)
    (htokens : tokens.map Token.lexeme = e.lexemes) :
    readFrom (tokens ++ rest) around = resume e.value around rest := by
  induction e generalizing around tokens rest with
  | atom text =>
    obtain ⟨token, rfl, hlexeme⟩ := List.map_eq_singleton_iff.1 htokens
    exact readFrom_atom hlexeme hfits.lt
  | string text =>
    obtain ⟨token, rfl, hlexeme⟩ := List.map_eq_singleton_iff.1 htokens
    exact readFrom_string hlexeme hfits.lt
  | list items ih =>
    obtain ⟨hlt, hitems⟩ := fits_list_iff.1 hfits
    rw [lexemes_list] at htokens
    obtain ⟨opening, tokens, rfl, hopening, htokens⟩ := List.map_eq_cons_iff.1 htokens
    obtain ⟨inner, last, rfl, hinner, hlast⟩ := List.map_eq_append_iff.1 htokens
    obtain ⟨closing, rfl, hclosing⟩ := List.map_eq_singleton_iff.1 hlast
    have hread : readFrom (inner ++ closing :: rest) (.list [] :: around) =
        readFrom (closing :: rest) (.list ((items.map value).reverse ++ []) :: around) :=
      readFrom_items (fun e he tokens rest done => ih e he (hitems e he)) hinner
    have hclose : readFrom (closing :: rest) (.list (items.map value).reverse :: around) =
        resume (.list (items.map value).reverse.reverse) around rest := readFrom_closing hclosing
    rw [List.cons_append, readFrom_opening hopening hlt, List.append_assoc, List.singleton_append,
      hread, List.append_nil, hclose, List.reverse_reverse, value_list]
  | quote e ih =>
    obtain ⟨hlt, he⟩ := fits_quote_iff.1 hfits
    rw [lexemes_quote] at htokens
    obtain ⟨mark, tokens, rfl, hmark, htokens⟩ := List.map_eq_cons_iff.1 htokens
    have hread : readFrom (tokens ++ rest) (.quote :: around) =
        resume e.value (.quote :: around) rest := ih he htokens
    rw [List.cons_append, readFrom_quoteMark hmark hlt, hread, value_quote]
    rfl

theorem lt_of_readFrom_eq_ok {token : Token} (hclosing : token.lexeme ≠ .closing)
    (h : (readFrom (token :: rest) around).1 = .ok v) : around.length < maxReadDepth := by
  refine Nat.lt_of_not_le fun hdeep => ?_
  rw [readFrom, if_pos hdeep] at h
  · cases h
  · exact fun _ _ heq => absurd heq hclosing

theorem exists_list_of_readFrom_eq_ok {token : Token} (hclosing : token.lexeme = .closing)
    (h : (readFrom (token :: rest) around).1 = .ok v) :
    ∃ done outer, around = .list done :: outer := by
  obtain ⟨lexeme, offset⟩ := token
  obtain rfl : lexeme = .closing := hclosing
  cases around with
  | nil => cases h
  | cons innermost outer =>
    cases innermost with
    | list done => exact ⟨done, outer, rfl⟩
    | quote =>
      rw [readFrom] at h
      · split at h <;> cases h
      · simp

mutual

/-- Where reading succeeds, an expression comes first for which there is room, or the end of the
innermost list. -/
theorem exists_expression {tokens : List Token} {around : List Open}
    (h : (readFrom tokens around).1 = .ok v) :
    (∃ closing rest done outer, tokens = closing :: rest ∧ closing.lexeme = .closing ∧
      around = .list done :: outer) ∨
    ∃ (e : Expression) (used rest : List Token), tokens = used ++ rest ∧
      used.map Token.lexeme = e.lexemes ∧ e.Fits around.length := by
  match tokens with
  | [] => cases h
  | token :: rest =>
    by_cases hclosing : token.lexeme = .closing
    · obtain ⟨done, outer, haround⟩ := exists_list_of_readFrom_eq_ok hclosing h
      exact .inl ⟨token, rest, done, outer, rfl, hclosing, haround⟩
    · refine .inr ?_
      have hroom := lt_of_readFrom_eq_ok hclosing h
      match hlexeme : token.lexeme with
      | .closing => exact absurd hlexeme hclosing
      | .atom text =>
        exact ⟨.atom text, [token], rest, rfl, by simp [hlexeme], fits_atom hroom⟩
      | .string text =>
        exact ⟨.string text, [token], rest, rfl, by simp [hlexeme], fits_string hroom⟩
      | .quoteMark =>
        rw [readFrom_quoteMark hlexeme hroom] at h
        obtain ⟨_, _, done, outer, _, _, haround⟩ | ⟨e, used, rest, rfl, hused, he⟩ :=
          exists_expression h
        · cases haround
        · exact ⟨.quote e, token :: used, rest, rfl, by simp [hlexeme, hused],
            fits_quote_iff.2 ⟨hroom, he⟩⟩
      | .opening =>
        rw [readFrom_opening hlexeme hroom] at h
        obtain ⟨items, used, closing, rest, rfl, hclosing, hused, hitems⟩ := exists_items h
        exact ⟨.list items, token :: used ++ [closing], rest, by simp,
          by simp [hlexeme, hused, hclosing], fits_list_iff.2 ⟨hroom, hitems⟩⟩
termination_by (tokens.length, 0)

theorem exists_items {tokens : List Token} {done : List Value} {outer : List Open}
    (h : (readFrom tokens (.list done :: outer)).1 = .ok v) :
    ∃ (items : List Expression) (used : List Token) (closing : Token) (rest : List Token),
      tokens = used ++ closing :: rest ∧ closing.lexeme = .closing ∧
      used.map Token.lexeme = items.flatMap lexemes ∧ ∀ e ∈ items, e.Fits (outer.length + 1) := by
  obtain ⟨closing, rest, _, _, rfl, hclosing, -⟩ | ⟨e, used, rest, rfl, hused, he⟩ :=
    exists_expression h
  · exact ⟨[], [], closing, rest, rfl, hclosing, rfl, fun _ h => nomatch h⟩
  · rw [readFrom_expression he hused, resume_list] at h
    have hlt : rest.length < (used ++ rest).length := by
      obtain ⟨lexeme, tail, heq, -⟩ := e.exists_lexemes_eq_cons
      have hlength := congrArg List.length hused
      simp only [heq, List.length_map, List.length_cons] at hlength
      simp only [List.length_append]
      omega
    obtain ⟨items, used', closing, rest', rfl, hclosing, hused', hitems⟩ := exists_items h
    refine ⟨e :: items, used ++ used', closing, rest', by simp, hclosing, by simp [hused, hused'],
      fun e' he' => ?_⟩
    obtain rfl | he' := List.mem_cons.1 he'
    · exact he
    · exact hitems e' he'
termination_by (tokens.length, 1)

end

/-- The tokens are written by the derivation, and every part of it has fewer lists and quote marks
around it than the greatest depth. -/
def Derives (tokens : List Token) (e : Expression) : Prop :=
  tokens.map Token.lexeme = e.lexemes ∧ e.Fits 0

theorem Derives.ne_nil {e : Expression} (h : Derives tokens e) : tokens ≠ [] := by
  rintro rfl
  obtain ⟨lexeme, rest, heq, -⟩ := e.exists_lexemes_eq_cons
  have hmap := h.1
  rw [heq] at hmap
  cases hmap

theorem readFrom_nil_eq_ok_iff : readFrom tokens [] = (.ok v, rest) ↔
    ∃ e used, tokens = used ++ rest ∧ Derives used e ∧ v = e.value := by
  constructor
  · intro h
    obtain ⟨_, _, _, _, _, _, haround⟩ | ⟨e, used, rest', rfl, hused, he⟩ :=
      exists_expression (congrArg Prod.fst h)
    · cases haround
    · have hread : readFrom (used ++ rest') [] = (.ok e.value, rest') :=
        readFrom_expression he hused
      rw [hread] at h
      cases h
      exact ⟨e, used, rfl, ⟨hused, he⟩, rfl⟩
  · rintro ⟨e, used, rfl, ⟨hused, he⟩, rfl⟩
    exact readFrom_expression he hused

section
variable {source : String} {token : Token} {unused : List Token}
  {passed extra : List (Except ParseError Value)}

theorem collect_of_ok (h : readFrom (token :: rest) [] = (.ok v, unused)) :
    collect source (token :: rest) passed = collect source unused (.ok v :: passed) := by
  rw [collect]
  split
  · next heq =>
    rw [h] at heq
    cases heq
    rfl
  · next heq =>
    rw [h] at heq
    cases heq

theorem collect_of_error {fault : Misread}
    (h : readFrom (token :: rest) [] = (.error fault, unused)) :
    collect source (token :: rest) passed = (.error (misread source fault) :: passed).reverse := by
  rw [collect]
  split
  · next heq =>
    rw [h] at heq
    cases heq
  · next heq =>
    rw [h] at heq
    cases heq
    rfl

theorem collect_append : collect source tokens (passed ++ extra) =
    extra.reverse ++ collect source tokens passed := by
  fun_induction collect source tokens passed with
  | case1 passed => rw [collect, List.reverse_append]
  | case2 passed token rest v unused hread ih => rw [collect_of_ok hread, ← ih, List.cons_append]
  | case3 passed token rest fault unused hread =>
    rw [collect_of_error hread, ← List.cons_append, List.reverse_append]

theorem collect_of_derives {e : Expression} {used : List Token} (h : Derives used e) :
    collect source (used ++ rest) [] = .ok e.value :: collect source rest [] := by
  obtain ⟨token, tail, rfl⟩ := List.exists_cons_of_ne_nil h.ne_nil
  have hread : readFrom (token :: (tail ++ rest)) [] = (.ok e.value, rest) :=
    readFrom_nil_eq_ok_iff.2 ⟨e, token :: tail, rfl, h, rfl⟩
  rw [List.cons_append, collect_of_ok hread, ← List.nil_append [Except.ok e.value],
    collect_append]
  rfl

theorem derives_or_collect_eq_error (htokens : tokens ≠ []) :
    (∃ e used unused, tokens = used ++ unused ∧ Derives used e) ∨
      ∃ fault, collect source tokens [] = [.error fault] := by
  obtain ⟨token, rest, rfl⟩ := List.exists_cons_of_ne_nil htokens
  obtain ⟨result, unused, hread⟩ : ∃ result unused,
    readFrom (token :: rest) [] = (result, unused) := ⟨_, _, rfl⟩
  cases result with
  | ok v =>
    obtain ⟨e, used, heq, hused, -⟩ := readFrom_nil_eq_ok_iff.1 hread
    exact .inl ⟨e, used, unused, heq, hused⟩
  | error fault => exact .inr ⟨misread source fault, collect_of_error hread⟩

theorem collect_eq_map_ok_iff {vs : List Value} : collect source tokens [] = vs.map .ok ↔
    ∃ pieces : List (List Token × Expression), tokens = pieces.flatMap (·.1) ∧
      (∀ piece ∈ pieces, Derives piece.1 piece.2) ∧ vs = pieces.map (·.2.value) := by
  constructor
  · intro h
    induction vs generalizing tokens with
    | nil =>
      by_cases htokens : tokens = []
      · exact ⟨[], htokens, (fun _ he => nomatch he), rfl⟩
      · obtain ⟨e, used, unused, rfl, hused⟩ | ⟨fault, hfault⟩ :=
          derives_or_collect_eq_error htokens
        · rw [collect_of_derives hused] at h
          cases h
        · rw [hfault] at h
          cases h
    | cons v vs ih =>
      have htokens : tokens ≠ [] := by
        rintro rfl
        rw [collect] at h
        cases h
      obtain ⟨e, used, unused, rfl, hused⟩ | ⟨fault, hfault⟩ :=
        derives_or_collect_eq_error htokens
      · rw [collect_of_derives hused, List.map_cons, List.cons.injEq, Except.ok.injEq] at h
        obtain ⟨rfl, h⟩ := h
        obtain ⟨pieces, rfl, hpieces, rfl⟩ := ih h
        exact ⟨(used, e) :: pieces, rfl, List.forall_mem_cons.2 ⟨hused, hpieces⟩, rfl⟩
      · rw [hfault] at h
        cases h
  · rintro ⟨pieces, rfl, hpieces, rfl⟩
    induction pieces with
    | nil => rw [List.flatMap_nil, collect, List.reverse_nil, List.map_nil, List.map_nil]
    | cons piece pieces ih =>
      obtain ⟨hpiece, hpieces⟩ := List.forall_mem_cons.1 hpieces
      rw [List.flatMap_cons, collect_of_derives hpiece, ih hpieces]
      rfl

end

theorem read_drop_eq_ok_iff {source : String} {failed : Bool} {p q : Nat} :
    read ⟨source, tokens.drop p, failed⟩ = (.ok v, ⟨source, tokens.drop q, failed⟩) ↔
      ∃ e, Derives (tokens.extract p q) e ∧ v = e.value := by
  have hread : read ⟨source, tokens.drop p, failed⟩ =
      (.ok v, ⟨source, tokens.drop q, failed⟩) ↔
        readFrom (tokens.drop p) [] = (.ok v, tokens.drop q) := by
    obtain ⟨result, rest, h⟩ : ∃ result rest,
      readFrom (tokens.drop p) [] = (result, rest) := ⟨_, _, rfl⟩
    rw [read, h]
    cases result <;> simp [Except.mapError]
  rw [hread, readFrom_nil_eq_ok_iff, List.extract_eq_take_drop]
  constructor
  · rintro ⟨e, used, htokens, hused, rfl⟩
    refine ⟨e, ?_, rfl⟩
    have hpos := List.length_pos_iff.2 hused.ne_nil
    have hlength := congrArg List.length htokens
    simp only [List.length_drop, List.length_append] at hlength
    rw [htokens]
    by_cases hq : q ≤ tokens.length
    · rw [List.take_left' (by omega)]
      exact hused
    · rw [List.drop_eq_nil_of_le (by omega), List.append_nil, List.take_of_length_le (by omega)]
      exact hused
  · rintro ⟨e, hused, rfl⟩
    refine ⟨e, _, ?_, hused, rfl⟩
    have hle : p ≤ q := by
      by_contra hlt
      refine hused.ne_nil ?_
      rw [Nat.sub_eq_zero_of_le (by omega), List.take_zero]
    have hdrop : tokens.drop q = (tokens.drop p).drop (q - p) := by
      rw [List.drop_drop, Nat.add_sub_cancel' hle]
    rw [hdrop, List.take_append_drop]

theorem derives_extract_unique {p q q' : Nat} {e e' : Expression} (hq : q ≤ tokens.length)
    (hq' : q' ≤ tokens.length) (h : Derives (tokens.extract p q) e)
    (h' : Derives (tokens.extract p q') e') : q = q' ∧ e = e' := by
  have hsplit {r : Nat} {e : Expression} (h : Derives (tokens.extract p r) e) :
      (tokens.drop p).map Token.lexeme =
        e.lexemes ++ ((tokens.drop p).drop (r - p)).map Token.lexeme := by
    rw [← h.1, ← List.map_append, List.extract_eq_take_drop, List.take_append_drop]
  have hend {r : Nat} {e : Expression} (hr : r ≤ tokens.length)
      (h : Derives (tokens.extract p r) e) : r = p + e.lexemes.length := by
    have hpos := List.length_pos_iff.2 h.ne_nil
    have hlength := congrArg List.length h.1
    rw [List.extract_eq_take_drop] at hpos hlength
    simp only [List.length_map, List.length_take, List.length_drop] at hpos hlength
    omega
  obtain ⟨rfl, -⟩ := lexemes_inj ((hsplit h).symm.trans (hsplit h'))
  exact ⟨(hend hq h).trans (hend hq' h').symm, rfl⟩

end Reader

theorem mapM_id_eq_ok_iff {α ε : Type} {items : List (Except ε α)} {as : List α} :
    items.mapM id = .ok as ↔ items = as.map .ok := by
  induction items generalizing as with
  | nil =>
    rw [List.mapM_nil]
    simp [pure, Except.pure, eq_comm]
  | cons item items ih =>
    rw [List.mapM_cons]
    cases item with
    | error e => cases as <;> simp [bind, Except.bind]
    | ok a =>
      cases as with
      | nil => cases items.mapM id <;> simp [bind, Except.bind, pure, Except.pure]
      | cons b bs =>
        rw [List.map_cons, List.cons.injEq, Except.ok.injEq, ← ih]
        cases items.mapM id <;> simp [bind, Except.bind, pure, Except.pure]

theorem Value.parseAll_eq_ok_iff {dialect : Dialect} {source : String} {vs : List Value} :
    Value.parseAll dialect source = .ok vs ↔
      ∃ tokens, Token.ofSource dialect source = .ok tokens ∧
        Reader.collect source tokens [] = vs.map .ok := by
  unfold Value.parseAll Reader.ofSource
  cases htokens : Token.ofSource dialect source with
  | error e => simp [Except.map, bind, Except.bind]
  | ok tokens =>
    simp only [Except.map, bind, Except.bind, Except.ok.injEq, exists_eq_left']
    exact mapM_id_eq_ok_iff

namespace Reader
open Expression

/-- The reader goes from one position of the tokens to another exactly where a derivation stands
between them, of which there is one at most, and yields its value. A text is one expression or a
program exactly where its tokens are one derivation or derivations one after the other. -/
theorem reads_derivations :
    (∀ (source : String) (failed : Bool) (tokens : List Token) (p q : Nat) (v : Value),
      read ⟨source, tokens.drop p, failed⟩ = (.ok v, ⟨source, tokens.drop q, failed⟩) ↔
        ∃ e, Derives (tokens.extract p q) e ∧ v = e.value) ∧
    (∀ (tokens : List Token) (p q q' : Nat) (e e' : Expression), q ≤ tokens.length →
      q' ≤ tokens.length → Derives (tokens.extract p q) e → Derives (tokens.extract p q') e' →
        q = q' ∧ e = e') ∧
    ∀ (dialect : Dialect) (source : String),
      (∀ v, Value.parse dialect source = .ok v ↔
        ∃ tokens e, Token.ofSource dialect source = .ok tokens ∧ Derives tokens e ∧ v = e.value) ∧
      ∀ vs, Value.parseAll dialect source = .ok vs ↔
        ∃ pieces : List (List Token × Expression),
          Token.ofSource dialect source = .ok (pieces.flatMap (·.1)) ∧
            (∀ piece ∈ pieces, Derives piece.1 piece.2) ∧ vs = pieces.map (·.2.value) := by
  refine ⟨fun _ _ _ _ _ _ => read_drop_eq_ok_iff, fun _ _ _ _ _ _ => derives_extract_unique,
    fun dialect source => ⟨fun v => ?_, fun vs => ?_⟩⟩
  · rw [Value.parse_eq_ok_iff]
    constructor
    · rintro ⟨tokens, htokens, hread⟩
      obtain ⟨e, used, rfl, hused, rfl⟩ := readFrom_nil_eq_ok_iff.1 hread
      rw [List.append_nil] at htokens
      exact ⟨used, e, htokens, hused, rfl⟩
    · rintro ⟨tokens, e, htokens, hused, rfl⟩
      exact ⟨tokens, htokens,
        readFrom_nil_eq_ok_iff.2 ⟨e, tokens, (List.append_nil _).symm, hused, rfl⟩⟩
  · rw [Value.parseAll_eq_ok_iff]
    constructor
    · rintro ⟨tokens, htokens, hcollect⟩
      obtain ⟨pieces, rfl, hpieces, rfl⟩ := collect_eq_map_ok_iff.1 hcollect
      exact ⟨pieces, htokens, hpieces, rfl⟩
    · rintro ⟨pieces, htokens, hpieces, rfl⟩
      exact ⟨_, htokens, collect_eq_map_ok_iff.2 ⟨pieces, rfl, hpieces, rfl⟩⟩

theorem reads_derivations_quoted :
    read ⟨"('a ())", [⟨.quoteMark, 1⟩, ⟨.atom "a", 2⟩, ⟨.opening, 4⟩, ⟨.closing, 5⟩, ⟨.closing, 6⟩],
        false⟩ =
      (.ok (Value.symbol "a").quoted,
        ⟨"('a ())", [⟨.opening, 4⟩, ⟨.closing, 5⟩, ⟨.closing, 6⟩], false⟩) ∧
    Derives [⟨.quoteMark, 1⟩, ⟨.atom "a", 2⟩] (.quote (.atom "a")) ∧
    ¬ Derives [⟨.quoteMark, 1⟩] (.atom "a") := by
  have hquoted : Derives [⟨.quoteMark, 1⟩, ⟨.atom "a", 2⟩] (.quote (.atom "a")) :=
    ⟨by simp, fits_quote_iff.2 ⟨by decide, fits_atom (by decide)⟩⟩
  refine ⟨?_, hquoted, fun h => ?_⟩
  · exact (reads_derivations.1 "('a ())" false [⟨.opening, 0⟩, ⟨.quoteMark, 1⟩, ⟨.atom "a", 2⟩,
      ⟨.opening, 4⟩, ⟨.closing, 5⟩, ⟨.closing, 6⟩] 1 3 _).2 ⟨_, hquoted, by simp; rfl⟩
  · have hunique := reads_derivations.2.1 [⟨.opening, 0⟩, ⟨.quoteMark, 1⟩, ⟨.atom "a", 2⟩,
      ⟨.opening, 4⟩, ⟨.closing, 5⟩, ⟨.closing, 6⟩] 1 3 2 _ _ (by decide) (by decide) hquoted h
    exact absurd hunique.1 (by decide)

end Reader

end Lisplet
