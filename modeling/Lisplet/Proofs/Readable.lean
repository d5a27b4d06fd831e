import Lisplet.Proofs.Lexemes
import Lisplet.Reader

/-! The values that the reader makes: what their symbols and strings are like and how deep they
are nested. -/
namespace Lisplet

namespace Number

def IsFinite : Number → Prop
  | int _ => True
  | real r => r.isFinite = true

theorem isFinite_of_ofAtom? {cs : List Char} {n : Number} (h : ofAtom? cs = some n) :
    n.IsFinite := by
  simp only [ofAtom?, Option.orElse_eq_orElse, Option.orElse_eq_or, Option.or_eq_some_iff] at h
  obtain h | ⟨-, h⟩ := h
  · obtain ⟨i, -, hi⟩ := Option.bind_eq_some_iff.1 h
    unfold ofInt? at hi
    split at hi
    · cases hi; trivial
    · cases hi
  · split at h
    · obtain ⟨r, hr, rfl⟩ := Option.map_eq_some_iff.1 h
      exact (Option.filter_eq_some_iff.1 hr).2
    · cases h

end Number

/-- The values that can be read where so many more constructs may be open. A string stands only in
the list that its literal is read as. -/
inductive Readable (dialect : Dialect) : Nat → Value → Prop where
  | number {room : Nat} {n : Number} (hfinite : n.IsFinite) :
    Readable dialect (room + 1) (.number n)
  | symbol {room : Nat} {name : String} (hatom : dialect.IsAtom name.toList)
    (hnumber : Number.ofAtom? name.toList = none) : Readable dialect (room + 1) (.symbol name)
  | literal {room : Nat} {text : String} (htext : Token.Quotable text.toList) :
    Readable dialect (room + 1) (.literal text)
  | list {room : Nat} {items : List Value} (hitems : ∀ v ∈ items, Readable dialect room v) :
    Readable dialect (room + 1) (.list items)

namespace Readable
variable {dialect : Dialect} {room : Nat} {v : Value}

theorem room_pos (h : Readable dialect room v) : 0 < room := by
  cases h with
  | number | symbol | literal | list => exact Nat.succ_pos _

theorem ne_string (h : Readable dialect room v) (text : String) : v ≠ .string text := by
  rintro rfl
  cases h

theorem ofAtom {text : String} (h : dialect.IsAtom text.toList) (hroom : 0 < room) :
    Readable dialect room (.ofAtom text) := by
  obtain ⟨room, rfl⟩ := Nat.exists_eq_succ_of_ne_zero (Nat.ne_of_gt hroom)
  unfold Value.ofAtom
  split
  · next n hn => exact .number (Number.isFinite_of_ofAtom? hn)
  · next hn => exact .symbol h hn

theorem quote (hroom : 0 < room) : Readable dialect room (.symbol "quote") := by
  have hatom : dialect.IsAtom "quote".toList := by
    refine ⟨by decide, List.all_eq_true.1 ?_⟩
    cases dialect with
    | mk comments => cases comments <;> decide
  obtain ⟨room, rfl⟩ := Nat.exists_eq_succ_of_ne_zero (Nat.ne_of_gt hroom)
  exact .symbol hatom (by decide)

theorem quoted (h : Readable dialect room v) : Readable dialect (room + 1) v.quoted := by
  refine .list fun w hw => ?_
  simp only [List.mem_cons, List.not_mem_nil, or_false] at hw
  obtain rfl | rfl := hw
  · exact quote h.room_pos
  · exact h

end Readable

namespace Reader
variable {dialect : Dialect} {v : Value} {tokens rest : List Token} {around : List Open}

/-- Invariant of the stack: every construct was begun below the greatest depth, and what is done of
a list is readable inside it. -/
inductive Standing (dialect : Dialect) : List Open → Prop where
  | nil : Standing dialect []
  | quote {outer : List Open} (hroom : outer.length < maxReadDepth) (h : Standing dialect outer) :
    Standing dialect (.quote :: outer)
  | list {outer : List Open} {done : List Value} (hroom : outer.length < maxReadDepth)
    (hdone : ∀ v ∈ done, Readable dialect (maxReadDepth - (outer.length + 1)) v)
    (h : Standing dialect outer) : Standing dialect (.list done :: outer)

theorem settle_standing (hv : Readable dialect (maxReadDepth - around.length) v)
    (h : Standing dialect around) :
    (∀ w, settle v around = .inl w → Readable dialect maxReadDepth w) ∧
      ∀ next, settle v around = .inr next → Standing dialect next := by
  induction h generalizing v with
  | nil =>
    refine ⟨?_, ?_⟩
    · rintro w ⟨⟩
      exact hv
    · rintro next ⟨⟩
  | @quote outer hroom _ ih =>
    have hdepth : maxReadDepth - outer.length = maxReadDepth - (outer.length + 1) + 1 := by omega
    rw [settle]
    refine ih ?_
    rw [hdepth]
    exact hv.quoted
  | @list outer done hroom hdone houter _ =>
    refine ⟨?_, ?_⟩
    · rintro w ⟨⟩
    · rintro next ⟨⟩
      refine .list hroom (fun w hw => ?_) houter
      obtain rfl | hw := List.mem_cons.1 hw
      · exact hv
      · exact hdone w hw

theorem Standing.closed {done : List Value} (h : Standing dialect (.list done :: around)) :
    Standing dialect around ∧
      Readable dialect (maxReadDepth - around.length) (.list done.reverse) := by
  obtain _ | _ | ⟨hroom, hdone, houter⟩ := h
  have hdepth : maxReadDepth - around.length = maxReadDepth - (around.length + 1) + 1 := by omega
  refine ⟨houter, ?_⟩
  rw [hdepth]
  exact .list fun w hw => hdone w (List.mem_reverse.1 hw)

theorem readable_literal {text : String} (h : Token.Quotable text.toList)
    (hroom : ¬ maxReadDepth ≤ around.length) :
    Readable dialect (maxReadDepth - around.length) (.literal text) := by
  have hdepth : maxReadDepth - around.length = maxReadDepth - (around.length + 1) + 1 := by omega
  rw [hdepth]
  exact .literal h

theorem readable_atom {text : String} (h : dialect.IsAtom text.toList)
    (hroom : ¬ maxReadDepth ≤ around.length) :
    Readable dialect (maxReadDepth - around.length) (.ofAtom text) :=
  .ofAtom h (by omega)

theorem readable_of_readFrom (htokens : ∀ token ∈ tokens, token.lexeme.Valid dialect)
    (h : Standing dialect around) (hread : readFrom tokens around = (.ok v, rest)) :
    Readable dialect maxReadDepth v := by
  fun_induction readFrom tokens around with
  | case1 => cases hread
  | case2 token tokens' done outer _ w hsettle =>
    cases hread
    exact (settle_standing h.closed.2 h.closed.1).1 _ hsettle
  | case3 token tokens' done outer _ next hsettle ih =>
    have hnext := (settle_standing h.closed.2 h.closed.1).2 _ hsettle
    exact ih (fun t ht => htokens t (.tail _ ht)) hnext hread
  | case4 => cases hread
  | case5 token tokens' outer hroom _ _ ih =>
    refine ih (fun t ht => htokens t (.tail _ ht)) (.list (Nat.not_le.1 hroom) ?_ h) hread
    rintro w ⟨⟩
  | case6 token tokens' outer hroom _ _ ih =>
    exact ih (fun t ht => htokens t (.tail _ ht)) (.quote (Nat.not_le.1 hroom) h) hread
  | case7 => cases hread
  | case8 token tokens' outer hroom text w hsettle _ hlexeme =>
    have htext : Lexeme.Valid dialect token.lexeme := htokens token (.head _)
    rw [hlexeme] at htext
    cases hread
    exact (settle_standing (readable_literal htext hroom) h).1 _ hsettle
  | case9 token tokens' outer hroom text next hsettle _ hlexeme ih =>
    have htext : Lexeme.Valid dialect token.lexeme := htokens token (.head _)
    rw [hlexeme] at htext
    have hnext := (settle_standing (readable_literal htext hroom) h).2 _ hsettle
    exact ih (fun t ht => htokens t (.tail _ ht)) hnext hread
  | case10 token tokens' outer hroom text w hsettle _ hlexeme =>
    have htext : Lexeme.Valid dialect token.lexeme := htokens token (.head _)
    rw [hlexeme] at htext
    cases hread
    exact (settle_standing (readable_atom htext hroom) h).1 _ hsettle
  | case11 token tokens' outer hroom text next hsettle _ hlexeme ih =>
    have htext : Lexeme.Valid dialect token.lexeme := htokens token (.head _)
    rw [hlexeme] at htext
    have hnext := (settle_standing (readable_atom htext hroom) h).2 _ hsettle
    exact ih (fun t ht => htokens t (.tail _ ht)) hnext hread

theorem readable_of_mem_collect {source : String} {passed : List (Except ParseError Value)}
    (htokens : ∀ token ∈ tokens, token.lexeme.Valid dialect)
    (hpassed : ∀ v, .ok v ∈ passed → Readable dialect maxReadDepth v) :
    ∀ v, .ok v ∈ collect source tokens passed → Readable dialect maxReadDepth v := by
  fun_induction collect source tokens passed with
  | case1 passed => simpa using hpassed
  | case2 passed token rest w unused hread ih =>
    have hsuffix : unused <:+ token :: rest := by
      have h := readFrom_suffix (token :: rest) []
      rwa [hread] at h
    refine ih (fun t ht => htokens t (hsuffix.subset ht)) fun v hv => ?_
    obtain heq | hv := List.mem_cons.1 hv
    · cases heq
      exact readable_of_readFrom htokens .nil hread
    · exact hpassed v hv
  | case3 passed token rest fault unused hread =>
    intro v hv
    obtain heq | hv := List.mem_cons.1 (List.mem_reverse.1 hv)
    · cases heq
    · exact hpassed v hv

theorem readable_of_mem_items {source : String} {reader : Reader}
    (h : Reader.ofSource dialect source = .ok reader) :
    ∀ v, .ok v ∈ reader.items → Readable dialect maxReadDepth v := by
  unfold Reader.ofSource at h
  cases htokens : Token.ofSource dialect source with
  | error e =>
    rw [htokens] at h
    cases h
  | ok tokens =>
    rw [htokens] at h
    cases h
    exact readable_of_mem_collect (Token.valid_of_ofSource htokens) fun v hv => nomatch hv

end Reader

theorem Value.parse_eq_ok_iff {dialect : Dialect} {source : String} {v : Value} :
    Value.parse dialect source = .ok v ↔
      ∃ tokens, Token.ofSource dialect source = .ok tokens ∧
        Reader.readFrom tokens [] = (.ok v, []) := by
  unfold Value.parse Reader.ofSource
  cases htokens : Token.ofSource dialect source with
  | error e => simp [Except.map, bind, Except.bind]
  | ok tokens =>
    simp only [Except.map, bind, Except.bind, Except.ok.injEq, exists_eq_left']
    obtain ⟨result, rest, hread⟩ : ∃ result rest, Reader.readFrom tokens [] = (result, rest) :=
      ⟨_, _, rfl⟩
    rw [Reader.read, hread]
    cases result with
    | error fault => simp [Except.mapError, throw, throwThe, MonadExceptOf.throw]
    | ok w =>
      cases rest with
      | nil => simp [Except.mapError, pure, Except.pure]
      | cons token rest => simp [Except.mapError, throw, throwThe, MonadExceptOf.throw]

theorem Value.readable_of_parse {dialect : Dialect} {source : String} {v : Value}
    (h : Value.parse dialect source = .ok v) : Readable dialect maxReadDepth v := by
  obtain ⟨tokens, htokens, hread⟩ := Value.parse_eq_ok_iff.1 h
  exact Reader.readable_of_readFrom (Token.valid_of_ofSource htokens) .nil hread

end Lisplet
