import Lisplet.Proofs.Batch
import Lisplet.Proofs.Tiling

/-! Programs put one after the other. A newline between two texts ends a comment or an atom at the
end of the first and nothing else, so the tokens of both are those of each, with the second moved
along. The reader does not look beyond the end of an expression. -/
namespace Lisplet

theorem Lexeme.EndsBefore.append_newline {dialect : Dialect} {lexeme : Lexeme} {rest : List Char}
    (h : lexeme.EndsBefore dialect rest) (after : List Char) :
    lexeme.EndsBefore dialect (rest ++ '\n' :: after) := by
  cases lexeme with
  | atom text =>
    cases rest with
    | nil =>
      intro c hc
      cases hc
      simp [Dialect.isAtomChar, Text.isBlank]
    | cons c rest => exact h
  | _ => trivial

namespace Token
variable {dialect : Dialect} {rest : List Char}

def shift (n : Nat) (token : Token) : Token := { token with offset := n + token.offset }

@[simp] theorem map_lexeme_shift (n : Nat) (tokens : List Token) :
    (tokens.map (shift n)).map lexeme = tokens.map lexeme := by
  rw [List.map_map]
  rfl

theorem AtLineEnd.append_newline {cs : List Char} (h : AtLineEnd cs) (after : List Char) :
    AtLineEnd (cs ++ '\n' :: after) := by
  cases h with
  | input => exact .newline after
  | newline rest => exact .newline _
  | returnNewline rest => exact .returnNewline _

theorem Trivia.append_newline {gap : List Char} (h : Trivia dialect rest gap)
    (after : List Char) : Trivia dialect (rest ++ '\n' :: after) gap := by
  induction h with
  | nil => exact .nil
  | gap hgap _ ih => exact .gap hgap ih
  | comment hcomments htext hend _ ih =>
    refine .comment hcomments htext ?_ ih
    rw [← List.append_assoc]
    exact hend.append_newline after

theorem Trivia.append {gap gap' : List Char} (h : Trivia dialect (gap' ++ rest) gap)
    (h' : Trivia dialect rest gap') : Trivia dialect rest (gap ++ gap') := by
  induction h with
  | nil => exact h'
  | gap hgap _ ih => exact .gap hgap ih
  | comment hcomments htext hend _ ih =>
    rw [List.cons_append, List.append_assoc]
    refine .comment hcomments htext ?_ ih
    rwa [List.append_assoc]

theorem Tiles.trivia_append {before gap cs : List Char} {tokens : List Token}
    (hgap : Trivia dialect cs gap) (h : Tiles dialect (before ++ gap) cs tokens) :
    Tiles dialect before (gap ++ cs) tokens := by
  cases h with
  | nil hgap' =>
    rw [← List.append_nil cs] at hgap
    exact .nil (hgap.append hgap')
  | @cons _ gap' rest lexeme tokens hgap' hvalid hend h =>
    rw [← List.append_assoc gap, List.append_assoc before]
    refine .cons (hgap.append hgap') hvalid hend ?_
    rwa [← List.append_assoc before]

theorem Tiles.append {before cs cs' : List Char} {tokens tokens' : List Token}
    (h : Tiles dialect before cs tokens)
    (h' : Tiles dialect (before ++ cs ++ ['\n']) cs' tokens') :
    Tiles dialect before (cs ++ '\n' :: cs') (tokens ++ tokens') := by
  induction h with
  | @nil before gap hgap =>
    have hnewline : Trivia dialect cs' (gap ++ ['\n']) :=
      Trivia.append (hgap.append_newline cs') (.gap rfl .nil)
    rw [List.append_assoc] at h'
    rw [List.append_cons]
    exact h'.trivia_append hnewline
  | @cons before gap rest lexeme tokens hgap hvalid hend _ ih =>
    have hgap' := hgap.append_newline cs'
    rw [List.append_assoc] at hgap'
    rw [List.append_assoc gap, List.append_assoc lexeme.source.toList, List.cons_append]
    refine .cons hgap' hvalid (hend.append_newline cs') (ih ?_)
    simpa only [List.append_assoc] using h'

theorem Tiles.shift {before cs : List Char} {tokens : List Token}
    (h : Tiles dialect before cs tokens) (first : List Char) :
    Tiles dialect (first ++ before) cs (tokens.map (shift (byteCount first))) := by
  induction h with
  | nil hgap => exact .nil hgap
  | @cons before gap rest lexeme tokens hgap hvalid hend _ ih =>
    have hoffset : byteCount first + (String.ofList (before ++ gap)).utf8ByteSize =
        (String.ofList (first ++ before ++ gap)).utf8ByteSize := by
      rw [← byteCount_eq, ← byteCount_eq, ← byteCount_append, List.append_assoc]
    rw [List.map_cons, Token.shift, hoffset]
    refine .cons hgap hvalid hend ?_
    simpa only [List.append_assoc] using ih

theorem ofSource_append {a b : String} {tokens tokens' : List Token}
    (ha : ofSource dialect a = .ok tokens) (hb : ofSource dialect b = .ok tokens') :
    ofSource dialect (a ++ "\n" ++ b) =
      .ok (tokens ++ tokens'.map (shift (byteCount (a.toList ++ ['\n'])))) := by
  have htiles : Tiles dialect [] (a ++ "\n" ++ b).toList
      (tokens ++ tokens'.map (shift (byteCount (a.toList ++ ['\n'])))) := by
    have hsecond := (tiles_of_ofSource hb).shift (a.toList ++ ['\n'])
    rw [List.append_nil] at hsecond
    rw [String.toList_append, String.toList_append, List.append_assoc]
    exact (tiles_of_ofSource ha).append hsecond
  exact cut_of_tiles htiles _ []

end Token

namespace Reader
variable {source source' : String} {tokens tokens' : List Token} {vs vs' : List Value}

theorem collect_append_of_ok (h : collect source tokens [] = vs.map .ok)
    (rest : List Token) : collect source' (tokens ++ rest) [] =
      vs.map .ok ++ collect source' rest [] := by
  obtain ⟨pieces, rfl, hpieces, rfl⟩ := collect_eq_map_ok_iff.1 h
  clear h
  induction pieces with
  | nil => rfl
  | cons piece pieces ih =>
    obtain ⟨hpiece, hpieces⟩ := List.forall_mem_cons.1 hpieces
    rw [List.flatMap_cons, List.append_assoc, collect_of_derives hpiece, ih hpieces]
    rfl

theorem collect_shift (h : collect source tokens [] = vs.map .ok) (n : Nat) :
    collect source' (tokens.map (Token.shift n)) [] = vs.map .ok := by
  obtain ⟨pieces, rfl, hpieces, rfl⟩ := collect_eq_map_ok_iff.1 h
  refine collect_eq_map_ok_iff.2
    ⟨pieces.map fun piece => (piece.1.map (Token.shift n), piece.2), ?_, ?_, ?_⟩
  · rw [List.map_flatMap, List.flatMap_map]
  · rw [List.forall_mem_map]
    intro piece hpiece
    rw [Derives, Token.map_lexeme_shift]
    exact hpieces piece hpiece
  · rw [List.map_map]
    rfl

end Reader

namespace Session
open Run

theorem runItems_passed (fuel : Nat) (items : List (Except ParseError Value))
    (passed extra : List (Except Error Value)) : runItems fuel items (passed ++ extra) =
      do return extra.reverse ++ (← runItems fuel items passed) := by
  induction items generalizing passed with
  | nil => simp [runItems]
  | cons item items ih =>
    simp only [runItems_cons, ← List.cons_append, ih, bind_assoc]

theorem runItems_append (fuel : Nat) (items items' : List (Except ParseError Value))
    (passed : List (Except Error Value)) : runItems fuel (items ++ items') passed =
      do return (← runItems fuel items passed) ++ (← runItems fuel items' []) := by
  induction items generalizing passed with
  | nil =>
    rw [List.nil_append, ← List.nil_append passed, runItems_passed]
    simp [runItems]
  | cons item items ih =>
    simp only [List.cons_append, runItems_cons, ih, bind_assoc]

/-- Two programs with a newline between them are one, and it is evaluated as the two are one after
the other. -/
theorem run_append_newline {dialect : Dialect} {a b : String} {as bs : List Value}
    (ha : Value.parseAll dialect a = .ok as) (hb : Value.parseAll dialect b = .ok bs) :
    Value.parseAll dialect (a ++ "\n" ++ b) = .ok (as ++ bs) ∧
      ∀ fuel, run fuel dialect (a ++ "\n" ++ b) =
        do return (← run fuel dialect a) ++ (← run fuel dialect b) := by
  obtain ⟨tokens, htokens, hcollect⟩ := Value.parseAll_eq_ok_iff.1 ha
  obtain ⟨tokens', htokens', hcollect'⟩ := Value.parseAll_eq_ok_iff.1 hb
  have happend := Token.ofSource_append htokens htokens'
  have hboth : Reader.collect (a ++ "\n" ++ b)
      (tokens ++ tokens'.map (Token.shift (Token.byteCount (a.toList ++ ['\n'])))) [] =
        (as ++ bs).map .ok := by
    rw [Reader.collect_append_of_ok hcollect, Reader.collect_shift hcollect', List.map_append]
  refine ⟨Value.parseAll_eq_ok_iff.2 ⟨_, happend, hboth⟩, fun fuel => ?_⟩
  rw [run_of_tokens happend, hboth, List.map_append, runItems_append, run_of_tokens htokens,
    run_of_tokens htokens', hcollect, hcollect']

theorem run_append_newline_comment :
    Value.parseAll {} ("(if) ; a" ++ "\n" ++ "'b") =
      .ok ([.list [.symbol "if"]] ++ [(Value.symbol "b").quoted]) ∧
    run 9 {} ("(if) ; a" ++ "\n" ++ "'b") (start .empty ⟨[], ""⟩ .empty) =
      .ok [.error (.malformed .ite), .ok (.symbol "b")] (start .empty ⟨[], ""⟩ .empty) := by
  have htokens : Token.ofSource {} "(if) ; a" =
      .ok [⟨.opening, 0⟩, ⟨.atom "if", 1⟩, ⟨.closing, 3⟩] := by
    decide +kernel
  have htokens' : Token.ofSource {} "'b" = .ok [⟨.quoteMark, 0⟩, ⟨.atom "b", 1⟩] := by
    decide +kernel
  have hcollect : Reader.collect "(if) ; a" [⟨.opening, 0⟩, ⟨.atom "if", 1⟩, ⟨.closing, 3⟩] [] =
      [Value.list [.symbol "if"]].map .ok := by
    rw [Reader.collect_of_ok rfl, Reader.collect]
    rfl
  have hcollect' : Reader.collect "'b" [⟨.quoteMark, 0⟩, ⟨.atom "b", 1⟩] [] =
      [(Value.symbol "b").quoted].map .ok := by
    rw [Reader.collect_of_ok rfl, Reader.collect]
    rfl
  obtain ⟨hparse, hrun⟩ := run_append_newline
    (Value.parseAll_eq_ok_iff.2 ⟨_, htokens, hcollect⟩)
    (Value.parseAll_eq_ok_iff.2 ⟨_, htokens', hcollect'⟩)
  refine ⟨hparse, ?_⟩
  rw [hrun 9, run_of_tokens htokens, run_of_tokens htokens', hcollect, hcollect']
  rfl

end Session

end Lisplet
