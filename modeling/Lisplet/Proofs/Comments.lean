import Lisplet.Proofs.TokenFaults

/-! Comments are blanks. With spaces over its comments a text has the same tokens at the same places
for a reader that knows no comments. In a string literal a semicolon starts none: a text that has
its semicolons there is cut alike with comments and without. -/
namespace Lisplet

namespace Dialect
variable (dialect : Dialect)

theorem isAtomChar_of_ne {c : Char} (h : c ≠ ';') :
    dialect.isAtomChar c = isAtomChar {} c := by
  have hmark (b : Bool) : (b && c == ';') = false := by simp [h]
  rw [isAtomChar, isAtomChar, hmark, hmark]

theorem isAtomChar_of_comments {c : Char} (h : isAtomChar {} c = true) :
    dialect.isAtomChar c = true := by
  simp only [isAtomChar, Bool.not_eq_true', Bool.or_eq_false_iff, Bool.and_eq_false_iff] at h ⊢
  simp_all

theorem isAtomChar_of_isGap {c : Char} (h : Token.isGap c = true) :
    dialect.isAtomChar c = false :=
  Bool.eq_false_iff.2 fun hc => by simp [Token.isGap_of_isAtomChar hc] at h

end Dialect

namespace Token
variable {dialect : Dialect}

/-! Texts whose semicolons stand in string literals. -/

/-- Every semicolon of the text is inside a string literal, closed or not. -/
inductive Sheltered : List Char → Prop where
  | nil : Sheltered []
  | plain {c : Char} {cs : List Char} (hmark : c ≠ ';') (hquote : c ≠ '"') (h : Sheltered cs) :
    Sheltered (c :: cs)
  | string {text rest : List Char} (htext : Quotable text) (h : Sheltered rest) :
    Sheltered ('"' :: (text ++ '"' :: rest))
  | unclosed {text : List Char}
    (hopen : ∀ body after, Quotable body → text ≠ body ++ '"' :: after) : Sheltered ('"' :: text)

namespace Sheltered
variable {cs rest : List Char}

theorem ne_of_cons {c : Char} (h : Sheltered (c :: cs)) : c ≠ ';' := by
  cases h with
  | plain hmark => exact hmark
  | string | unclosed => decide

theorem of_cons {c : Char} (h : Sheltered (c :: cs)) (hquote : c ≠ '"') : Sheltered cs := by
  cases h with
  | plain _ _ h => exact h
  | string | unclosed => exact absurd rfl hquote

theorem of_append (hquote : ∀ c ∈ cs, c ≠ '"') (h : Sheltered (cs ++ rest)) : Sheltered rest := by
  induction cs with
  | nil => exact h
  | cons c cs ih =>
    obtain ⟨hc, hcs⟩ := List.forall_mem_cons.1 hquote
    exact ih hcs (h.of_cons hc)

theorem of_closeString? {text : List Char} (h : Sheltered ('"' :: cs))
    (hclose : closeString? cs [] = some (text, rest)) : Sheltered rest := by
  cases h with
  | plain _ hquote => exact absurd rfl hquote
  | string htext h =>
    rw [closeString?_quotable htext] at hclose
    cases hclose
    exact h
  | unclosed hopen =>
    rw [closeString?_eq_none_iff.2 hopen] at hclose
    cases hclose

theorem append (hplain : ∀ c ∈ cs, c ≠ ';' ∧ c ≠ '"') (h : Sheltered rest) :
    Sheltered (cs ++ rest) := by
  induction cs with
  | nil => exact h
  | cons c cs ih =>
    obtain ⟨⟨hmark, hquote⟩, hplain⟩ := List.forall_mem_cons.1 hplain
    exact .plain hmark hquote (ih hplain)

theorem takeWhile_dropWhile (h : Sheltered cs) (dialect : Dialect) :
    cs.takeWhile dialect.isAtomChar = cs.takeWhile (Dialect.isAtomChar {}) ∧
      cs.dropWhile dialect.isAtomChar = cs.dropWhile (Dialect.isAtomChar {}) := by
  induction cs with
  | nil => exact ⟨rfl, rfl⟩
  | cons c cs ih =>
    rw [List.takeWhile_cons, List.takeWhile_cons, List.dropWhile_cons, List.dropWhile_cons,
      dialect.isAtomChar_of_ne h.ne_of_cons]
    split
    · next hc =>
      obtain ⟨htake, hdrop⟩ := ih (h.of_cons (Dialect.ne_of_isAtomChar hc).2.2.2)
      exact ⟨congrArg (c :: ·) htake, hdrop⟩
    · exact ⟨rfl, rfl⟩

theorem lexeme?_eq (h : Sheltered cs) (dialect : Dialect) : lexeme? dialect cs = lexeme? {} cs := by
  unfold lexeme?
  split
  · rfl
  · rfl
  · rfl
  · rfl
  · rfl
  · next c rest _ _ _ hquote =>
    obtain ⟨htake, hdrop⟩ := (h.of_cons hquote).takeWhile_dropWhile dialect
    rw [htake, hdrop, dialect.isAtomChar_of_ne h.ne_of_cons]

theorem of_source_append {lexeme : Lexeme} (h : Sheltered (lexeme.source.toList ++ rest))
    (hvalid : lexeme.Valid dialect) : Sheltered rest := by
  cases lexeme with
  | opening | closing | quoteMark => exact h.of_cons (by decide)
  | string text =>
    have hsource : (Lexeme.string text).source.toList ++ rest =
        '"' :: (text.toList ++ '"' :: rest) := by simp [Lexeme.source]
    rw [hsource] at h
    exact h.of_closeString? (closeString?_quotable hvalid [] rest)
  | atom text => exact h.of_append fun c hc => (Dialect.ne_of_isAtomChar (hvalid.2 c hc)).2.2.2

theorem skipTrivia_eq (h : Sheltered cs) (dialect : Dialect) (offset : Nat) :
    skipTrivia dialect cs offset = skipTrivia {} cs offset ∧
      Sheltered (skipTrivia {} cs offset).1 := by
  induction cs generalizing offset with
  | nil =>
    rw [skipTrivia, skipTrivia]
    exact ⟨rfl, h⟩
  | cons c cs ih =>
    have hmark (b : Bool) : (b && c == ';') = false := by simp [h.ne_of_cons]
    rw [skipTrivia, skipTrivia]
    simp only [hmark, Bool.false_eq_true, if_false]
    split
    · next hgap =>
      refine ih (h.of_cons ?_) _
      rintro rfl
      cases hgap
    · exact ⟨rfl, h⟩

theorem cut_eq (h : Sheltered cs) (dialect : Dialect) (source : String) (offset : Nat)
    (passed : List Token) :
    cut dialect source cs offset passed = cut {} source cs offset passed := by
  fun_induction cut {} source cs offset passed with
  | case1 cs offset passed hempty => rw [cut, if_pos hempty]
  | case2 cs offset passed hempty hlexeme =>
    rw [cut, if_neg hempty]
    split
    · rfl
    · next hsome =>
      rw [h.lexeme?_eq, hlexeme] at hsome
      cases hsome
  | case3 cs offset passed hempty lexeme rest hlexeme next ih =>
    obtain ⟨hvalid, -, rfl⟩ := lexeme?_eq_some hlexeme
    obtain ⟨hskip, hnext⟩ := (h.of_source_append hvalid).skipTrivia_eq dialect
      (offset + lexeme.source.utf8ByteSize)
    rw [cut, if_neg hempty]
    split
    · next hnone =>
      rw [h.lexeme?_eq, hlexeme] at hnone
      cases hnone
    · next hsome =>
      rw [h.lexeme?_eq, hlexeme] at hsome
      cases hsome
      dsimp only
      rw [hskip]
      exact ih hnext

theorem ofSource_eq {source : String} (h : Sheltered source.toList) (dialect : Dialect) :
    ofSource dialect source = ofSource {} source := by
  obtain ⟨hskip, hstart⟩ := h.skipTrivia_eq dialect 0
  unfold ofSource
  rw [hskip]
  exact hstart.cut_eq dialect source _ []

end Sheltered

section
variable (hcomments : dialect.comments = false)
include hcomments

end

/-! Comments written over. -/

/-- The trivia in front of a text, with a space for every byte of a comment, and what follows. -/
def blankTrivia : List Char → List Char × List Char
  | [] => ([], [])
  | c :: cs =>
    if isGap c then
      let (gap, rest) := blankTrivia cs
      (c :: gap, rest)
    else if c == ';' then
      match _h : afterComment? cs with
      | some rest =>
        let (gap, rest) := blankTrivia rest
        (List.replicate (byteCount (c :: cs.takeWhile (!isLineEnd ·))) ' ' ++ gap, rest)
      | none => ([], c :: cs)
    else ([], c :: cs)
termination_by cs => cs.length
decreasing_by
  · simp
  · have := length_afterComment? _h
    simp; omega

theorem length_blankTrivia (cs : List Char) : (blankTrivia cs).2.length ≤ cs.length := by
  fun_induction blankTrivia cs with
  | case1 => simp
  | case2 c cs hgap gap rest hblank ih =>
    rw [hblank] at ih
    exact Nat.le_succ_of_le ih
  | case3 c cs hgap hmark rest hrest gap after hblank ih =>
    have hle := length_afterComment? hrest
    rw [hblank] at ih
    exact Nat.le_succ_of_le (Nat.le_trans ih hle)
  | case4 => simp
  | case5 => simp

/-- A text with a space for every byte of a comment. A comment begins with a semicolon among the
trivia in front of a token or at the end. -/
def blankComments (cs : List Char) : List Char :=
  (blankTrivia cs).1 ++
    match _h : lexeme? {} (blankTrivia cs).2 with
    | none => (blankTrivia cs).2
    | some (lexeme, rest) => lexeme.source.toList ++ blankComments rest
termination_by cs.length
decreasing_by
  have := length_lexeme? _h
  have := length_blankTrivia cs
  omega

theorem blankComments_eq {cs blanks rest : List Char} (h : blankTrivia cs = (blanks, rest)) :
    blankComments cs = blanks ++ match lexeme? {} rest with
      | none => rest
      | some (lexeme, rest) => lexeme.source.toList ++ blankComments rest := by
  rw [blankComments]
  split <;> simp_all

theorem Bare.blankTrivia_eq {cs : List Char} (h : Bare {} cs) : blankTrivia cs = ([], cs) := by
  cases cs with
  | nil => rw [blankTrivia]
  | cons c cs =>
    rw [blankTrivia, if_neg (Bool.eq_false_iff.1 h.isGap_eq_false)]
    split
    · next hmark =>
      obtain rfl := beq_iff_eq.1 hmark
      split
      · next hsome =>
        rw [h.afterComment?_eq_none rfl] at hsome
        cases hsome
      · rfl
    · rfl

theorem byteCount_spaces (n : Nat) : byteCount (List.replicate n ' ') = n := by
  induction n with
  | zero => rfl
  | succ n ih =>
    rw [List.replicate_succ, byteCount_cons, ih, Nat.add_comm]
    rfl

theorem blankTrivia_of_trivia {gap rest : List Char} (h : Trivia {} rest gap)
    (hrest : Bare {} rest) : ∃ blanks, blankTrivia (gap ++ rest) = (blanks, rest) ∧
      byteCount blanks = byteCount gap ∧ ∀ c ∈ blanks, isGap c = true := by
  induction h with
  | nil => exact ⟨[], hrest.blankTrivia_eq, rfl, by simp⟩
  | @gap c cs hgap _ ih =>
    obtain ⟨blanks, hblanks, hbytes, hgaps⟩ := ih
    refine ⟨c :: blanks, ?_, ?_, List.forall_mem_cons.2 ⟨hgap, hgaps⟩⟩
    · rw [List.cons_append, blankTrivia, if_pos hgap, hblanks]
    · rw [byteCount_cons, byteCount_cons, hbytes]
  | @comment text cs hcomments htext hend _ ih =>
    obtain ⟨blanks, hblanks, hbytes, hgaps⟩ := ih
    have hafter := afterComment?_append htext hend
    refine ⟨List.replicate (byteCount (';' :: text)) ' ' ++ blanks, ?_, ?_, ?_⟩
    · rw [List.cons_append, List.append_assoc, blankTrivia, if_neg (by decide),
        if_pos (beq_self_eq_true ';')]
      split
      · next hsome =>
        rw [hafter] at hsome
        cases hsome
        rw [hblanks, (comment_split htext hend).1]
      · next hnone =>
        rw [hafter] at hnone
        cases hnone
    · rw [byteCount_append, byteCount_spaces, hbytes, ← byteCount_append, List.cons_append]
    · intro c hc
      obtain hc | hc := List.mem_append.1 hc
      · rw [List.eq_of_mem_replicate hc]
        rfl
      · exact hgaps c hc

theorem Trivia.of_gaps {gap : List Char} (h : ∀ c ∈ gap, isGap c = true) (rest : List Char) :
    Trivia dialect rest gap := by
  induction gap with
  | nil => exact .nil
  | cons c cs ih =>
    obtain ⟨hc, hcs⟩ := List.forall_mem_cons.1 h
    exact .gap hc (ih hcs)

theorem valid_of_comments {lexeme : Lexeme} (h : lexeme.Valid {}) : lexeme.Valid dialect := by
  cases lexeme with
  | atom text => exact ⟨h.1, fun c hc => dialect.isAtomChar_of_comments (h.2 c hc)⟩
  | _ => exact h

theorem eq_nil_of_byteCount {cs : List Char} (h : byteCount cs = 0) : cs = [] := by
  cases cs with
  | nil => rfl
  | cons c cs =>
    have hpos := c.utf8Size_pos
    rw [byteCount_cons] at h
    omega

theorem endsAtom_source {lexeme : Lexeme} {rest : List Char} (hvalid : lexeme.Valid {})
    (h : Dialect.EndsAtom {} (lexeme.source.toList ++ rest)) (rest' : List Char) :
    dialect.EndsAtom (lexeme.source.toList ++ rest') := by
  cases lexeme with
  | opening | closing | quoteMark | string text =>
    intro c hc
    obtain rfl : _ = c := by simpa [Lexeme.source] using hc
    simp [Dialect.isAtomChar]
  | atom text =>
    obtain ⟨c, tail, htext⟩ := List.exists_cons_of_ne_nil hvalid.1
    have hends := h c (by simp [Lexeme.source, htext])
    rw [hvalid.2 c (by simp [htext])] at hends
    cases hends

theorem Tiles.blankComments {before cs : List Char} {tokens : List Token}
    (h : Tiles {} before cs tokens) : ∀ before', byteCount before' = byteCount before →
      Tiles dialect before' (Token.blankComments cs) tokens ∧
        (Dialect.EndsAtom {} cs → dialect.EndsAtom (Token.blankComments cs)) := by
  have hends {blanks rest : List Char} (hgaps : ∀ c ∈ blanks, isGap c = true)
      (hrest : blanks = [] → dialect.EndsAtom rest) : dialect.EndsAtom (blanks ++ rest) := by
    cases blanks with
    | nil => exact hrest rfl
    | cons c blanks =>
      intro x hx
      cases hx
      exact dialect.isAtomChar_of_isGap (hgaps c List.mem_cons_self)
  induction h with
  | @nil before gap hgap =>
    intro before' hbytes
    obtain ⟨blanks, hblanks, -, hgaps⟩ :=
      blankTrivia_of_trivia hgap fun offset => by rw [skipTrivia]
    rw [List.append_nil] at hblanks
    have heq : Token.blankComments gap = blanks ++ [] := blankComments_eq hblanks
    rw [heq]
    refine ⟨?_, fun _ => hends hgaps fun _ c hc => ?_⟩
    · rw [List.append_nil]
      exact .nil (.of_gaps hgaps [])
    · cases hc
  | @cons before gap rest lexeme tokens hgap hvalid hend _ ih =>
    intro before' hbytes
    obtain ⟨blanks, hblanks, hsame, hgaps⟩ :=
      blankTrivia_of_trivia hgap (skipTrivia_source hvalid)
    have heq := blankComments_eq hblanks
    rw [lexeme?_source hvalid hend] at heq
    have hplace : byteCount (before' ++ blanks) = byteCount (before ++ gap) := by
      rw [byteCount_append, byteCount_append, hbytes, hsame]
    obtain ⟨htiles, hafter⟩ := ih (before' ++ blanks ++ lexeme.source.toList) (by
      rw [byteCount_append, hplace, ← byteCount_append])
    rw [heq, ← byteCount_eq, ← hplace, byteCount_eq]
    refine ⟨.cons (.of_gaps hgaps _) (valid_of_comments hvalid) ?_ htiles, fun hfront => ?_⟩
    · cases lexeme with
      | atom text => exact hafter hend
      | _ => trivial
    · refine hends hgaps fun hnone => ?_
      obtain rfl : gap = [] := eq_nil_of_byteCount (by rw [← hsame, hnone]; rfl)
      exact endsAtom_source hvalid hfront _

theorem Sheltered.blankTrivia_append {cs : List Char} (h : Sheltered cs) :
    (blankTrivia cs).1 ++ (blankTrivia cs).2 = cs ∧ Sheltered (blankTrivia cs).2 := by
  induction cs with
  | nil =>
    rw [blankTrivia]
    exact ⟨rfl, h⟩
  | cons c cs ih =>
    rw [blankTrivia]
    split
    · next hgap =>
      have hquote : c ≠ '"' := by
        rintro rfl
        cases hgap
      obtain ⟨happend, hrest⟩ := ih (h.of_cons hquote)
      exact ⟨congrArg (c :: ·) happend, hrest⟩
    · rw [if_neg (by simpa using h.ne_of_cons)]
      exact ⟨rfl, h⟩

theorem Sheltered.blankComments_eq_self {cs : List Char} (h : Sheltered cs) :
    Token.blankComments cs = cs := by
  fun_induction Token.blankComments cs with
  | case1 cs ih =>
    obtain ⟨happend, hafter⟩ := h.blankTrivia_append
    split
    · exact happend
    · next lexeme rest hlexeme =>
      obtain ⟨hvalid, -, hrest⟩ := lexeme?_eq_some hlexeme
      rw [hrest] at hafter happend
      rw [ih lexeme rest hlexeme (hafter.of_source_append hvalid), happend]

/-- Comments are trivia. A text that can be cut with comments has the same tokens at the same bytes
without them, once spaces stand over its comments. If all of its semicolons are in string literals
it has none, and it is cut alike with them and without. -/
theorem ofSource_blankComments (source : String) :
    (∀ tokens, ofSource {} source = .ok tokens →
      ofSource ⟨false⟩ (String.ofList (blankComments source.toList)) = .ok tokens) ∧
    (Sheltered source.toList → blankComments source.toList = source.toList ∧
      ofSource ⟨false⟩ source = ofSource {} source) := by
  refine ⟨fun tokens h => ?_, fun h => ⟨h.blankComments_eq_self, h.ofSource_eq ⟨false⟩⟩⟩
  refine ofSource_of_tiles ?_
  rw [String.toList_ofList]
  exact ((tiles_of_ofSource h).blankComments [] rfl).1

/-- Comments that touch an atom, a string with a semicolon and a line end of either kind; one of
them holds a character of two bytes. -/
theorem ofSource_blankComments_touching :
    ofSource {} "a;b\r\n(\"x;y\";é\n)" =
      .ok [⟨.atom "a", 0⟩, ⟨.opening, 5⟩, ⟨.string "x;y", 6⟩, ⟨.closing, 15⟩] ∧
    String.ofList (blankComments "a;b\r\n(\"x;y\";é\n)".toList) = "a  \r\n(\"x;y\"   \n)" ∧
    ofSource ⟨false⟩ "a  \r\n(\"x;y\"   \n)" =
      .ok [⟨.atom "a", 0⟩, ⟨.opening, 5⟩, ⟨.string "x;y", 6⟩, ⟨.closing, 15⟩] ∧
    Sheltered "\"x;y\"".toList ∧ ofSource ⟨false⟩ "\"x;y\"" = ofSource {} "\"x;y\"" := by
  have htokens : ofSource {} "a;b\r\n(\"x;y\";é\n)" =
      .ok [⟨.atom "a", 0⟩, ⟨.opening, 5⟩, ⟨.string "x;y", 6⟩, ⟨.closing, 15⟩] := by
    decide +kernel
  have hblank : String.ofList (blankComments "a;b\r\n(\"x;y\";é\n)".toList) =
      "a  \r\n(\"x;y\"   \n)" := by
    decide +kernel
  have hplain := (ofSource_blankComments "a;b\r\n(\"x;y\";é\n)").1 _ htokens
  rw [hblank] at hplain
  have htext : Quotable ['x', ';', 'y'] :=
    .plain (by decide) (by decide) (.plain (by decide) (by decide)
      (.plain (by decide) (by decide) .nil))
  have hsheltered : Sheltered "\"x;y\"".toList := .string htext .nil
  exact ⟨htokens, hblank, hplain, hsheltered,
    ((ofSource_blankComments "\"x;y\"").2 hsheltered).2⟩

end Token

end Lisplet
