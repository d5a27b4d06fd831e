import Lisplet.Proofs.Tiling

/-! Texts that cannot be cut into tokens. Tokens and trivia tile such a text up to a place where
neither goes on: a string that is not closed, a blank that is no gap, or a comment whose line ends
with a carriage return alone. -/
namespace Lisplet.Token
variable {dialect : Dialect}

inductive Stuck (dialect : Dialect) : List Char → ParseFault → Prop where
  | openString {text : List Char}
    (hopen : ∀ body after, Quotable body → text ≠ body ++ '"' :: after) :
    Stuck dialect ('"' :: text) .openString
  | blank {c : Char} {cs : List Char} (hblank : Text.isBlank c = true) (hgap : isGap c = false) :
    Stuck dialect (c :: cs) .strayCharacter
  | comment {text cs : List Char} (hcomments : dialect.comments = true)
    (htext : ∀ c ∈ text, isLineEnd c = false) (hreturn : ∀ after, cs ≠ '\n' :: after) :
    Stuck dialect (';' :: (text ++ '\r' :: cs)) .strayCharacter

/-- After the text before it, the rest of a source text consists of these tokens with trivia around
them, up to where it is stuck. -/
inductive TilesUpTo (dialect : Dialect) (stop : List Char) :
    List Char → List Char → List Token → Prop where
  | nil {before gap : List Char} (hgap : Trivia dialect stop gap) :
    TilesUpTo dialect stop before (gap ++ stop) []
  | cons {before gap rest : List Char} {lexeme : Lexeme} {tokens : List Token}
    (hgap : Trivia dialect (lexeme.source.toList ++ rest) gap) (hvalid : lexeme.Valid dialect)
    (hend : lexeme.EndsBefore dialect rest)
    (h : TilesUpTo dialect stop (before ++ gap ++ lexeme.source.toList) rest tokens) :
    TilesUpTo dialect stop before (gap ++ (lexeme.source.toList ++ rest))
      (⟨lexeme, (String.ofList (before ++ gap)).utf8ByteSize⟩ :: tokens)

def Bare (dialect : Dialect) (cs : List Char) : Prop :=
  ∀ offset, skipTrivia dialect cs offset = (cs, offset)

theorem bare_skipTrivia (cs : List Char) (offset : Nat) :
    Bare dialect (skipTrivia dialect cs offset).1 := by
  fun_induction skipTrivia dialect cs offset with
  | case1 offset => exact fun _ => by rw [skipTrivia]
  | case2 c cs offset hgap ih => exact ih
  | case3 c cs offset hgap hcomment rest hrest ih => exact ih
  | case4 c cs offset hgap hcomment hrest =>
    intro offset
    rw [skipTrivia, if_neg hgap, if_pos hcomment]
    split
    · next hsome =>
      rw [hrest] at hsome
      cases hsome
    · rfl
  | case5 c cs offset hgap hcomment =>
    intro offset
    rw [skipTrivia, if_neg hgap, if_neg hcomment]

theorem Bare.length_le {cs rest : List Char} {n m : Nat} (h : Bare dialect cs)
    (hskip : skipTrivia dialect cs n = skipTrivia dialect rest m) : cs.length ≤ rest.length := by
  have hle := length_skipTrivia dialect rest m
  rwa [← hskip, h n] at hle

theorem Bare.isGap_eq_false {c : Char} {cs : List Char} (h : Bare dialect (c :: cs)) :
    isGap c = false := by
  refine Bool.eq_false_iff.2 fun hgap => ?_
  have hskip : skipTrivia dialect (c :: cs) 0 = skipTrivia dialect cs 1 := by
    rw [skipTrivia, if_pos hgap]
  exact absurd (h.length_le hskip) (Nat.not_succ_le_self _)

theorem Bare.afterComment?_eq_none {cs : List Char} (h : Bare dialect (';' :: cs))
    (hcomments : dialect.comments = true) : afterComment? cs = none := by
  refine Option.eq_none_iff_forall_ne_some.2 fun rest hrest => ?_
  have hskip : skipTrivia dialect (';' :: cs) 0 =
      skipTrivia dialect rest (1 + byteCount (cs.takeWhile (!isLineEnd ·))) := by
    rw [skipTrivia, if_neg (by decide), if_pos (by simp [hcomments])]
    split
    · next rest' hrest' =>
      rw [hrest] at hrest'
      cases hrest'
      simp
    · next hnone =>
      rw [hrest] at hnone
      cases hnone
  have hle := length_afterComment? hrest
  exact absurd (Nat.le_trans (h.length_le hskip) hle) (Nat.not_succ_le_self _)

theorem afterComment?_eq_none_iff {cs : List Char} : afterComment? cs = none ↔
    ∃ text after, cs = text ++ '\r' :: after ∧ (∀ c ∈ text, isLineEnd c = false) ∧
      ∀ rest, after ≠ '\n' :: rest := by
  constructor
  · intro h
    have hsplit : cs = cs.takeWhile (!isLineEnd ·) ++ cs.dropWhile (!isLineEnd ·) :=
      List.takeWhile_append_dropWhile.symm
    unfold afterComment? at h
    split at h
    · cases h
    · next after hnewline hdrop =>
      rw [hdrop] at hsplit
      refine ⟨_, after, hsplit, fun c hc => ?_, fun rest heq => hnewline rest (heq ▸ rfl)⟩
      simpa using List.mem_takeWhile_imp hc
    · cases h
  · rintro ⟨text, after, rfl, htext, hnewline⟩
    have hall : ∀ c ∈ text, (!isLineEnd c) = true := by simpa using htext
    have hdrop : (text ++ '\r' :: after).dropWhile (!isLineEnd ·) = '\r' :: after := by
      rw [List.dropWhile_append_of_pos hall, List.dropWhile_cons_of_neg (by decide)]
    rw [afterComment?, hdrop]
    split
    · next heq =>
      cases heq
      exact absurd rfl (hnewline _)
    · rfl
    · next hreturn => exact absurd rfl (hreturn after)

theorem closeString?_eq_none_iff {text : List Char} : closeString? text [] = none ↔
    ∀ body after, Quotable body → text ≠ body ++ '"' :: after := by
  constructor
  · rintro h body after hbody rfl
    rw [closeString?_quotable hbody] at h
    cases h
  · intro hopen
    refine Option.eq_none_iff_forall_ne_some.2 fun result h => ?_
    obtain ⟨body, hbody, -, htext⟩ := closeString?_eq_some h
    exact hopen body _ hbody htext

theorem ne_of_isBlank {c : Char} (h : Text.isBlank c = true) :
    c ≠ '(' ∧ c ≠ ')' ∧ c ≠ '\'' ∧ c ≠ '"' ∧ c ≠ ';' := by
  refine ⟨?_, ?_, ?_, ?_, ?_⟩
  all_goals
    rintro rfl
    exact absurd h (by decide)

namespace Stuck
variable {cs : List Char} {fault : ParseFault}

theorem bare (h : Stuck dialect cs fault) : Bare dialect cs := by
  intro offset
  cases h with
  | openString hopen => simp [skipTrivia, isGap]
  | blank hblank hgap =>
    rw [skipTrivia, if_neg (by simp [hgap]), if_neg (by simp [ne_of_isBlank hblank])]
  | @comment text after hcomments htext hreturn =>
    have hnone : afterComment? (text ++ '\r' :: after) = none :=
      afterComment?_eq_none_iff.2 ⟨text, after, rfl, htext, hreturn⟩
    rw [skipTrivia, if_neg (by decide), if_pos (by simp [hcomments])]
    split
    · next hsome =>
      rw [hnone] at hsome
      cases hsome
    · rfl

theorem lexeme?_eq_none (h : Stuck dialect cs fault) : lexeme? dialect cs = none := by
  cases h with
  | openString hopen =>
    rw [lexeme?.eq_def]
    simp [closeString?_eq_none_iff.2 hopen]
  | @blank c cs hblank hgap =>
    have hc : dialect.isAtomChar c = false := by simp [Dialect.isAtomChar, hblank]
    obtain ⟨hopening, hclosing, hmark, hquote, -⟩ := ne_of_isBlank hblank
    rw [lexeme?.eq_def]
    split <;> grind
  | comment hcomments htext hreturn =>
    have hc : dialect.isAtomChar ';' = false := by simp [Dialect.isAtomChar, hcomments]
    rw [lexeme?.eq_def]
    simp [hc]

theorem ne_nil (h : Stuck dialect cs fault) : cs ≠ [] := by
  cases h <;> exact List.cons_ne_nil _ _

theorem faultAt_eq (h : Stuck dialect cs fault) : faultAt cs = fault := by
  cases h with
  | openString hopen => rfl
  | @blank c cs hblank hgap =>
    unfold faultAt
    split
    · next heq => exact absurd (List.cons.inj heq).1 (ne_of_isBlank hblank).2.2.2.1
    · rfl
  | comment hcomments htext hreturn => rfl

theorem of_lexeme? (hbare : Bare dialect cs) (hne : cs ≠ []) (h : lexeme? dialect cs = none) :
    Stuck dialect cs (faultAt cs) := by
  unfold lexeme? at h
  split at h
  · exact absurd rfl hne
  · cases h
  · cases h
  · cases h
  · next text =>
    rw [Option.map_eq_none_iff] at h
    exact .openString (closeString?_eq_none_iff.1 h)
  · next c rest hopening hclosing hmark hquote =>
    have hfault : faultAt (c :: rest) = .strayCharacter := by
      unfold faultAt
      split
      · next heq => exact absurd (List.cons.inj heq).1 hquote
      · rfl
    have hc : dialect.isAtomChar c = false := by simpa using h
    have hcases : Text.isBlank c = true ∨ dialect.comments = true ∧ c = ';' := by
      simp only [Dialect.isAtomChar, Bool.not_eq_false', Bool.or_eq_true, Bool.and_eq_true,
        beq_iff_eq] at hc
      grind
    rw [hfault]
    obtain hblank | ⟨hcomments, rfl⟩ := hcases
    · exact .blank hblank hbare.isGap_eq_false
    · obtain ⟨text, after, rfl, htext, hreturn⟩ :=
        afterComment?_eq_none_iff.1 (hbare.afterComment?_eq_none hcomments)
      exact .comment hcomments htext hreturn

end Stuck

theorem byteCount_append_source (cs : List Char) (lexeme : Lexeme) :
    byteCount (cs ++ lexeme.source.toList) = byteCount cs + lexeme.source.utf8ByteSize := by
  rw [byteCount_append, byteCount_eq lexeme.source.toList, String.ofList_toList]

theorem stuck_of_cut {source : String} {cs : List Char} {offset : Nat} {passed : List Token}
    {e : ParseError} (h : cut dialect source cs offset passed = .error e)
    (hbare : Bare dialect cs) : ∀ before gap, byteCount (before ++ gap) = offset →
      Trivia dialect cs gap → ∃ front stop tokens fault, cs = front ++ stop ∧
        TilesUpTo dialect stop before (gap ++ cs) tokens ∧ Stuck dialect stop fault ∧
        e = .ofFault fault source (byteCount (before ++ gap ++ front))
          (some (String.ofList (stop.take 10))) := by
  fun_induction cut dialect source cs offset passed with
  | case1 => cases h
  | case2 cs offset passed hempty hlexeme =>
    intro before gap hoffset hgap
    cases h
    have hne : cs ≠ [] := by simpa using hempty
    refine ⟨[], cs, [], faultAt cs, rfl, .nil hgap, .of_lexeme? hbare hne hlexeme, ?_⟩
    rw [List.append_nil, hoffset]
  | case3 cs offset passed hempty lexeme rest hlexeme next ih =>
    intro before gap hoffset hgap
    obtain ⟨hvalid, hend, rfl⟩ := lexeme?_eq_some hlexeme
    obtain ⟨inner, hinner, hrest, hnext⟩ :=
      trivia_skipTrivia dialect rest (offset + lexeme.source.utf8ByteSize)
    have hbytes : byteCount (before ++ gap ++ lexeme.source.toList ++ inner) = next.2 := by
      rw [byteCount_append, byteCount_append_source, hoffset]
      exact hnext.symm
    obtain ⟨front, stop, tokens, fault, hnextfront, htiles, hstuck, he⟩ :=
      ih h (bare_skipTrivia _ _) _ inner hbytes hinner
    refine ⟨lexeme.source.toList ++ inner ++ front, stop, ⟨lexeme, offset⟩ :: tokens, fault,
      ?_, ?_, hstuck, ?_⟩
    · rw [hrest, hnextfront]
      simp only [List.append_assoc]
    · rw [← hoffset, byteCount_eq]
      exact .cons hgap hvalid hend (hrest ▸ htiles)
    · rw [he]
      simp only [List.append_assoc]

theorem cut_of_tilesUpTo {before cs stop : List Char} {tokens : List Token} {fault : ParseFault}
    (h : TilesUpTo dialect stop before cs tokens) (hstuck : Stuck dialect stop fault)
    (source : String) (passed : List Token) : ∃ front, cs = front ++ stop ∧
      cut dialect source (skipTrivia dialect cs (byteCount before)).1
        (skipTrivia dialect cs (byteCount before)).2 passed =
          .error (.ofFault fault source (byteCount (before ++ front))
            (some (String.ofList (stop.take 10)))) := by
  induction h generalizing passed with
  | @nil before gap hgap =>
    refine ⟨gap, rfl, ?_⟩
    rw [skipTrivia_of_trivia hgap hstuck.bare, ← byteCount_append, cut,
      if_neg (by simpa using hstuck.ne_nil)]
    split
    · rw [hstuck.faultAt_eq]
    · next hsome =>
      rw [hstuck.lexeme?_eq_none] at hsome
      cases hsome
  | @cons before gap rest lexeme tokens hgap hvalid hend _ ih =>
    obtain ⟨front, hrest, hcut⟩ := ih (⟨lexeme, byteCount (before ++ gap)⟩ :: passed)
    refine ⟨gap ++ (lexeme.source.toList ++ front), ?_, ?_⟩
    · rw [hrest]
      simp only [List.append_assoc]
    · rw [skipTrivia_of_trivia hgap (skipTrivia_source hvalid), cut_source hvalid hend,
        ← byteCount_append, ← byteCount_append_source, hcut]
      simp only [List.append_assoc]

section
variable {source : String} {e : ParseError}

theorem stuck_of_ofSource (h : ofSource dialect source = .error e) : ∃ front stop tokens fault,
    source.toList = front ++ stop ∧ TilesUpTo dialect stop [] source.toList tokens ∧
      Stuck dialect stop fault ∧
      e = .ofFault fault source (byteCount front) (some (String.ofList (stop.take 10))) := by
  obtain ⟨gap, hgap, hcs, hoffset⟩ := trivia_skipTrivia dialect source.toList 0
  rw [Nat.zero_add] at hoffset
  obtain ⟨front, stop, tokens, fault, hfront, htiles, hstuck, he⟩ :=
    stuck_of_cut h (bare_skipTrivia _ _) [] gap hoffset.symm hgap
  rw [← hcs] at htiles
  refine ⟨gap ++ front, stop, tokens, fault, ?_, htiles, hstuck, he⟩
  rw [hcs, hfront, List.append_assoc]

theorem ofSource_of_stuck {front stop : List Char} {tokens : List Token} {fault : ParseFault}
    (hsource : source.toList = front ++ stop)
    (htiles : TilesUpTo dialect stop [] source.toList tokens) (hstuck : Stuck dialect stop fault) :
    ofSource dialect source =
      .error (.ofFault fault source (byteCount front) (some (String.ofList (stop.take 10)))) := by
  obtain ⟨front', hfront, hcut⟩ := cut_of_tilesUpTo htiles hstuck source []
  obtain rfl := List.append_cancel_right (hsource.symm.trans hfront)
  exact hcut

theorem Stuck.openString_of_tidy {front stop : List Char} {fault : ParseFault}
    (hblanks : ∀ c ∈ front ++ stop, Text.isBlank c = true → isGap c = true)
    (hreturns : dialect.comments = true → ∀ before after, front ++ stop = before ++ '\r' :: after →
      ∃ rest, after = '\n' :: rest)
    (h : Stuck dialect stop fault) : fault = .openString ∧ ∃ text, stop = '"' :: text ∧
      ∀ body after, Quotable body → text ≠ body ++ '"' :: after := by
  cases h with
  | @openString text hopen => exact ⟨rfl, text, rfl, hopen⟩
  | @blank c cs hblank hgap =>
    rw [hblanks c (by simp) hblank] at hgap
    cases hgap
  | @comment text cs hcomments htext hreturn =>
    obtain ⟨rest, hrest⟩ := hreturns hcomments (front ++ ';' :: text) cs (by simp)
    exact absurd hrest (hreturn rest)

end

/-- Cutting fails exactly where a text is stuck, and the error is about that place. If every blank
is a gap and every carriage return that could end a comment has its newline, it is the double quote
of a string that is not closed. -/
theorem ofSource_stuck (dialect : Dialect) (source : String) :
    (∀ e, ofSource dialect source = .error e ↔ ∃ front stop tokens fault,
      source.toList = front ++ stop ∧ TilesUpTo dialect stop [] source.toList tokens ∧
        Stuck dialect stop fault ∧
        e = .ofFault fault source (byteCount front) (some (String.ofList (stop.take 10)))) ∧
    ((∀ c ∈ source.toList, Text.isBlank c = true → isGap c = true) →
      (dialect.comments = true → ∀ before after, source.toList = before ++ '\r' :: after →
        ∃ rest, after = '\n' :: rest) →
      ∀ e, ofSource dialect source = .error e → e.kind = .incomplete ∧
        ∃ front text, source.toList = front ++ '"' :: text ∧
          (∀ body after, Quotable body → text ≠ body ++ '"' :: after) ∧
          e = .ofFault .openString source (byteCount front)
            (some (String.ofList (('"' :: text).take 10)))) := by
  refine ⟨fun e => ⟨stuck_of_ofSource, ?_⟩, fun hblanks hreturns e h => ?_⟩
  · rintro ⟨front, stop, tokens, fault, hsource, htiles, hstuck, rfl⟩
    exact ofSource_of_stuck hsource htiles hstuck
  · obtain ⟨front, stop, tokens, fault, hsource, -, hstuck, rfl⟩ := stuck_of_ofSource h
    rw [hsource] at hblanks hreturns
    obtain ⟨rfl, text, rfl, hopen⟩ := hstuck.openString_of_tidy hblanks hreturns
    exact ⟨rfl, front, text, hsource, hopen, rfl⟩

theorem ofSource_stuck_escape : ∃ e, ofSource {} "(a \"b\\\"" = .error e ∧
    e.kind = .incomplete ∧ ∃ front text, "(a \"b\\\"".toList = front ++ '"' :: text ∧
      ∀ body after, Quotable body → text ≠ body ++ '"' :: after := by
  have hcut : ofSource {} "(a \"b\\\"" =
      .error (.ofFault .openString "(a \"b\\\"" 3 (some "\"b\\\"")) := by
    decide +kernel
  have hreturns : ∀ before after, "(a \"b\\\"".toList = before ++ '\r' :: after →
      ∃ rest, after = '\n' :: rest := by
    intro before after h
    have hmem : '\r' ∈ "(a \"b\\\"".toList := by simp [h]
    exact absurd hmem (by decide)
  have hblanks : ∀ c ∈ "(a \"b\\\"".toList, Text.isBlank c = true → isGap c = true := by
    simp [Text.isBlank, isGap]
  obtain ⟨hkind, front, text, hsource, hopen, -⟩ :=
    (ofSource_stuck {} "(a \"b\\\"").2 hblanks (fun _ => hreturns) _ hcut
  exact ⟨_, hcut, hkind, front, text, hsource, hopen⟩

/-- A form feed ends an atom and is no gap, and a carriage return alone ends no comment. -/
theorem ofSource_form_feed :
    ofSource {} "a\x0cb" = .error (.ofFault .strayCharacter "a\x0cb" 1 (some "\x0cb")) ∧
    ofSource {} ";a\rb" = .error (.ofFault .strayCharacter ";a\rb" 0 (some ";a\rb")) ∧
    ParseFault.strayCharacter.kind ≠ .incomplete ∧ '"' ∉ "a\x0cb;a\rb".toList := by
  decide +kernel

end Lisplet.Token
