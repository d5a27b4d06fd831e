import Lisplet.Proofs.Lexemes

/-! Tokens and trivia tile a source text. Nothing of the text is lost, every token begins at its
offset and is as long as it can be, and what stands between tokens are blanks and comments. These
rules leave no choice: a text has the tokens that tile it and no others. -/
namespace Lisplet.Token

inductive AtLineEnd : List Char → Prop where
  | input : AtLineEnd []
  | newline (rest : List Char) : AtLineEnd ('\n' :: rest)
  | returnNewline (rest : List Char) : AtLineEnd ('\r' :: '\n' :: rest)

/-- Spaces, tabs, carriage returns, newlines and comments in front of a rest of the text. A comment
runs to the end of its line. -/
inductive Trivia (dialect : Dialect) (rest : List Char) : List Char → Prop where
  | nil : Trivia dialect rest []
  | gap {c : Char} {cs : List Char} (hgap : isGap c = true) (h : Trivia dialect rest cs) :
    Trivia dialect rest (c :: cs)
  | comment {text cs : List Char} (hcomments : dialect.comments = true)
    (htext : ∀ c ∈ text, isLineEnd c = false) (hend : AtLineEnd (cs ++ rest))
    (h : Trivia dialect rest cs) : Trivia dialect rest (';' :: (text ++ cs))

/-- After the text before it, the rest of a source text consists of these tokens with trivia around
them. The offset of a token is the number of bytes before its lexeme. -/
inductive Tiles (dialect : Dialect) : List Char → List Char → List Token → Prop where
  | nil {before gap : List Char} (hgap : Trivia dialect [] gap) : Tiles dialect before gap []
  | cons {before gap rest : List Char} {lexeme : Lexeme} {tokens : List Token}
    (hgap : Trivia dialect (lexeme.source.toList ++ rest) gap) (hvalid : lexeme.Valid dialect)
    (hend : lexeme.EndsBefore dialect rest)
    (h : Tiles dialect (before ++ gap ++ lexeme.source.toList) rest tokens) :
    Tiles dialect before (gap ++ (lexeme.source.toList ++ rest))
      (⟨lexeme, (String.ofList (before ++ gap)).utf8ByteSize⟩ :: tokens)

theorem byteCount_eq (cs : List Char) : byteCount cs = (String.ofList cs).utf8ByteSize := by
  have hfold (n : Nat) : cs.foldl (fun n c => n + c.utf8Size) n =
      n + (String.ofList cs).utf8ByteSize := by
    induction cs generalizing n with
    | nil => simp
    | cons c cs ih =>
      rw [List.foldl_cons, ih, String.ofList_cons, String.utf8ByteSize_append,
        String.utf8ByteSize_singleton, Nat.add_assoc]
  rw [byteCount, hfold, Nat.zero_add]

@[simp] theorem byteCount_cons (c : Char) (cs : List Char) :
    byteCount (c :: cs) = c.utf8Size + byteCount cs := by
  rw [byteCount_eq, byteCount_eq, String.ofList_cons, String.utf8ByteSize_append,
    String.utf8ByteSize_singleton]

@[simp] theorem byteCount_append (cs cs' : List Char) :
    byteCount (cs ++ cs') = byteCount cs + byteCount cs' := by
  rw [byteCount_eq, byteCount_eq, byteCount_eq, String.ofList_append, String.utf8ByteSize_append]

theorem utf8Size_of_isGap {c : Char} (h : isGap c = true) : c.utf8Size = 1 := by
  simp only [isGap, Bool.or_eq_true, beq_iff_eq] at h
  obtain ((rfl | rfl) | rfl) | rfl := h
  all_goals rfl

theorem comment_split {text rest : List Char} (htext : ∀ c ∈ text, isLineEnd c = false)
    (hrest : AtLineEnd rest) : (text ++ rest).takeWhile (!isLineEnd ·) = text ∧
      (text ++ rest).dropWhile (!isLineEnd ·) = rest := by
  have hall : ∀ c ∈ text, (!isLineEnd c) = true := by simpa using htext
  rw [List.takeWhile_append_of_pos hall, List.dropWhile_append_of_pos hall]
  cases hrest <;> simp [isLineEnd]

theorem afterComment?_append {text rest : List Char} (htext : ∀ c ∈ text, isLineEnd c = false)
    (hrest : AtLineEnd rest) : afterComment? (text ++ rest) = some rest := by
  rw [afterComment?, (comment_split htext hrest).2]
  cases hrest <;> rfl

theorem atLineEnd_of_afterComment? {cs rest : List Char} (h : afterComment? cs = some rest) :
    AtLineEnd rest ∧ cs = cs.takeWhile (!isLineEnd ·) ++ rest := by
  have hsplit : cs = cs.takeWhile (!isLineEnd ·) ++ cs.dropWhile (!isLineEnd ·) :=
    List.takeWhile_append_dropWhile.symm
  have hhead := List.head?_dropWhile_not (!isLineEnd ·) cs
  unfold afterComment? at h
  split at h
  · next rest' heq =>
    cases h
    rw [heq] at hsplit
    exact ⟨.returnNewline rest', hsplit⟩
  · cases h
  · next _ hreturn =>
    cases h
    refine ⟨?_, hsplit⟩
    cases hrest : cs.dropWhile (!isLineEnd ·) with
    | nil => exact .input
    | cons c rest =>
      rw [hrest] at hhead
      have hc : c = '\r' ∨ c = '\n' := by simpa [isLineEnd, or_iff_not_imp_left] using hhead
      obtain rfl | rfl := hc
      · exact absurd hrest (hreturn rest)
      · exact .newline rest

theorem trivia_skipTrivia (dialect : Dialect) (cs : List Char) (offset : Nat) :
    ∃ gap, Trivia dialect (skipTrivia dialect cs offset).1 gap ∧
      cs = gap ++ (skipTrivia dialect cs offset).1 ∧
      (skipTrivia dialect cs offset).2 = offset + byteCount gap := by
  fun_induction skipTrivia dialect cs offset with
  | case1 offset => exact ⟨[], .nil, rfl, rfl⟩
  | case2 c cs offset hgap ih =>
    obtain ⟨gap, htrivia, hcs, hoffset⟩ := ih
    refine ⟨c :: gap, .gap hgap htrivia, congrArg (c :: ·) hcs, ?_⟩
    rw [hoffset, byteCount_cons, utf8Size_of_isGap hgap, Nat.add_assoc]
  | case3 c cs offset hgap hcomment rest hrest ih =>
    obtain ⟨gap, htrivia, hcs, hoffset⟩ := ih
    obtain ⟨hend, hsplit⟩ := atLineEnd_of_afterComment? hrest
    simp only [Bool.and_eq_true, beq_iff_eq] at hcomment
    obtain ⟨hcomments, rfl⟩ := hcomment
    refine ⟨';' :: (cs.takeWhile (!isLineEnd ·) ++ gap), ?_, ?_, ?_⟩
    · refine .comment hcomments (fun c hc => ?_) (hcs ▸ hend) htrivia
      simpa using List.mem_takeWhile_imp hc
    · rw [List.cons_append, List.append_assoc, ← hcs, ← hsplit]
    · rw [hoffset, byteCount_cons, byteCount_append]
      have hsize : ';'.utf8Size = 1 := rfl
      omega
  | case4 c cs offset hgap hcomment hrest => exact ⟨[], .nil, rfl, rfl⟩
  | case5 c cs offset hgap hcomment => exact ⟨[], .nil, rfl, rfl⟩

variable {dialect : Dialect}

theorem skipTrivia_of_trivia {gap rest : List Char} (h : Trivia dialect rest gap)
    (hrest : ∀ offset, skipTrivia dialect rest offset = (rest, offset)) (offset : Nat) :
    skipTrivia dialect (gap ++ rest) offset = (rest, offset + byteCount gap) := by
  induction h generalizing offset with
  | nil => exact hrest offset
  | gap hgap _ ih =>
    rw [List.cons_append, skipTrivia, if_pos hgap, ih, byteCount_cons, utf8Size_of_isGap hgap,
      Nat.add_assoc]
  | @comment text cs hcomments htext hend _ ih =>
    have hrest := afterComment?_append htext hend
    rw [List.cons_append, List.append_assoc, skipTrivia, if_neg (by simp [isGap]),
      if_pos (by simp [hcomments])]
    split
    · next rest' hrest' =>
      rw [hrest] at hrest'
      cases hrest'
      rw [ih, (comment_split htext hend).1, byteCount_cons, byteCount_append]
      have hsize : ';'.utf8Size = 1 := rfl
      simp only [Prod.mk.injEq, true_and]
      omega
    · next hnone =>
      rw [hrest] at hnone
      cases hnone

theorem tiles_of_cut {source : String} {cs : List Char} {offset : Nat} {passed tokens : List Token}
    (h : cut dialect source cs offset passed = .ok tokens) :
    ∀ before gap, byteCount (before ++ gap) = offset → Trivia dialect cs gap →
      ∃ new, tokens = passed.reverse ++ new ∧ Tiles dialect before (gap ++ cs) new := by
  fun_induction cut dialect source cs offset passed with
  | case1 cs offset passed hempty =>
    intro before gap _ hgap
    cases h
    obtain rfl := List.isEmpty_iff.1 hempty
    rw [List.append_nil]
    exact ⟨[], (List.append_nil _).symm, .nil hgap⟩
  | case2 => cases h
  | case3 cs offset passed hempty lexeme rest hlexeme next ih =>
    intro before gap hoffset hgap
    obtain ⟨hvalid, hend, rfl⟩ := lexeme?_eq_some hlexeme
    obtain ⟨inner, hinner, hrest, hnext⟩ :=
      trivia_skipTrivia dialect rest (offset + lexeme.source.utf8ByteSize)
    have hbytes : byteCount (before ++ gap ++ lexeme.source.toList ++ inner) = next.2 := by
      rw [byteCount_append, byteCount_append, hoffset, byteCount_eq lexeme.source.toList,
        String.ofList_toList]
      exact hnext.symm
    obtain ⟨new, rfl, htiles⟩ := ih h _ inner hbytes hinner
    refine ⟨⟨lexeme, offset⟩ :: new, by simp, ?_⟩
    rw [← hoffset, byteCount_eq]
    exact .cons hgap hvalid hend (hrest ▸ htiles)

theorem cut_of_tiles {cs before : List Char} {tokens : List Token}
    (h : Tiles dialect before cs tokens) (source : String) (passed : List Token) :
    cut dialect source (skipTrivia dialect cs (byteCount before)).1
      (skipTrivia dialect cs (byteCount before)).2 passed = .ok (passed.reverse ++ tokens) := by
  induction h generalizing passed with
  | @nil before gap hgap =>
    have hskip := skipTrivia_of_trivia hgap (fun offset => by rw [skipTrivia]) (byteCount before)
    rw [List.append_nil] at hskip
    rw [hskip, cut]
    simp
  | @cons before gap rest lexeme tokens hgap hvalid hend _ ih =>
    rw [skipTrivia_of_trivia hgap (skipTrivia_source hvalid), cut_source hvalid hend]
    have hoffset : byteCount before + byteCount gap = byteCount (before ++ gap) :=
      (byteCount_append before gap).symm
    have hnext : byteCount (before ++ gap) + lexeme.source.utf8ByteSize =
        byteCount (before ++ gap ++ lexeme.source.toList) := by
      rw [byteCount_append (before ++ gap), byteCount_eq lexeme.source.toList, String.ofList_toList]
    rw [hoffset, hnext, ih, byteCount_eq, List.reverse_cons, List.append_assoc,
      List.singleton_append]

theorem tiles_of_ofSource {source : String} {tokens : List Token}
    (h : ofSource dialect source = .ok tokens) : Tiles dialect [] source.toList tokens := by
  obtain ⟨gap, hgap, hcs, hoffset⟩ := trivia_skipTrivia dialect source.toList 0
  rw [Nat.zero_add] at hoffset
  obtain ⟨new, rfl, htiles⟩ := tiles_of_cut h [] gap hoffset.symm hgap
  rwa [hcs]

theorem ofSource_of_tiles {source : String} {tokens : List Token}
    (h : Tiles dialect [] source.toList tokens) : ofSource dialect source = .ok tokens :=
  cut_of_tiles h source []

/-- The tokens of a text are those that tile it. -/
theorem ofSource_eq_ok_iff {source : String} {tokens : List Token} :
    ofSource dialect source = .ok tokens ↔ Tiles dialect [] source.toList tokens :=
  ⟨tiles_of_ofSource, ofSource_of_tiles⟩

end Lisplet.Token
