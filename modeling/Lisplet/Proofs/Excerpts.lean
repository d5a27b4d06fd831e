import Lisplet.Proofs.Streaming
import Lisplet.Proofs.TokenFaults

/-! The text shown with an error of the reader. The byte offset of the error lies between two
characters, and the text shown is cut from the source around that place, so that what is wrong can
be seen to begin in it. -/
namespace Lisplet

namespace Text

theorem charsBefore?_append (before after : List Char) (passed : Nat) :
    charsBefore? (before ++ after) (Token.byteCount before) passed =
      some (passed + before.length) := by
  induction before generalizing passed with
  | nil => exact charsBefore?_zero after passed
  | cons c before ih =>
    obtain ⟨n, hn⟩ := Nat.exists_eq_add_of_lt
      (Nat.add_pos_left c.utf8Size_pos (Token.byteCount before))
    have hsize : Token.byteCount (c :: before) = n + 1 := by
      rw [Token.byteCount_cons, hn, Nat.zero_add]
    have hrest : n + 1 - c.utf8Size = Token.byteCount before := by omega
    rw [List.cons_append, hsize, charsBefore?, if_pos (by omega), hrest, ih, List.length_cons]
    congr 1
    omega

/-- A text is cut before and after what is shown of it at a place between two parts of it: at most a
hundred characters, and no fewer if any are cut off behind, from the twentieth before the place. -/
structure Window (before after front shown back : List Char) : Prop where
  append_eq : before ++ after = front ++ (shown ++ back)
  length_front : front.length = before.length - 20
  length_shown_le : shown.length ≤ 100
  length_shown : back ≠ [] → shown.length = 100

def displayed (front shown back : List Char) : String :=
  String.ofList <| onOneLine <|
    (if front = [] then [] else cutMark) ++ shown ++ (if back = [] then [] else cutMark)

namespace Window
variable {before after front shown back : List Char}

theorem exists_window (before after : List Char) :
    ∃ front shown back, Window before after front shown back := by
  refine ⟨(before ++ after).take (before.length - 20),
    ((before ++ after).drop (before.length - 20)).take 100,
    ((before ++ after).drop (before.length - 20)).drop 100, ?_, ?_, ?_, fun hback => ?_⟩
  · rw [List.take_append_drop, List.take_append_drop]
  · rw [List.length_take, List.length_append]
    omega
  · exact List.length_take_le _ _
  · rw [List.length_take]
    have hlt : 100 < ((before ++ after).drop (before.length - 20)).length :=
      Nat.lt_of_not_le fun hle => hback (List.drop_eq_nil_of_le hle)
    omega

theorem excerpt_eq (h : Window before after front shown back) {source : String}
    (hsource : source.toList = before ++ after) :
    excerpt source (Token.byteCount before) = displayed front shown back := by
  have hchars : charsBefore? source.toList (Token.byteCount before) 0 = some before.length := by
    rw [hsource, charsBefore?_append, Nat.zero_add]
  have hdrop : source.toList.drop front.length = shown ++ back := by
    rw [hsource, h.append_eq, List.drop_left]
  have htake : (shown ++ back).take 100 = shown := by
    by_cases hback : back = []
    · rw [hback, List.append_nil, List.take_of_length_le h.length_shown_le]
    · rw [← h.length_shown hback, List.take_left]
  have hfront : 0 < front.length ↔ front ≠ [] := List.length_pos_iff
  have hback : front.length + shown.length < source.toList.length ↔ back ≠ [] := by
    rw [hsource, h.append_eq, List.length_append, List.length_append, ← List.length_pos_iff]
    omega
  simp only [excerpt, hchars, Option.getD_some, ← h.length_front, hdrop, htake, hfront, hback,
    displayed, ne_eq, ite_not]

theorem exists_lead (h : Window before after front shown back) {c : Char} {tail : List Char}
    (hafter : after = c :: tail) :
    ∃ lead rest, before = front ++ lead ∧ shown = lead ++ c :: rest := by
  have hlength : front.length ≤ before.length := by
    rw [h.length_front]
    omega
  obtain ⟨lead, rfl⟩ : front <+: before :=
    List.prefix_of_prefix_length_le ⟨shown ++ back, h.append_eq.symm⟩ ⟨after, rfl⟩ hlength
  have hlead : lead ++ c :: tail = shown ++ back := by
    have heq := h.append_eq
    rw [List.append_assoc, hafter] at heq
    exact List.append_cancel_left heq
  have hlt : lead.length < shown.length := by
    by_cases hback : back = []
    · rw [hback, List.append_nil] at hlead
      rw [← hlead]
      simp
    · have hlong := h.length_shown hback
      have hshort := h.length_front
      rw [List.length_append] at hshort
      omega
  obtain ⟨rest, rfl⟩ : lead ++ [c] <+: shown :=
    List.prefix_of_prefix_length_le ⟨tail, by rw [← hlead]; simp⟩ ⟨back, rfl⟩
      (by rw [List.length_append]; exact hlt)
  exact ⟨lead, rest, rfl, by simp⟩

end Window

end Text

section
variable {dialect : Dialect} {source : String} {e : ParseError}

/-- A text is reported to be in error: it cannot be cut into tokens, it is not one expression, or
what a reader of it reads at any time cannot be read. -/
inductive ParseError.Reported (dialect : Dialect) (source : String) : ParseError → Prop where
  | tokens {e : ParseError} (h : Token.ofSource dialect source = .error e) :
    Reported dialect source e
  | parse {e : ParseError} (h : Value.parse dialect source = .error e) : Reported dialect source e
  | next {e : ParseError} {start reader : Reader}
    (hstart : Reader.ofSource dialect source = .ok start) (hreaches : start.Reaches reader)
    (h : reader.next.1 = some (.error e)) : Reported dialect source e
  | read {e : ParseError} {start reader : Reader}
    (hstart : Reader.ofSource dialect source = .ok start) (hreaches : start.Reaches reader)
    (h : reader.read.1 = .error e) : Reported dialect source e

/-- What is wrong with a text, in front of the rest of it: something with which no token begins, a
token, or that there is no more. -/
inductive ParseFault.Begins (dialect : Dialect) (source : String) (before : List Char) :
    List Char → ParseFault → Option String → Prop where
  | stuck {after : List Char} {fault : ParseFault} (hstuck : Token.Stuck dialect after fault) :
    Begins dialect source before after fault (some (String.ofList (after.take 10)))
  | token {rest : List Char} {fault : ParseFault} {tokens : List Token} {lexeme : Lexeme}
    (htokens : Token.ofSource dialect source = .ok tokens)
    (hmem : ⟨lexeme, Token.byteCount before⟩ ∈ tokens) :
    Begins dialect source before (lexeme.source.toList ++ rest) fault (some lexeme.source)
  | finish : Begins dialect source before [] .endOfInput none

namespace ParseError

theorem Reported.cases (h : Reported dialect source e) : Token.ofSource dialect source = .error e ∨
    ∃ tokens fault, Token.ofSource dialect source = .ok tokens ∧
      Reader.Misread.Within tokens fault ∧ e = Reader.misread source fault := by
  cases h with
  | tokens h => exact .inl h
  | parse h =>
    cases htokens : Token.ofSource dialect source with
    | error e' =>
      rw [Value.parse, Reader.ofSource, htokens] at h
      cases h
      exact .inl rfl
    | ok tokens =>
      obtain ⟨fault, hwithin, rfl⟩ := Reader.misread_of_parse htokens h
      exact .inr ⟨tokens, fault, rfl, hwithin, rfl⟩
  | @next start reader hstart hreaches h =>
    obtain ⟨tokens, htokens, rfl⟩ := Reader.ofSource_eq_ok_iff_tokens.1 hstart
    have hready := Reader.ready_of_next h
    rw [Reader.next_of_ready hready] at h
    obtain ⟨fault, hwithin, rfl⟩ := Reader.misread_of_reaches hreaches (Option.some.inj h)
    exact .inr ⟨tokens, fault, htokens, hwithin, rfl⟩
  | read hstart hreaches h =>
    obtain ⟨tokens, htokens, rfl⟩ := Reader.ofSource_eq_ok_iff_tokens.1 hstart
    obtain ⟨fault, hwithin, rfl⟩ := Reader.misread_of_reaches hreaches h
    exact .inr ⟨tokens, fault, htokens, hwithin, rfl⟩

end ParseError

theorem Lexeme.source_ne_nil {lexeme : Lexeme} (h : lexeme.Valid dialect) :
    lexeme.source.toList ≠ [] := by
  cases lexeme with
  | atom text => exact h.1
  | _ => simp [source]

theorem Token.Tiles.exists_append {before cs : List Char} {tokens : List Token} {token : Token}
    (h : Token.Tiles dialect before cs tokens) (hmem : token ∈ tokens) :
    ∃ front rest, cs = front ++ (token.lexeme.source.toList ++ rest) ∧
      token.offset = Token.byteCount (before ++ front) := by
  induction h with
  | nil => cases hmem
  | @cons before gap rest lexeme tokens hgap hvalid hend htiles ih =>
    obtain rfl | hmem := List.mem_cons.1 hmem
    · exact ⟨gap, rest, rfl, (Token.byteCount_eq _).symm⟩
    · obtain ⟨front, rest', rfl, hoffset⟩ := ih hmem
      refine ⟨gap ++ lexeme.source.toList ++ front, rest', by simp only [List.append_assoc], ?_⟩
      rw [hoffset]
      simp only [List.append_assoc]

namespace ParseFault.Begins
variable {before after : List Char} {fault : ParseFault} {found : Option String}

theorem bare (h : Begins dialect source before after fault found) : Token.Bare dialect after := by
  cases h with
  | stuck hstuck => exact hstuck.bare
  | token htokens hmem =>
    exact Token.skipTrivia_source (Token.valid_of_ofSource htokens _ hmem)
  | finish => exact fun offset => by rw [Token.skipTrivia]

theorem found_eq_none_iff (h : Begins dialect source before after fault found) :
    found = none ↔ after = [] := by
  cases h with
  | stuck hstuck => simp [hstuck.ne_nil]
  | token htokens hmem =>
    simp [Lexeme.source_ne_nil (Token.valid_of_ofSource htokens _ hmem)]
  | finish => simp

theorem onOneLine_eq {c : Char} {tail : List Char}
    (h : Begins dialect source before (c :: tail) fault found) : Text.onOneLine [c] = [c] := by
  have hgap := h.bare.isGap_eq_false
  simp only [Token.isGap, Bool.or_eq_false_iff, beq_eq_false_iff_ne] at hgap
  simp [Text.onOneLine, hgap]

end ParseFault.Begins

theorem Reader.exists_begins {tokens : List Token} {fault : Reader.Misread}
    (htokens : Token.ofSource dialect source = .ok tokens) (hwithin : fault.Within tokens) :
    ∃ found before after, source.toList = before ++ after ∧
      ParseFault.Begins dialect source before after fault.1 found ∧
      misread source fault = .ofFault fault.1 source (Token.byteCount before) found := by
  obtain ⟨fault, _ | ⟨lexeme, offset⟩⟩ := fault
  · obtain rfl : fault = .endOfInput := hwithin
    refine ⟨none, source.toList, [], (List.append_nil _).symm, .finish, ?_⟩
    rw [Token.byteCount_eq, String.ofList_toList]
    rfl
  · obtain ⟨before, rest, hsource, hoffset⟩ :=
      (Token.tiles_of_ofSource htokens).exists_append hwithin
    obtain rfl : offset = Token.byteCount before := hoffset
    exact ⟨some lexeme.source, before, _, hsource, .token htokens hwithin, rfl⟩

namespace ParseError

theorem Reported.exists_begins (h : Reported dialect source e) : ∃ fault found before after,
    source.toList = before ++ after ∧ ParseFault.Begins dialect source before after fault found ∧
      e = .ofFault fault source (Token.byteCount before) found := by
  obtain h | ⟨tokens, fault, htokens, hwithin, rfl⟩ := h.cases
  · obtain ⟨before, after, -, fault, hsource, -, hstuck, rfl⟩ := Token.stuck_of_ofSource h
    exact ⟨fault, _, before, after, hsource, .stuck hstuck, rfl⟩
  · obtain ⟨found, before, after, hsource, hbegins, he⟩ := Reader.exists_begins htokens hwithin
    exact ⟨fault.1, found, before, after, hsource, hbegins, he⟩

/-- The offset of every error lies between two characters of the source, so the characters before it
are counted. The context of the error is the window at that place, with a mark where something has
been cut off, on one line. Unless the source has ended, what is wrong begins in the window, with a
character that is shown as it is. -/
theorem context_eq_window (h : Reported dialect source e) :
    ∃ fault found before after front shown back, source.toList = before ++ after ∧
      ParseFault.Begins dialect source before after fault found ∧
      e = .ofFault fault source (Token.byteCount before) found ∧
      String.Pos.Raw.IsValid source ⟨Token.byteCount before⟩ ∧
      Text.charsBefore? source.toList (Token.byteCount before) 0 = some before.length ∧
      Text.Window before after front shown back ∧
      e.context = some (Text.displayed front shown back) ∧
      (found = none ↔ after = []) ∧
      ∀ c tail, after = c :: tail → ∃ lead rest, before = front ++ lead ∧
        shown = lead ++ c :: rest ∧ Text.onOneLine [c] = [c] := by
  obtain ⟨fault, found, before, after, hsource, hbegins, rfl⟩ := h.exists_begins
  obtain ⟨front, shown, back, hwindow⟩ := Text.Window.exists_window before after
  refine ⟨fault, found, before, after, front, shown, back, hsource, hbegins, rfl, ?_, ?_, hwindow,
    ?_, hbegins.found_eq_none_iff, ?_⟩
  · refine String.Pos.Raw.isValid_iff_exists_append.2
      ⟨String.ofList before, String.ofList after, ?_, ?_⟩
    · rw [← String.ofList_append, ← hsource, String.ofList_toList]
    · rw [Token.byteCount_eq]
      rfl
  · rw [hsource, Text.charsBefore?_append, Nat.zero_add]
  · exact congrArg some (hwindow.excerpt_eq hsource)
  · rintro c tail rfl
    obtain ⟨lead, rest, hlead, hshown⟩ := hwindow.exists_lead rfl
    exact ⟨lead, rest, hlead, hshown, hbegins.onOneLine_eq⟩

theorem context_eq_window_two_bytes : ∃ e, Value.parse {} "éééééééééééééééééééééééé)" = .error e ∧
    e.context = some "[...]éééééééééééééééééééé)" ∧
    ∃ before after front shown back, "éééééééééééééééééééééééé)".toList = before ++ after ∧
      Text.Window before after front shown back ∧
      e.context = some (Text.displayed front shown back) := by
  have hparse : Value.parse {} "éééééééééééééééééééééééé)" = .error
      ⟨.trailingContent, "Unexpected remaining input after expression",
        some "[...]éééééééééééééééééééé)", some ")"⟩ := by
    have htokens : Token.ofSource {} "éééééééééééééééééééééééé)" =
        .ok [⟨.atom "éééééééééééééééééééééééé", 0⟩, ⟨.closing, 48⟩] := by
      decide +kernel
    rw [Value.parse, Reader.ofSource, htokens]
    rfl
  obtain ⟨-, -, before, after, front, shown, back, hsource, -, -, -, -, hwindow, hcontext, -⟩ :=
    context_eq_window (.parse hparse)
  exact ⟨_, hparse, rfl, before, after, front, shown, back, hsource, hwindow, hcontext⟩

end ParseError

end

end Lisplet
