import Lisplet.Proofs.Batch
import Lisplet.Proofs.Streaming

/-! Progress of readers. Whatever is asked of a reader, it stands somewhere among its tokens and
never goes back. While there are tokens every read takes it at least one of them further, whether or
not an expression is read, and so does every item. The first error among the items is the last of
them. So a reader yields no more items than it has tokens. -/
namespace Lisplet.Reader

def position (reader : Reader) (tokens : List Token) : Nat := tokens.length - reader.rest.length

/-- Steps in any order that end with the second reader, and the items that `next` yields in the
course of them. What is read besides is not among the items. -/
inductive Produces : Reader → List (Except ParseError Value) → Reader → Prop where
  | refl (reader : Reader) : Produces reader [] reader
  | next {reader reader' : Reader} {items : List (Except ParseError Value)}
    (h : Produces reader.next.2 items reader') :
    Produces reader (reader.next.1.toList ++ items) reader'
  | read {reader reader' : Reader} {items : List (Except ParseError Value)}
    (h : Produces reader.read.2 items reader') : Produces reader items reader'

section
variable {tokens : List Token} {reader reader' : Reader} {item : Except ParseError Value}
  {items : List (Except ParseError Value)} {e : ParseError}

theorem length_read_lt (h : reader.rest ≠ []) :
    reader.read.2.rest.length < reader.rest.length := by
  obtain ⟨token, rest, hrest⟩ := List.exists_cons_of_ne_nil h
  have hlt := length_readFrom_lt token rest
  rwa [← hrest] at hlt

theorem length_next_lt (h : reader.next.1 = some item) :
    reader.next.2.rest.length < reader.rest.length := by
  have hready := ready_of_next h
  rw [next_of_ready hready]
  refine length_read_lt fun hrest => ?_
  rw [atEnd, hrest, List.isEmpty_nil, Bool.or_true] at hready
  cases hready

theorem failed_of_next (h : reader.next.1 = some (.error e)) : reader.next.2.failed = true := by
  have hready := next_of_ready (ready_of_next h)
  rw [hready] at h ⊢
  rw [Option.some.inj h]
  rfl

namespace Produces

theorem reaches (h : Produces reader items reader') : reader.Reaches reader' := by
  induction h with
  | refl reader => exact .refl
  | next _ ih => exact .head (.next _) ih
  | read _ ih => exact .head (.read _) ih

theorem length_add_le (h : Produces reader items reader') :
    reader'.rest.length + items.length ≤ reader.rest.length := by
  induction h with
  | refl reader => exact Nat.le_refl _
  | @next reader reader' items h ih =>
    cases hitem : reader.next.1 with
    | none =>
      have hle := (Step.next reader).rest_suffix.length_le
      rw [Option.toList_none, List.nil_append]
      omega
    | some item =>
      have hlt := length_next_lt hitem
      rw [Option.toList_some, List.singleton_append, List.length_cons]
      omega
  | @read reader reader' items h ih =>
    have hle := (Step.read reader).rest_suffix.length_le
    omega

theorem of_failed (h : Produces reader items reader') (hfailed : reader.failed = true) :
    items = [] ∧ reader'.failed = true := by
  induction h with
  | refl reader => exact ⟨rfl, hfailed⟩
  | next h ih =>
    rw [next_of_failed hfailed] at ih ⊢
    exact ih hfailed
  | read h ih => exact ih hfailed

end Produces

theorem Yields.exists_produces (h : Yields reader items) :
    ∃ reader', Produces reader items reader' ∧ reader'.next.1 = none := by
  induction h with
  | @stop reader h => exact ⟨reader, .refl reader, h⟩
  | @item reader reader' item items h hrest ih =>
    obtain ⟨last, hproduces, hdone⟩ := ih
    obtain rfl : reader.next.2 = reader' := congrArg Prod.snd h
    have hproduces := Produces.next hproduces
    rw [congrArg Prod.fst h] at hproduces
    exact ⟨last, hproduces, hdone⟩

theorem yields_items (reader : Reader) : Yields reader reader.items := by
  obtain ⟨source, rest, failed⟩ := reader
  cases failed with
  | true => exact .stop rfl
  | false =>
    obtain ⟨-, -, -, hyields⟩ := yields_collect source rest
    exact hyields

theorem rest_eq_drop (h : reader.rest <:+ tokens) :
    reader.rest = tokens.drop (reader.position tokens) :=
  List.suffix_iff_eq_drop.1 h

theorem position_add_le {n : Nat} (h : reader.rest <:+ tokens)
    (hle : reader'.rest.length + n ≤ reader.rest.length) :
    reader.position tokens + n ≤ reader'.position tokens := by
  have hlength := h.length_le
  unfold position
  omega

theorem position_lt (h : reader.rest <:+ tokens)
    (hlt : reader'.rest.length < reader.rest.length) :
    reader.position tokens < reader'.position tokens :=
  position_add_le (n := 1) h hlt

end

/-- In whatever order the next item is asked for and expressions are read, the reader of a text
stands in front of one of its tokens or behind the last, and later never in front of an earlier one.
A read takes it past a token at least, if there is one, and so does each item. A read that fails
leaves off where its fault says. After an error among the items there are no more. So a reader has
yielded no more items than tokens have been used, and iterating from where it stands comes to an end
with no more items than there are tokens left. -/
theorem position_advances {dialect : Dialect} {source : String} {tokens : List Token}
    (htokens : Token.ofSource dialect source = .ok tokens) :
    ∃ start, ofSource dialect source = .ok start ∧ start.position tokens = 0 ∧
      ∀ earlier reader, Produces start earlier reader →
        reader.rest = tokens.drop (reader.position tokens) ∧
        reader.position tokens ≤ tokens.length ∧
        earlier.length ≤ reader.position tokens ∧
        (reader.position tokens < tokens.length →
          reader.position tokens < reader.read.2.position tokens) ∧
        (∀ item, reader.next.1 = some item →
          reader.position tokens < reader.next.2.position tokens) ∧
        (∀ e, reader.read.1 = .error e → ∃ fault : Misread, e = misread source fault ∧
          fault.Stops 0 reader.rest reader.read.2.rest) ∧
        (∀ e, reader.next.1 = some (.error e) → ∀ items reader',
          Produces reader.next.2 items reader' → items = [] ∧ reader'.next.1 = none) ∧
        (∀ items reader', Produces reader items reader' →
          reader.position tokens + items.length ≤ reader'.position tokens) ∧
        Yields reader reader.items ∧
        ∀ items, Yields reader items → reader.position tokens + items.length ≤ tokens.length := by
  refine ⟨⟨source, tokens, false⟩, ofSource_eq_ok_iff_tokens.2 ⟨tokens, htokens, rfl⟩,
    Nat.sub_self _, fun earlier reader hearlier => ?_⟩
  have hsuffix : reader.rest <:+ tokens := hearlier.reaches.rest_suffix
  have hsource : reader.source = source := hearlier.reaches.source_eq
  have hlater {items : List (Except ParseError Value)} {reader' : Reader}
      (h : Produces reader items reader') :
      reader.position tokens + items.length ≤ reader'.position tokens :=
    position_add_le hsuffix h.length_add_le
  refine ⟨rest_eq_drop hsuffix, Nat.sub_le _ _, ?_, fun hlt => ?_, fun item hitem => ?_,
    fun e he => ?_, fun e he items reader' hproduces => ?_, fun _ _ => hlater, yields_items reader,
    fun items hyields => ?_⟩
  · have hle := position_add_le (List.suffix_refl tokens) hearlier.length_add_le
    rwa [position, Nat.sub_self, Nat.zero_add] at hle
  · refine position_lt hsuffix (length_read_lt fun hrest => ?_)
    rw [position, hrest] at hlt
    exact Nat.lt_irrefl _ hlt
  · exact position_lt hsuffix (length_next_lt hitem)
  · rw [← hsource]
    exact stops_of_read he
  · obtain ⟨hitems, hfailed⟩ := hproduces.of_failed (failed_of_next he)
    exact ⟨hitems, by rw [next_of_failed hfailed]⟩
  · obtain ⟨last, hproduces, -⟩ := hyields.exists_produces
    exact (hlater hproduces).trans (Nat.sub_le _ _)

/-- The parenthesis closes nothing and is the last item. Reading on takes the number behind it, but
there is no next item. -/
theorem position_advances_after_error : ∃ (tokens : List Token) (start reader : Reader)
    (e : ParseError), Token.ofSource {} "1 ) 2" = .ok tokens ∧ ofSource {} "1 ) 2" = .ok start ∧
      Produces start [.ok (.int 1)] reader ∧ reader.position tokens = 1 ∧
      reader.next.1 = some (.error e) ∧ 1 < reader.next.2.position tokens ∧
      reader.next.2.read.1 = .ok (.int 2) ∧ reader.next.2.read.2.next.1 = none := by
  have htokens : Token.ofSource {} "1 ) 2" =
      .ok [⟨.atom "1", 0⟩, ⟨.closing, 2⟩, ⟨.atom "2", 4⟩] := by
    decide +kernel
  obtain ⟨start, hstart, -, hrun⟩ := position_advances htokens
  obtain rfl : start = ⟨"1 ) 2", [⟨.atom "1", 0⟩, ⟨.closing, 2⟩, ⟨.atom "2", 4⟩], false⟩ := by
    rw [ofSource, htokens] at hstart
    cases hstart
    rfl
  have hone : Produces ⟨"1 ) 2", [⟨.atom "1", 0⟩, ⟨.closing, 2⟩, ⟨.atom "2", 4⟩], false⟩
      [.ok (.int 1)] ⟨"1 ) 2", [⟨.closing, 2⟩, ⟨.atom "2", 4⟩], false⟩ := .next (.refl _)
  obtain ⟨-, -, -, -, hnext, -, hended, -⟩ := hrun _ _ hone
  exact ⟨_, _, _, _, htokens, hstart, hone, rfl, rfl, hnext _ rfl, rfl,
    (hended _ rfl _ _ (.read (.refl _))).2⟩

end Lisplet.Reader
