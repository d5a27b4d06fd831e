import Mathlib.Logic.Relation
import Lisplet.Reader

/-! Readers in use. The next item can be asked for, and an expression can be read, in any order and
however often; all the time the reader is over the same tokens. A read that fails leaves off at one
of three places. -/
namespace Lisplet.Reader

/-- One step with a reader: to the next item, or past an expression whether or not an error was met
before. -/
inductive Step : Reader → Reader → Prop where
  | next (reader : Reader) : Step reader reader.next.2
  | read (reader : Reader) : Step reader reader.read.2

def Reaches : Reader → Reader → Prop := Relation.ReflTransGen Step

variable {reader reader' : Reader} {item : Except ParseError Value}

theorem next_of_ready (h : (reader.failed || reader.atEnd) = false) :
    reader.next = (some reader.read.1, { reader.read.2 with failed := !reader.read.1.isOk }) := by
  rw [next, if_neg (by simp [h])]

theorem next_of_done (h : (reader.failed || reader.atEnd) = true) :
    reader.next = (none, reader) := by
  rw [next, if_pos h]

theorem ready_of_next (h : reader.next.1 = some item) :
    (reader.failed || reader.atEnd) = false := by
  cases hdone : reader.failed || reader.atEnd with
  | false => rfl
  | true =>
    rw [next_of_done hdone] at h
    cases h

theorem next_of_failed (h : reader.failed = true) : reader.next = (none, reader) :=
  next_of_done (by rw [h, Bool.true_or])

theorem Step.source_eq (h : Step reader reader') : reader'.source = reader.source := by
  cases h with
  | next =>
    cases hdone : reader.failed || reader.atEnd with
    | false => rw [next_of_ready hdone]; rfl
    | true => rw [next_of_done hdone]
  | read => rfl

theorem Step.rest_suffix (h : Step reader reader') : reader'.rest <:+ reader.rest := by
  cases h with
  | next =>
    cases hdone : reader.failed || reader.atEnd with
    | false => rw [next_of_ready hdone]; exact readFrom_suffix reader.rest []
    | true => simp [next_of_done hdone]
  | read => exact readFrom_suffix reader.rest []

theorem Reaches.source_eq (h : reader.Reaches reader') : reader'.source = reader.source := by
  induction h with
  | refl => rfl
  | tail _ hstep ih => exact hstep.source_eq.trans ih

theorem Reaches.rest_suffix (h : reader.Reaches reader') : reader'.rest <:+ reader.rest := by
  induction h with
  | refl => exact List.suffix_refl _
  | tail _ hstep ih => exact hstep.rest_suffix.trans ih

/-- What is wrong is one of these tokens, or it is that they end. -/
def Misread.Within (tokens : List Token) : Misread → Prop
  | (_, some token) => token ∈ tokens
  | (fault, none) => fault = .endOfInput

theorem Misread.Within.mono {tokens tokens' : List Token} {fault : Misread}
    (h : fault.Within tokens) (hsubset : tokens ⊆ tokens') : fault.Within tokens' := by
  obtain ⟨fault, _ | token⟩ := fault
  · exact h
  · exact hsubset h

/-- Where reading leaves off with a fault, so many constructs being open before these tokens: at
their end, behind a parenthesis that closes nothing, or in front of a token that is too deep. The
tokens before that one have opened what is missing to the greatest depth. -/
inductive Misread.Stops (around : Nat) (tokens : List Token) : Misread → List Token → Prop where
  | finish : Stops around tokens (.endOfInput, none) []
  | closing {front rest : List Token} {token : Token} (h : tokens = front ++ token :: rest)
    (hclosing : token.lexeme = .closing) : Stops around tokens (.closing, some token) rest
  | tooDeep {front rest : List Token} {token : Token} (h : tokens = front ++ token :: rest)
    (hdeep : maxReadDepth ≤ around + front.length) :
    Stops around tokens (.tooDeep, some token) (token :: rest)

section
variable {tokens unused : List Token} {around around' : List Open} {fault : Misread}

theorem Misread.Stops.cons {n m : Nat} {token : Token} (h : fault.Stops n tokens unused)
    (hle : n ≤ m + 1) : fault.Stops m (token :: tokens) unused := by
  cases h with
  | finish => exact .finish
  | closing h hclosing => exact .closing (by rw [h, List.cons_append]) hclosing
  | tooDeep h hdeep =>
    refine .tooDeep (by rw [h, List.cons_append]) ?_
    rw [List.length_cons]
    omega

theorem Misread.Stops.within {n : Nat} (h : fault.Stops n tokens unused) :
    fault.Within tokens := by
  cases h with
  | finish => rfl
  | closing h | tooDeep h =>
    rw [h]
    exact List.mem_append_right _ List.mem_cons_self

theorem length_le_of_settle {v : Value} (h : settle v around = .inr around') :
    around'.length ≤ around.length := by
  fun_induction settle v around with
  | case1 => cases h
  | case2 v around ih => exact Nat.le_succ_of_le (ih h)
  | case3 v done around =>
    cases h
    exact Nat.le_refl _

theorem stops_of_readFrom (h : readFrom tokens around = (.error fault, unused)) :
    fault.Stops around.length tokens unused := by
  -- Only an opening token adds to what is open; a finished expression is put into a list that was
  -- open before it. So each token takes the reader one construct deeper at most.
  fun_induction readFrom tokens around with
  | case1 around => cases h; exact .finish
  | case2 | case8 | case10 => cases h
  | case3 token rest done outer hlexeme around hsettle ih =>
    have hle := length_le_of_settle hsettle
    refine (ih h).cons ?_
    rw [List.length_cons]
    omega
  | case4 token rest around hdeep =>
    cases h
    exact .tooDeep (List.nil_append _).symm hdeep
  | case5 token rest around hroom hother hlexeme ih
  | case6 token rest around hroom hother hlexeme ih => exact (ih h).cons (Nat.le_refl _)
  | case7 token rest around hroom hother hlexeme =>
    cases h
    exact .closing (List.nil_append _).symm hlexeme
  | case9 token rest around hroom text around' hsettle hother hlexeme ih
  | case11 token rest around hroom text around' hsettle hother hlexeme ih =>
    exact (ih h).cons (Nat.le_succ_of_le (length_le_of_settle hsettle))

end

section
variable {dialect : Dialect} {source : String} {e : ParseError} {start : Reader}

theorem ofSource_eq_ok_iff_tokens : ofSource dialect source = .ok start ↔
    ∃ tokens, Token.ofSource dialect source = .ok tokens ∧ start = ⟨source, tokens, false⟩ := by
  rw [ofSource]
  cases Token.ofSource dialect source with
  | ok tokens => simp [Except.map, eq_comm]
  | error e => simp [Except.map]

theorem stops_of_read (h : reader.read.1 = .error e) : ∃ fault : Misread,
    e = misread reader.source fault ∧ fault.Stops 0 reader.rest reader.read.2.rest := by
  unfold read at h ⊢
  obtain ⟨result, unused, hread⟩ : ∃ result unused, readFrom reader.rest [] = (result, unused) :=
    ⟨_, _, rfl⟩
  rw [hread] at h ⊢
  cases result with
  | ok v => cases h
  | error fault =>
    cases h
    exact ⟨fault, rfl, stops_of_readFrom hread⟩

theorem misread_of_reaches {tokens : List Token}
    (hreaches : Reaches ⟨source, tokens, false⟩ reader) (h : reader.read.1 = .error e) :
    ∃ fault : Misread, fault.Within tokens ∧ e = misread source fault := by
  obtain ⟨fault, rfl, hstops⟩ := stops_of_read h
  exact ⟨fault, hstops.within.mono hreaches.rest_suffix.subset, by rw [hreaches.source_eq]⟩

theorem misread_of_parse {tokens : List Token}
    (htokens : Token.ofSource dialect source = .ok tokens)
    (h : Value.parse dialect source = .error e) :
    ∃ fault : Misread, fault.Within tokens ∧ e = misread source fault := by
  obtain ⟨result, unused, hread⟩ : ∃ result unused, readFrom tokens [] = (result, unused) :=
    ⟨_, _, rfl⟩
  have hsuffix := readFrom_suffix tokens []
  rw [hread] at hsuffix
  rw [Value.parse, ofSource_eq_ok_iff_tokens.2 ⟨tokens, htokens, rfl⟩] at h
  simp only [bind, Except.bind, read, hread] at h
  cases result with
  | error fault =>
    cases h
    exact ⟨fault, (stops_of_readFrom hread).within, rfl⟩
  | ok v =>
    cases unused with
    | nil => cases h
    | cons token rest =>
      cases h
      exact ⟨(.trailing, some token), hsuffix.subset List.mem_cons_self, rfl⟩

end

end Lisplet.Reader
