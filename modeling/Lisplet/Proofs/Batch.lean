import Lisplet.Proofs.Fuel
import Lisplet.Proofs.Grammar
import Lisplet.Session

/-! Texts of several expressions. A session evaluates them in order up to the first error, or all of
them whatever comes of each. Both see the same outcomes as far as both go, and a text that is one
expression has one outcome. -/
namespace Lisplet

namespace Run
variable {α β : Type} {m : Nat → Run α} {w w' : World}

def Rising (m : Nat → Run α) : Prop := ∀ fuel fuel', fuel ≤ fuel' → (m fuel).Within (m fuel')

/-- The run ends so if it is given fuel enough. -/
def Settles (m : Nat → Run α) (w : World) (o : Except Error α) (w' : World) : Prop :=
  ∃ fuel, (m fuel).Ends w o w'

theorem Settles.unique {o o' : Except Error α} {w'' : World} (hm : Rising m)
    (h : Settles m w o w') (h' : Settles m w o' w'') : o = o' ∧ w' = w'' := by
  obtain ⟨fuel, h⟩ := h
  obtain ⟨fuel', h'⟩ := h'
  have h := (hm fuel _ (Nat.le_max_left fuel fuel')).ends h
  have h' := (hm fuel' _ (Nat.le_max_right fuel fuel')).ends h'
  exact ends_unique h h'

theorem settles_of_forall {m' : Run α} {o : Except Error α} (h : ∀ fuel, m fuel = m') :
    Settles m w o w' ↔ m'.Ends w o w' := by
  simp only [Settles, h, exists_const]

namespace Rising

theorem const (m : Run α) : Rising fun _ => m := fun _ _ _ => .refl m

theorem bind {f : Nat → α → Run β} (hm : Rising m) (hf : ∀ a, Rising (f · a)) :
    Rising fun fuel => m fuel >>= f fuel :=
  fun fuel fuel' h => (hm fuel fuel' h).bind fun a => hf a fuel fuel' h

theorem attempt (hm : Rising m) : Rising fun fuel => (m fuel).attempt :=
  fun fuel fuel' h => (hm fuel fuel' h).attempt

theorem settles_bind {f : Nat → α → Run β} {o : Except Error β} (hm : Rising m)
    (hf : ∀ a, Rising (f · a)) : Settles (fun fuel => m fuel >>= f fuel) w o w' ↔
      (∃ a w₁, Settles m w (.ok a) w₁ ∧ Settles (f · a) w₁ o w') ∨
        ∃ e, Settles m w (.error e) w' ∧ o = .error e := by
  constructor
  · rintro ⟨fuel, h⟩
    obtain ⟨a, w₁, hfirst, hsecond⟩ | ⟨e, hfirst, ho⟩ := ends_bind.1 h
    · exact .inl ⟨a, w₁, ⟨fuel, hfirst⟩, fuel, hsecond⟩
    · exact .inr ⟨e, ⟨fuel, hfirst⟩, ho⟩
  · rintro (⟨a, w₁, ⟨fuel, hfirst⟩, fuel', hsecond⟩ | ⟨e, ⟨fuel, hfirst⟩, rfl⟩)
    · have hfirst := (hm fuel _ (Nat.le_max_left fuel fuel')).ends hfirst
      have hsecond := (hf a fuel' _ (Nat.le_max_right fuel fuel')).ends hsecond
      exact ⟨_, ends_bind_ok hfirst hsecond⟩
    · exact ⟨fuel, ends_bind_error hfirst⟩

theorem settles_attempt_bind {f : Nat → Except Error α → Run β} {o : Except Error β}
    (hm : Rising m) (hf : ∀ result, Rising (f · result)) :
    Settles (fun fuel => (m fuel).attempt >>= f fuel) w o w' ↔
      ∃ result w₁, Settles m w result w₁ ∧ Settles (f · result) w₁ o w' := by
  constructor
  · rintro ⟨fuel, h⟩
    obtain ⟨result, w₁, hfirst, hsecond⟩ := ends_attempt_bind.1 h
    exact ⟨result, w₁, ⟨fuel, hfirst⟩, fuel, hsecond⟩
  · rintro ⟨result, w₁, ⟨fuel, hfirst⟩, fuel', hsecond⟩
    have hfirst := (hm fuel _ (Nat.le_max_left fuel fuel')).ends hfirst
    have hsecond := (hf result fuel' _ (Nat.le_max_right fuel fuel')).ends hsecond
    exact ⟨_, ends_attempt_bind.2 ⟨result, w₁, hfirst, hsecond⟩⟩

end Rising

end Run

namespace Reader

inductive Yields : Reader → List (Except ParseError Value) → Prop where
  | stop {reader : Reader} (h : reader.next.1 = none) : Yields reader []
  | item {reader reader' : Reader} {item : Except ParseError Value}
    {items : List (Except ParseError Value)} (h : reader.next = (some item, reader'))
    (hrest : Yields reader' items) : Yields reader (item :: items)

theorem yields_collect (source : String) (tokens : List Token) :
    ∃ (es : List Value) (fault : Option ParseError),
      collect source tokens [] = es.map .ok ++ fault.toList.map .error ∧
        Yields ⟨source, tokens, false⟩ (collect source tokens []) := by
  match tokens with
  | [] =>
    refine ⟨[], none, by rw [collect]; rfl, ?_⟩
    rw [collect]
    exact .stop rfl
  | token :: rest =>
    obtain ⟨result, unused, hread⟩ : ∃ result unused,
      readFrom (token :: rest) [] = (result, unused) := ⟨_, _, rfl⟩
    cases result with
    | ok e =>
      have hcollect : collect source (token :: rest) [] = .ok e :: collect source unused [] := by
        rw [collect_of_ok hread, ← List.nil_append [Except.ok e], collect_append]
        rfl
      have hnext : next ⟨source, token :: rest, false⟩ =
          (some (.ok e), ⟨source, unused, false⟩) := by
        simp only [next, read, hread, atEnd]
        rfl
      have hlt : unused.length < (token :: rest).length := by
        have := length_readFrom_lt token rest
        rwa [hread] at this
      obtain ⟨es, fault, heq, hyields⟩ := yields_collect source unused
      rw [hcollect]
      exact ⟨e :: es, fault, by rw [heq]; rfl, .item hnext hyields⟩
    | error fault =>
      have hnext : next ⟨source, token :: rest, false⟩ =
          (some (.error (misread source fault)), ⟨source, unused, true⟩) := by
        simp only [next, read, hread, atEnd]
        rfl
      rw [collect_of_error hread]
      exact ⟨[], some (misread source fault), rfl, .item hnext (.stop rfl)⟩
termination_by tokens.length
decreasing_by exact hlt

theorem collect_of_parse {dialect : Dialect} {source : String} {e : Value}
    (h : Value.parse dialect source = .ok e) : ∃ tokens,
      Token.ofSource dialect source = .ok tokens ∧ collect source tokens [] = [.ok e] := by
  obtain ⟨tokens, htokens, hread⟩ := Value.parse_eq_ok_iff.1 h
  refine ⟨tokens, htokens, ?_⟩
  cases tokens with
  | nil => cases hread
  | cons token rest =>
    rw [collect_of_ok hread, collect]
    rfl

end Reader

namespace Session
open Run

/-- What comes of one item that was read: the outcome of the expression, or that it could not be
read. -/
inductive Outcome : World → Except ParseError Value → Except Error Value → World → Prop where
  | value {w w' : World} {e : Value} {o : Except Error Value}
    (h : EvalEnds 0 globalFrame e w o w') : Outcome w (.ok e) o w'
  | fault {w : World} {e : ParseError} : Outcome w (.error e) (.error (.parse e)) w

/-- What comes of items one after the other. Each is evaluated in the world that those before it
left, whether they failed or not. -/
inductive Outcomes :
    World → List (Except ParseError Value) → List (Except Error Value) → World → Prop where
  | nil {w : World} : Outcomes w [] [] w
  | cons {w w₁ w' : World} {item : Except ParseError Value}
    {items : List (Except ParseError Value)} {o : Except Error Value}
    {os : List (Except Error Value)} (h : Outcome w item o w₁) (hrest : Outcomes w₁ items os w') :
    Outcomes w (item :: items) (o :: os) w'

section
variable {w w' w₁ : World} {item : Except ParseError Value}
  {items items' : List (Except ParseError Value)} {os os' : List (Except Error Value)}

theorem outcomes_cons_iff {results : List (Except Error Value)} :
    Outcomes w (item :: items) results w' ↔
      ∃ o os w₁, results = o :: os ∧ Outcome w item o w₁ ∧ Outcomes w₁ items os w' := by
  constructor
  · rintro (_ | ⟨h, hrest⟩)
    exact ⟨_, _, _, rfl, h, hrest⟩
  · rintro ⟨o, os, w₁, rfl, h, hrest⟩
    exact .cons h hrest

theorem Outcomes.append (h : Outcomes w items os w₁) (h' : Outcomes w₁ items' os' w') :
    Outcomes w (items ++ items') (os ++ os') w' := by
  induction h with
  | nil => exact h'
  | cons h _ ih => exact .cons h (ih h')

theorem outcomes_append_iff {results : List (Except Error Value)} :
    Outcomes w (items ++ items') results w' ↔ ∃ os os' w₁, results = os ++ os' ∧
      Outcomes w items os w₁ ∧ Outcomes w₁ items' os' w' := by
  constructor
  · intro h
    induction items generalizing w results with
    | nil => exact ⟨[], results, w, rfl, .nil, h⟩
    | cons item items ih =>
      obtain ⟨o, os, w₁, rfl, hitem, hrest⟩ := outcomes_cons_iff.1 h
      obtain ⟨os, os', w₂, rfl, hfirst, hsecond⟩ := ih hrest
      exact ⟨o :: os, os', w₂, rfl, .cons hitem hfirst, hsecond⟩
  · rintro ⟨os, os', w₁, rfl, h, h'⟩
    exact h.append h'

theorem Outcomes.split (h : Outcomes w items (os ++ os') w') : ∃ done later w₁,
    items = done ++ later ∧ Outcomes w done os w₁ ∧ Outcomes w₁ later os' w' := by
  induction os generalizing w items with
  | nil => exact ⟨[], items, w, rfl, .nil, h⟩
  | cons o os ih =>
    obtain _ | ⟨hitem, hrest⟩ := h
    obtain ⟨done, later, w₁, rfl, hdone, hlater⟩ := ih hrest
    exact ⟨_ :: done, later, w₁, rfl, .cons hitem hdone, hlater⟩

theorem outcomes_fault_iff {fault : Option ParseError} {results : List (Except Error Value)} :
    Outcomes w (fault.toList.map .error) results w' ↔
      results = fault.toList.map (.error <| .parse ·) ∧ w' = w := by
  cases fault with
  | none =>
    constructor
    · rintro ⟨⟩
      exact ⟨rfl, rfl⟩
    · rintro ⟨rfl, rfl⟩
      exact .nil
  | some e =>
    constructor
    · rintro (_ | ⟨⟨⟩, ⟨⟩⟩)
      exact ⟨rfl, rfl⟩
    · rintro ⟨rfl, rfl⟩
      exact .cons .fault .nil

end

def evalItem (fuel : Nat) (item : Except ParseError Value) : Run Value :=
  parsed item >>= evalGlobal fuel

theorem loadItems_cons (fuel : Nat) (item : Except ParseError Value)
    (items : List (Except ParseError Value)) (last : Value) :
    loadItems fuel (item :: items) last = evalItem fuel item >>= loadItems fuel items := by
  rw [evalItem, bind_assoc]
  rfl

theorem runItems_cons (fuel : Nat) (item : Except ParseError Value)
    (items : List (Except ParseError Value)) (passed : List (Except Error Value)) :
    runItems fuel (item :: items) passed =
      (evalItem fuel item).attempt >>= fun result => runItems fuel items (result :: passed) := rfl

theorem rising_evalItem (item : Except ParseError Value) : Rising (evalItem · item) :=
  (Rising.const _).bind fun e _ _ h => (within_of_le h).1 0 globalFrame e

theorem rising_loadItems (items : List (Except ParseError Value)) (last : Value) :
    Rising (loadItems · items last) := by
  induction items generalizing last with
  | nil => exact .const _
  | cons item items ih =>
    simp only [loadItems_cons]
    exact (rising_evalItem item).bind ih

theorem rising_runItems (items : List (Except ParseError Value))
    (passed : List (Except Error Value)) : Rising (runItems · items passed) := by
  induction items generalizing passed with
  | nil => exact .const _
  | cons item items ih =>
    simp only [runItems_cons]
    exact (rising_evalItem item).attempt.bind fun result => ih _

section
variable {w w' : World} {items : List (Except ParseError Value)}

theorem settles_evalItem {item : Except ParseError Value} {o : Except Error Value} :
    Settles (evalItem · item) w o w' ↔ Outcome w item o w' := by
  cases item with
  | ok e =>
    constructor
    · exact fun h => .value h
    · rintro ⟨h⟩
      exact h
  | error e =>
    have hfail (fuel : Nat) : evalItem fuel (.error e) = fail (.parse e) := rfl
    rw [settles_of_forall hfail, ends_fail]
    constructor
    · rintro ⟨rfl, rfl⟩
      exact .fault
    · rintro ⟨⟩
      exact ⟨rfl, rfl⟩

theorem settles_runItems {passed : List (Except Error Value)}
    {o : Except Error (List (Except Error Value))} :
    Settles (runItems · items passed) w o w' ↔
      ∃ os, Outcomes w items os w' ∧ o = .ok (passed.reverse ++ os) := by
  induction items generalizing w passed with
  | nil =>
    have hdone (fuel : Nat) : runItems fuel [] passed = pure passed.reverse := rfl
    rw [settles_of_forall hdone, ends_pure]
    constructor
    · rintro ⟨rfl, rfl⟩
      exact ⟨[], .nil, by rw [List.append_nil]⟩
    · rintro ⟨os, ⟨⟩, rfl⟩
      exact ⟨by rw [List.append_nil], rfl⟩
  | cons item items ih =>
    simp only [runItems_cons]
    rw [(rising_evalItem item).settles_attempt_bind fun result => rising_runItems _ _]
    simp only [settles_evalItem, ih, outcomes_cons_iff]
    constructor
    · rintro ⟨result, w₁, hitem, os, hrest, rfl⟩
      exact ⟨_, ⟨result, os, w₁, rfl, hitem, hrest⟩, by simp⟩
    · rintro ⟨_, ⟨result, os, w₁, rfl, hitem, hrest⟩, rfl⟩
      exact ⟨result, w₁, hitem, os, hrest, by simp⟩

theorem settles_loadItems {last : Value} {o : Except Error Value} :
    Settles (loadItems · items last) w o w' ↔
      (∃ vs : List Value, Outcomes w items (vs.map .ok) w' ∧ o = .ok (vs.getLastD last)) ∨
        ∃ (done later : List (Except ParseError Value)) (vs : List Value) (e : Error),
          items = done ++ later ∧ Outcomes w done (vs.map .ok ++ [.error e]) w' ∧ o = .error e := by
  induction items generalizing w last with
  | nil =>
    have hdone (fuel : Nat) : loadItems fuel [] last = pure last := rfl
    rw [settles_of_forall hdone, ends_pure]
    constructor
    · rintro ⟨rfl, rfl⟩
      exact .inl ⟨[], .nil, rfl⟩
    · rintro (⟨vs, h, rfl⟩ | ⟨done, later, vs, e, heq, h, rfl⟩)
      · obtain rfl : vs = [] := by cases vs <;> [rfl; cases h]
        cases h
        exact ⟨rfl, rfl⟩
      · obtain ⟨rfl, -⟩ := List.append_eq_nil_iff.1 heq.symm
        cases vs <;> cases h
  | cons item items ih =>
    simp only [loadItems_cons]
    rw [(rising_evalItem item).settles_bind fun v => rising_loadItems items v]
    simp only [settles_evalItem, ih]
    constructor
    · rintro (⟨v, w₁, hitem, ⟨vs, hrest, rfl⟩ | ⟨done, later, vs, e, rfl, hrest, rfl⟩⟩ |
        ⟨e, hitem, rfl⟩)
      · exact .inl ⟨v :: vs, .cons hitem hrest, by rw [List.getLastD_cons]⟩
      · exact .inr ⟨item :: done, later, v :: vs, e, rfl, .cons hitem hrest, rfl⟩
      · exact .inr ⟨[item], items, [], e, rfl, .cons hitem .nil, rfl⟩
    · rintro (⟨vs, h, rfl⟩ | ⟨done, later, vs, e, heq, h, rfl⟩)
      · obtain ⟨o, os, w₁, hos, hitem, hrest⟩ := outcomes_cons_iff.1 h
        obtain ⟨v, vs, rfl, rfl, rfl⟩ := List.map_eq_cons_iff.1 hos
        exact .inl ⟨v, w₁, hitem, .inl ⟨vs, hrest, by rw [List.getLastD_cons]⟩⟩
      · cases done with
        | nil => cases vs <;> cases h
        | cons first done =>
          obtain ⟨rfl, rfl⟩ := List.cons.inj heq
          obtain ⟨o, os, w₁, hos, hitem, hrest⟩ := outcomes_cons_iff.1 h
          cases vs with
          | nil =>
            obtain ⟨rfl, rfl⟩ := List.cons.inj hos
            cases hrest
            exact .inr ⟨e, hitem, rfl⟩
          | cons v vs =>
            obtain ⟨rfl, rfl⟩ := List.cons.inj hos
            exact .inl ⟨v, w₁, hitem, .inr ⟨done, later, vs, e, rfl, hrest, rfl⟩⟩

end

section
variable {dialect : Dialect} {source : String} {tokens : List Token} {w w' : World}

theorem run_of_tokens (h : Token.ofSource dialect source = .ok tokens) (fuel : Nat) :
    run fuel dialect source = runItems fuel (Reader.collect source tokens []) [] := by
  simp only [run, Reader.ofSource, h]
  rfl

theorem load_of_tokens (h : Token.ofSource dialect source = .ok tokens) (fuel : Nat) :
    load fuel dialect source = loadItems fuel (Reader.collect source tokens []) .nil := by
  simp only [load, Reader.ofSource, h]
  rfl

theorem run_of_error {e : ParseError} (h : Token.ofSource dialect source = .error e) (fuel : Nat) :
    run fuel dialect source w = .ok [.error (.parse e)] w ∧
      load fuel dialect source w = .error (.error (.parse e)) w := by
  constructor
  · simp only [run, Reader.ofSource, h]
    rfl
  · simp only [load, Reader.ofSource, h]
    rfl

theorem settles_run {o : Except Error (List (Except Error Value))}
    (h : Token.ofSource dialect source = .ok tokens) : Settles (run · dialect source) w o w' ↔
      ∃ os, Outcomes w (Reader.collect source tokens []) os w' ∧ o = .ok os := by
  simp only [run_of_tokens h]
  exact settles_runItems

theorem rising_load (h : Token.ofSource dialect source = .ok tokens) :
    Rising (load · dialect source) := by
  simp only [load_of_tokens h]
  exact rising_loadItems _ _

theorem settles_load_of_outcomes {results : List (Except Error Value)}
    (htokens : Token.ofSource dialect source = .ok tokens)
    (h : Outcomes w (Reader.collect source tokens []) results w') :
    (∀ vs : List Value, results = vs.map .ok → ∀ o w₁,
      Settles (load · dialect source) w o w₁ ↔ o = .ok (vs.getLastD .nil) ∧ w₁ = w') ∧
    ∀ (vs : List Value) (e : Error) (rest : List (Except Error Value)),
      results = vs.map .ok ++ .error e :: rest → ∃ done later w₁,
        Reader.collect source tokens [] = done ++ later ∧
          Outcomes w done (vs.map .ok ++ [.error e]) w₁ ∧ Outcomes w₁ later rest w' ∧
          ∀ o w₂, Settles (load · dialect source) w o w₂ ↔ o = .error e ∧ w₂ = w₁ := by
  have hunique {o o' : Except Error Value} {w₁ : World}
      (hload : Settles (load · dialect source) w o w₁) (w₂ : World) :
      Settles (load · dialect source) w o' w₂ ↔ o' = o ∧ w₂ = w₁ := by
    constructor
    · exact fun h' => h'.unique (rising_load htokens) hload
    · rintro ⟨rfl, rfl⟩
      exact hload
  constructor
  · rintro vs rfl o w₁
    refine hunique ?_ w₁
    simp only [load_of_tokens htokens]
    exact settles_loadItems.2 (.inl ⟨vs, h, rfl⟩)
  · rintro vs e rest rfl
    rw [← List.singleton_append, ← List.append_assoc] at h
    obtain ⟨done, later, w₁, hitems, hdone, hlater⟩ := h.split
    refine ⟨done, later, w₁, hitems, hdone, hlater, fun o w₂ => hunique ?_ w₂⟩
    simp only [load_of_tokens htokens]
    exact settles_loadItems.2 (.inr ⟨done, later, vs, e, hitems, hdone, rfl⟩)

theorem run_of_parse {e : Value} (h : Value.parse dialect source = .ok e) (fuel : Nat) :
    run fuel dialect source = do return [← attempt (evalText fuel dialect source)] := by
  obtain ⟨tokens, htokens, hcollect⟩ := Reader.collect_of_parse h
  rw [run_of_tokens htokens, hcollect, evalText, h]
  rfl

end

/-- A text without tokens is not evaluated at all. Of any other the expressions in front of what
cannot be read are evaluated in order; the program that stops at the first error ends with the
last value of the other, or with the first error and in the world in which that left off. A text
that is one expression has its outcome. -/
theorem load_run_evalText (dialect : Dialect) (source : String) (w : World) :
    (∀ e, Token.ofSource dialect source = .error e → ∀ fuel,
      run fuel dialect source w = .ok [.error (.parse e)] w ∧
        load fuel dialect source w = .error (.error (.parse e)) w) ∧
    (∀ tokens, Token.ofSource dialect source = .ok tokens →
      ∃ (es : List Value) (fault : Option ParseError) (items : List (Except ParseError Value)),
        items = es.map .ok ++ fault.toList.map .error ∧
        Reader.Yields ⟨source, tokens, false⟩ items ∧
        (∀ o w', Settles (run · dialect source) w o w' ↔ ∃ os, Outcomes w (es.map .ok) os w' ∧
          o = .ok (os ++ fault.toList.map (.error <| .parse ·))) ∧
        (∀ o w', Settles (load · dialect source) w o w' ↔
          (∃ vs : List Value, Outcomes w items (vs.map .ok) w' ∧ o = .ok (vs.getLastD .nil)) ∨
            ∃ (done later : List (Except ParseError Value)) (vs : List Value) (e : Error),
              items = done ++ later ∧ Outcomes w done (vs.map .ok ++ [.error e]) w' ∧
                o = .error e) ∧
        ∀ results w', Settles (run · dialect source) w (.ok results) w' →
          (∀ vs : List Value, results = vs.map .ok → ∀ o w₁,
            Settles (load · dialect source) w o w₁ ↔ o = .ok (vs.getLastD .nil) ∧ w₁ = w') ∧
          ∀ (vs : List Value) (e : Error) (rest : List (Except Error Value)),
            results = vs.map .ok ++ .error e :: rest → ∃ done later w₁, items = done ++ later ∧
              Outcomes w done (vs.map .ok ++ [.error e]) w₁ ∧ Outcomes w₁ later rest w' ∧
                ∀ o w₂, Settles (load · dialect source) w o w₂ ↔ o = .error e ∧ w₂ = w₁) ∧
    ∀ e, Value.parse dialect source = .ok e → ∀ fuel,
      run fuel dialect source = do return [← attempt (evalText fuel dialect source)] := by
  refine ⟨fun e h fuel => run_of_error h fuel, fun tokens htokens => ?_,
    fun e h fuel => run_of_parse h fuel⟩
  obtain ⟨es, fault, hitems, hyields⟩ := Reader.yields_collect source tokens
  refine ⟨es, fault, _, hitems, hyields, fun o w' => ?_, fun o w' => ?_, fun results w' hrun => ?_⟩
  · rw [settles_run htokens, hitems]
    simp only [outcomes_append_iff, outcomes_fault_iff]
    constructor
    · rintro ⟨_, ⟨os, _, w₁, rfl, hos, rfl, rfl⟩, rfl⟩
      exact ⟨os, hos, rfl⟩
    · rintro ⟨os, hos, rfl⟩
      exact ⟨_, ⟨os, _, w', rfl, hos, rfl, rfl⟩, rfl⟩
  · simp only [load_of_tokens htokens]
    exact settles_loadItems
  · obtain ⟨os, hos, heq⟩ := (settles_run htokens).1 hrun
    cases heq
    exact settles_load_of_outcomes htokens hos

/-- A string that is not closed, a malformed form in front of a number, and a number alone. -/
theorem load_run_evalText_malformed :
    (∃ e, run 0 {} "\"a" (start .empty ⟨[], ""⟩ .empty) =
      .ok [.error (.parse e)] (start .empty ⟨[], ""⟩ .empty)) ∧
    (∃ w, Settles (load · {} "(if) 1") (start .empty ⟨[], ""⟩ .empty)
      (.error (.malformed .ite)) w) ∧
    run 1 {} "1" = do return [← attempt (evalText 1 {} "1")] := by
  obtain ⟨hopen, -, -⟩ := load_run_evalText {} "\"a" (start .empty ⟨[], ""⟩ .empty)
  obtain ⟨-, hmalformed, -⟩ := load_run_evalText {} "(if) 1" (start .empty ⟨[], ""⟩ .empty)
  obtain ⟨-, -, hone⟩ := load_run_evalText {} "1" (start .empty ⟨[], ""⟩ .empty)
  have hstring : Token.ofSource {} "\"a" =
      .error (.ofFault .openString "\"a" 0 (some "\"a")) := by
    decide +kernel
  have htokens : Token.ofSource {} "(if) 1" =
      .ok [⟨.opening, 0⟩, ⟨.atom "if", 1⟩, ⟨.closing, 3⟩, ⟨.atom "1", 5⟩] := by
    decide +kernel
  have hnumber : Token.ofSource {} "1" = .ok [⟨.atom "1", 0⟩] := by
    decide +kernel
  have hrun : (run 9 {} "(if) 1").Ends (start .empty ⟨[], ""⟩ .empty)
      (.ok [.error (.malformed .ite), .ok (.int 1)]) (start .empty ⟨[], ""⟩ .empty) := by
    rw [run_of_tokens htokens, Reader.collect_of_ok rfl, Reader.collect_of_ok rfl, Reader.collect]
    rfl
  refine ⟨⟨_, (hopen _ hstring 0).1⟩, ?_, hone (.int 1) ?_ 1⟩
  · obtain ⟨es, fault, items, -, -, -, -, hload⟩ := hmalformed _ htokens
    obtain ⟨-, hload⟩ := hload _ _ ⟨9, hrun⟩
    obtain ⟨done, later, w, -, -, -, hload⟩ := hload [] (.malformed .ite) [.ok (.int 1)] rfl
    exact ⟨w, (hload _ _).2 ⟨rfl, rfl⟩⟩
  · exact Value.parse_eq_ok_iff.2 ⟨_, hnumber, rfl⟩

end Session

end Lisplet
