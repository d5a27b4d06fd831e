import Lisplet.Proofs.BigStep
import Lisplet.Proofs.Congruence

/-! How each special form and each application ends, given how the evaluations in it end. -/
namespace Lisplet

namespace SpecialForm

def run (ev : Evaluator) (depth : Nat) (frame : FrameId) : SpecialForm → List Value → Run Step
  | .quote => Form.quote
  | .string => Form.string
  | .lambda => Form.lambda ev depth frame
  | .define => Form.define ev depth frame
  | .cond => Form.cond ev depth frame
  | .ite => Form.ite ev depth frame
  | .begin => Form.begin ev depth frame
  | .list => Form.list ev depth frame
  | .curry => Form.curry ev depth frame
  | .letIn => Form.letIn ev depth frame
  | .eval => Form.eval ev depth frame
  | .print => Form.print ev depth frame

theorem name_of_ofName? {name : String} {form : SpecialForm} (h : ofName? name = some form) :
    name = form.name := by
  unfold ofName? at h
  split at h <;> simp_all [SpecialForm.name]
  all_goals
    subst h
    rfl

end SpecialForm

theorem Form.mapM_clause?_eq_some {operands : List Value} {clauses : List (Value × Value)} :
    operands.mapM Form.clause? = some clauses ↔ operands = SpecialForm.clauseList clauses := by
  constructor
  · intro h
    induction operands generalizing clauses with
    | nil =>
      cases h
      rfl
    | cons operand operands ih =>
      rw [List.mapM_cons] at h
      obtain ⟨clause, hclause, h⟩ := Option.bind_eq_some_iff.1 h
      obtain ⟨rest, hrest, h⟩ := Option.bind_eq_some_iff.1 h
      cases h
      unfold Form.clause? at hclause
      split at hclause
      · cases hclause
        rw [ih hrest]
        rfl
      · cases hclause
  · rintro rfl
    induction clauses with
    | nil => rfl
    | cons clause clauses ih =>
      have hcons : SpecialForm.clauseList (clause :: clauses) =
          .list [clause.1, clause.2] :: SpecialForm.clauseList clauses := rfl
      rw [hcons, List.mapM_cons, ih]
      rfl

namespace Form
open Run
variable {ev : Evaluator} {depth : Nat} {frame : FrameId} {operands bindings : List Value}
  {body : Value}

/-- The bindings and the body of a `let`; a single binding makes a list of one. -/
def letParts? : List Value → Option (List Value × Value)
  | [.symbol name, e, body] => some ([.list [.symbol name, e]], body)
  | [.list bindings, body] => some (bindings, body)
  | _ => none

theorem letParts?_eq_some_iff : letParts? operands = some (bindings, body) ↔
    (∃ name e, operands = [.symbol name, e, body] ∧ bindings = [.list [.symbol name, e]]) ∨
      operands = [.list bindings, body] := by
  constructor
  · intro h
    unfold letParts? at h
    split at h <;> cases h
    · exact .inl ⟨_, _, rfl, rfl⟩
    · exact .inr rfl
  · rintro (⟨name, e, rfl, rfl⟩ | rfl) <;> rfl

theorem isSome_letParts?_iff :
    (letParts? operands).isSome ↔ SpecialForm.letIn.Accepts operands := by
  constructor
  · intro h
    obtain ⟨⟨bindings, body⟩, h⟩ := Option.isSome_iff_exists.1 h
    obtain ⟨name, e, rfl, -⟩ | rfl := letParts?_eq_some_iff.1 h
    · exact ⟨_, .inl ⟨_, _, rfl⟩⟩
    · exact ⟨_, .inr ⟨_, rfl⟩⟩
  · rintro ⟨body, ⟨name, e, rfl⟩ | ⟨bindings, rfl⟩⟩ <;> rfl

theorem exists_letParts? (h : SpecialForm.letIn.Accepts operands) :
    ∃ bindings body, letParts? operands = some (bindings, body) := by
  obtain ⟨⟨bindings, body⟩, h⟩ := Option.isSome_iff_exists.1 (isSome_letParts?_iff.2 h)
  exact ⟨bindings, body, h⟩

theorem letIn_of_letParts? (h : letParts? operands = some (bindings, body)) :
    letIn ev depth frame operands = (do
      let inner ← newFrame [] (some frame)
      bindValues ev depth inner bindings
      return .tail body inner) := by
  obtain ⟨name, e, rfl, rfl⟩ | rfl := letParts?_eq_some_iff.1 h
  · simp only [letIn, bindValues, bind_pure_comp, Functor.map_map]
  · rfl

end Form

namespace BigStep
variable {depth : Nat} {frame : FrameId} {operands bindings : List Value} {body : Value}
  {w w₁ w' : World} (hparts : Form.letParts? operands = some (bindings, body))
include hparts

theorem letIn {o : Except Error Value}
    (hbindings : BigStep (.bindings depth w.nextFrame bindings) (w.newFrame [] frame) (.ok ()) w₁)
    (htail : BigStep (.expr depth w.nextFrame body) w₁ o w') :
    BigStep (.form depth frame (SpecialForm.letIn.applied operands)) w o w' := by
  obtain ⟨name, e, rfl, rfl⟩ | rfl := Form.letParts?_eq_some_iff.1 hparts
  · exact .letOne hbindings htail
  · exact .letMany hbindings htail

theorem letInError {error : Error}
    (hbindings : BigStep (.bindings depth w.nextFrame bindings) (w.newFrame [] frame)
      (.error error) w₁) :
    BigStep (.form depth frame (SpecialForm.letIn.applied operands)) w (.error error) w₁ := by
  obtain ⟨name, e, rfl, rfl⟩ | rfl := Form.letParts?_eq_some_iff.1 hparts
  · exact .letOneError hbindings
  · exact .letManyError hbindings

end BigStep

namespace SpecialForm

theorem run_of_not_accepts {ev : Evaluator} {depth : Nat} {frame : FrameId} {form : SpecialForm}
    {operands : List Value} (h : ¬ form.Accepts operands) :
    form.run ev depth frame operands = Run.fail (.malformed form) := by
  cases form with
  | quote =>
    rw [run]
    unfold Form.quote
    split
    · exact absurd ⟨_, rfl⟩ h
    · rfl
  | string =>
    rw [run]
    unfold Form.string
    split
    · exact absurd ⟨_, .inl rfl⟩ h
    · exact absurd ⟨_, .inr rfl⟩ h
    · rfl
  | lambda =>
    rw [run]
    unfold Form.lambda
    split
    · exact absurd ⟨_, _, .inl rfl⟩ h
    · exact absurd ⟨_, _, .inr ⟨_, rfl⟩⟩ h
    · rfl
  | define =>
    rw [run]
    unfold Form.define
    split
    · exact absurd ⟨_, _, rfl⟩ h
    · exact absurd ⟨_, _, rfl⟩ h
    · rfl
  | cond =>
    rw [run]
    unfold Form.cond
    split
    · rfl
    · next clauses hclauses =>
      split
      · rfl
      · next last hlast =>
        refine absurd ⟨clauses, ?_, Form.mapM_clause?_eq_some.1 hclauses⟩ h
        rintro rfl
        cases hlast
  | ite =>
    rw [run]
    unfold Form.ite
    split
    · exact absurd ⟨_, _, _, rfl⟩ h
    · rfl
  | begin =>
    cases operands with
    | nil => rfl
    | cons e rest => exact absurd (List.cons_ne_nil e rest) h
  | list => exact absurd trivial h
  | curry =>
    rw [run]
    unfold Form.curry
    split
    · exact absurd ⟨_, _, rfl⟩ h
    · rfl
  | letIn =>
    rw [run]
    unfold Form.letIn
    split
    · exact absurd ⟨_, .inl ⟨_, _, rfl⟩⟩ h
    · exact absurd ⟨_, .inr ⟨_, rfl⟩⟩ h
    · rfl
  | eval =>
    rw [run]
    unfold Form.eval
    split
    · exact absurd ⟨_, rfl⟩ h
    · rfl
  | print =>
    rw [run]
    unfold Form.print
    split
    · exact absurd ⟨_, rfl⟩ h
    · rfl

end SpecialForm

namespace Form
variable {eval : Evaluator} {apply : Applier} {depth : Nat} {frame : FrameId}
  {operands : List Value}

theorem form?_eq_some {head : Value} {form : SpecialForm} (h : form? head = some form) :
    head = .symbol form.name := by
  cases head with
  | symbol name => rw [SpecialForm.name_of_ofName? h]
  | _ => cases h

theorem step_form (form : SpecialForm) :
    step eval apply depth frame (.symbol form.name) operands =
      form.run eval depth frame operands := by
  have hform : form? (.symbol form.name) = some form := SpecialForm.ofName?_name form
  rw [step, hform]
  cases form <;> rfl

theorem step_application {head : Value} (h : form? head = none) :
    step eval apply depth frame head operands =
      application eval apply depth frame head operands := by
  rw [step, h]

end Form

namespace Run
variable {w w' : World}

theorem ends_newClosure {params : List String} {body : Value} {frame : FrameId}
    {help : Option Value} {o : Except Error Value} :
    (newClosure params body frame help).Ends w o w' ↔
      o = .ok (w.closure params body frame help) ∧ w' = w.newClosure :=
  ends_of_ok rfl

theorem ends_newFrame {bindings : List (String × Value)} {parent : FrameId}
    {o : Except Error FrameId} :
    (newFrame bindings (some parent)).Ends w o w' ↔
      o = .ok w.nextFrame ∧ w' = w.newFrame bindings parent :=
  ends_of_ok rfl

theorem ends_bindGlobal {frame : FrameId} {name : String} {v : Value} {o : Except Error Unit} :
    (bindGlobal frame name v).Ends w o w' ↔ o = .ok () ∧ w' = w.define frame name v :=
  ends_of_ok rfl

end Run

namespace Form
open Run
variable {ev : Evaluator} {ap : Applier} {depth : Nat} {frame : FrameId} {w w' : World}

theorem ends_lambda {ps body : Value} {o : Except Error Step} :
    (lambda ev depth frame [ps, body]).Ends w o w' ↔
      (∃ names, params ps = .ok names ∧ o = .ok (.done (w.closure names body frame none)) ∧
        w' = w.newClosure) ∨
      ∃ error, params ps = .error error ∧ o = .error error ∧ w' = w := by
  simp only [lambda, ends_bind, ends_ofExcept, ends_newClosure, ends_pure]
  grind

theorem ends_lambda_help {ps help body : Value} {o : Except Error Step} :
    (lambda ev depth frame [ps, help, body]).Ends w o w' ↔
      (∃ names v w₁, params ps = .ok names ∧ (ev (depth + 1) frame help).Ends w (.ok v) w₁ ∧
        o = .ok (.done (w₁.closure names body frame (some v))) ∧ w' = w₁.newClosure) ∨
      (∃ names error, params ps = .ok names ∧ (ev (depth + 1) frame help).Ends w (.error error) w' ∧
        o = .error error) ∨
      ∃ error, params ps = .error error ∧ o = .error error ∧ w' = w := by
  simp only [lambda, ends_bind, ends_ofExcept, ends_newClosure, ends_pure]
  grind

theorem ends_define {name : String} {e : Value} {o : Except Error Step} :
    (define ev depth frame [.symbol name, e]).Ends w o w' ↔
      (∃ v w₁, (ev (depth + 1) frame e).Ends w (.ok v) w₁ ∧ o = .ok (.done (.symbol name)) ∧
        w' = w₁.define frame name v) ∨
      ∃ error, (ev (depth + 1) frame e).Ends w (.error error) w' ∧ o = .error error := by
  simp only [define, ends_bind, ends_bindGlobal, ends_pure]
  grind

theorem ends_define_target {target e : Value} (htarget : ∀ name, target ≠ .symbol name)
    {o : Except Error Step} :
    (define ev depth frame [target, e]).Ends w o w' ↔
      o = .error (.eval (.defineTarget target)) ∧ w' = w := by
  rw [define]
  · exact ends_fail
  · exact htarget

theorem ends_firstClause_cons {test e : Value} {clauses : List (Value × Value)}
    {o : Except Error (Option Value)} :
    (firstClause ev depth frame ((test, e) :: clauses)).Ends w o w' ↔
      (∃ v, (ev (depth + 1) frame test).Ends w (.ok v) w' ∧ v.isTruthy = true ∧ o = .ok (some e)) ∨
      (∃ v w₁, (ev (depth + 1) frame test).Ends w (.ok v) w₁ ∧ v.isTruthy = false ∧
        (firstClause ev depth frame clauses).Ends w₁ o w') ∨
      ∃ error, (ev (depth + 1) frame test).Ends w (.error error) w' ∧ o = .error error := by
  simp only [firstClause, ends_bind, ends_if, ends_pure]
  grind

theorem ends_cond {clauses : List (Value × Value)} {test last : Value}
    (hlast : clauses.getLast? = some (test, last)) {o : Except Error Step} :
    (cond ev depth frame (SpecialForm.clauseList clauses)).Ends w o w' ↔
      (∃ e, (firstClause ev depth frame clauses).Ends w (.ok (some e)) w' ∧
        o = .ok (.tail e frame)) ∨
      (∃ v w₁, (firstClause ev depth frame clauses).Ends w (.ok none) w₁ ∧
        (ev (depth + 1) frame test).Ends w₁ (.ok v) w' ∧ v.isTruthy = true ∧
        o = .ok (.done .unspecified)) ∨
      (∃ v w₁, (firstClause ev depth frame clauses).Ends w (.ok none) w₁ ∧
        (ev (depth + 1) frame test).Ends w₁ (.ok v) w' ∧ v.isTruthy = false ∧
        o = .error (.eval (.noClause test))) ∨
      (∃ error w₁, (firstClause ev depth frame clauses).Ends w (.ok none) w₁ ∧
        (ev (depth + 1) frame test).Ends w₁ (.error error) w' ∧ o = .error error) ∨
      ∃ error, (firstClause ev depth frame clauses).Ends w (.error error) w' ∧
        o = .error error := by
  simp only [cond, mapM_clause?_eq_some.2 rfl, hlast, ends_bind]
  constructor
  · rintro (⟨chosen, w₁, hchosen, h⟩ | h)
    · split at h
      · simp only [ends_pure] at h
        grind
      · simp only [ends_bind, ends_if, ends_pure, ends_fail] at h
        grind
    · grind
  · rintro (⟨e, hchosen, rfl⟩ | ⟨v, w₁, hchosen, hv, htrue, rfl⟩ |
      ⟨v, w₁, hchosen, hv, hfalse, rfl⟩ |
      ⟨error, w₁, hchosen, hv, rfl⟩ | h)
    · exact .inl ⟨_, _, hchosen, ends_pure.2 ⟨rfl, rfl⟩⟩
    · refine .inl ⟨_, _, hchosen, ends_bind_ok hv ?_⟩
      rw [if_pos htrue]
      exact ends_pure.2 ⟨rfl, rfl⟩
    · refine .inl ⟨_, _, hchosen, ends_bind_ok hv ?_⟩
      rw [if_neg (by simp [hfalse])]
      exact ends_fail.2 ⟨rfl, rfl⟩
    · exact .inl ⟨_, _, hchosen, ends_bind_error hv⟩
    · exact .inr h

theorem ends_cond_found {clauses : List (Value × Value)} {e : Value}
    (h : (firstClause ev depth frame clauses).Ends w (.ok (some e)) w') :
    (cond ev depth frame (SpecialForm.clauseList clauses)).Ends w (.ok (.tail e frame)) w' := by
  cases hlast : clauses.getLast? with
  | none =>
    obtain rfl := List.getLast?_eq_none_iff.1 hlast
    cases (ends_pure.1 h).1
  | some last => exact (ends_cond hlast).2 (.inl ⟨e, h, rfl⟩)

theorem ends_cond_error {clauses : List (Value × Value)} {error : Error}
    (h : (firstClause ev depth frame clauses).Ends w (.error error) w') :
    (cond ev depth frame (SpecialForm.clauseList clauses)).Ends w (.error error) w' := by
  cases hlast : clauses.getLast? with
  | none =>
    obtain rfl := List.getLast?_eq_none_iff.1 hlast
    cases (ends_pure.1 h).1
  | some last => exact (ends_cond hlast).2 (.inr (.inr (.inr (.inr ⟨error, h, rfl⟩))))

theorem ends_ite {test thenE elseE : Value} {o : Except Error Step} :
    (ite ev depth frame [test, thenE, elseE]).Ends w o w' ↔
      (∃ v, (ev (depth + 1) frame test).Ends w (.ok v) w' ∧
        o = .ok (.tail (if v.isTruthy then thenE else elseE) frame)) ∨
      ∃ error, (ev (depth + 1) frame test).Ends w (.error error) w' ∧ o = .error error := by
  simp only [ite, ends_bind, ends_if, ends_pure]
  grind

theorem ends_begin_cons {e next : Value} {rest : List Value} {o : Except Error Step} :
    (begin ev depth frame (e :: next :: rest)).Ends w o w' ↔
      (∃ v w₁, (ev (depth + 1) frame e).Ends w (.ok v) w₁ ∧
        (begin ev depth frame (next :: rest)).Ends w₁ o w') ∨
      ∃ error, (ev (depth + 1) frame e).Ends w (.error error) w' ∧ o = .error error := by
  rw [begin]
  · exact ends_bind
  · simp

theorem ends_list {es : List Value} {o : Except Error Step} :
    (list ev depth frame es).Ends w o w' ↔
      (∃ vs, (evalAll ev depth frame es).Ends w (.ok vs) w' ∧ o = .ok (.done (.list vs))) ∨
      ∃ error, (evalAll ev depth frame es).Ends w (.error error) w' ∧ o = .error error := by
  simp only [list, ends_bind, ends_pure]
  grind

theorem ends_evalAll_cons {e : Value} {es : List Value} {o : Except Error (List Value)} :
    (evalAll ev depth frame (e :: es)).Ends w o w' ↔
      (∃ v vs w₁, (ev (depth + 1) frame e).Ends w (.ok v) w₁ ∧
        (evalAll ev depth frame es).Ends w₁ (.ok vs) w' ∧ o = .ok (v :: vs)) ∨
      (∃ v error w₁, (ev (depth + 1) frame e).Ends w (.ok v) w₁ ∧
        (evalAll ev depth frame es).Ends w₁ (.error error) w' ∧ o = .error error) ∨
      ∃ error, (ev (depth + 1) frame e).Ends w (.error error) w' ∧ o = .error error := by
  simp only [evalAll_cons, ends_bind, ends_pure]
  grind

theorem ends_curry {f : Value} {given : List Value} {o : Except Error Step} :
    (curry ev depth frame [.list (f :: given)]).Ends w o w' ↔
      (∃ v n w₁ names, (ev (depth + 1) frame f).Ends w (.ok v) w₁ ∧ v.arity? = some n ∧
        given.length ≤ n ∧ names = curriedParams (n - given.length) ∧
        o = .ok (.done (w₁.closure names (.list (v :: given ++ names.map .symbol)) frame none)) ∧
        w' = w₁.newClosure) ∨
      (∃ v, (ev (depth + 1) frame f).Ends w (.ok v) w' ∧ v.arity? = none ∧
        o = .error (.type (.curry v.kind))) ∨
      (∃ v n, (ev (depth + 1) frame f).Ends w (.ok v) w' ∧ v.arity? = some n ∧ n < given.length ∧
        o = .error (.arity n given.length
          (some ("(curry " ++ (Value.list (f :: given)).text ++ ")")))) ∨
      ∃ error, (ev (depth + 1) frame f).Ends w (.error error) w' ∧ o = .error error := by
  rw [curry, ends_bind]
  constructor
  · rintro (⟨v, w₁, hv, h⟩ | h)
    · split at h
      · next harity =>
        simp only [ends_fail] at h
        grind
      · next n harity =>
        simp only [ends_if, ends_fail, ends_bind, ends_newClosure, ends_pure] at h
        grind
    · exact .inr (.inr (.inr h))
  · rintro (⟨v, n, w₁, names, hv, harity, hle, rfl, rfl, rfl⟩ | ⟨v, hv, harity, rfl⟩ |
      ⟨v, n, hv, harity, hlt, rfl⟩ | h)
    · refine .inl ⟨v, w₁, hv, ?_⟩
      simp only [harity, ends_if, ends_bind, ends_newClosure, ends_pure]
      grind
    · refine .inl ⟨v, w', hv, ?_⟩
      simp only [harity, ends_fail, and_self]
    · refine .inl ⟨v, w', hv, ?_⟩
      simp only [harity, if_pos hlt, ends_fail, and_self]
    · exact .inr h

theorem ends_bindValue {name : String} {e : Value} {o : Except Error Unit} :
    (bindValue ev depth frame name e).Ends w o w' ↔
      (∃ v w₁, (ev (depth + 1) frame e).Ends w (.ok v) w₁ ∧ o = .ok () ∧
        w' = w₁.bind frame name v) ∨
      ∃ error, (ev (depth + 1) frame e).Ends w (.error error) w' ∧ o = .error error := by
  rw [bindValue_eq, ends_bind]
  have hbound (v : Value) (w₁ : World) :
      (modify fun w => w.bind frame name v : Run Unit).Ends w₁ o w' ↔
        o = .ok () ∧ w' = w₁.bind frame name v := ends_of_ok rfl
  grind

theorem ends_bindValues_cons {name : String} {e : Value} {rest : List Value}
    {o : Except Error Unit} :
    (bindValues ev depth frame (.list [.symbol name, e] :: rest)).Ends w o w' ↔
      (∃ v w₁, (ev (depth + 1) frame e).Ends w (.ok v) w₁ ∧
        (bindValues ev depth frame rest).Ends (w₁.bind frame name v) o w') ∨
      ∃ error, (ev (depth + 1) frame e).Ends w (.error error) w' ∧ o = .error error := by
  simp only [bindValues, ends_bind, ends_bindValue]
  grind

theorem ends_bindValues_malformed {binding : Value} {rest : List Value}
    (h : ∀ name e, binding ≠ .list [.symbol name, e]) {o : Except Error Unit} :
    (bindValues ev depth frame (binding :: rest)).Ends w o w' ↔
      o = .error (.malformed .letIn) ∧ w' = w := by
  rw [bindValues]
  · exact ends_fail
  · simp
  · rintro name e rest' heq
    exact h name e (List.cons.inj heq).1

theorem ends_letIn {operands bindings : List Value} {body : Value}
    (hparts : letParts? operands = some (bindings, body)) {o : Except Error Step} :
    (letIn ev depth frame operands).Ends w o w' ↔
      ((bindValues ev depth w.nextFrame bindings).Ends (w.newFrame [] frame) (.ok ()) w' ∧
        o = .ok (.tail body w.nextFrame)) ∨
      ∃ error, (bindValues ev depth w.nextFrame bindings).Ends (w.newFrame [] frame)
        (.error error) w' ∧ o = .error error := by
  rw [letIn_of_letParts? hparts]
  simp only [ends_bind, ends_newFrame, ends_pure]
  grind

theorem ends_eval {e : Value} {o : Except Error Step} :
    (Form.eval ev depth frame [e]).Ends w o w' ↔
      (∃ code, (ev (depth + 1) frame e).Ends w (.ok code) w' ∧ (∀ source, code ≠ .string source) ∧
        o = .ok (.tail code frame)) ∨
      (∃ source code, (ev (depth + 1) frame e).Ends w (.ok (.string source)) w' ∧
        Value.parse {} source = .ok code ∧ o = .ok (.tail code frame)) ∨
      (∃ source fault, (ev (depth + 1) frame e).Ends w (.ok (.string source)) w' ∧
        Value.parse {} source = .error fault ∧ o = .error (.parse fault)) ∨
      ∃ error, (ev (depth + 1) frame e).Ends w (.error error) w' ∧ o = .error error := by
  rw [Form.eval, ends_bind]
  constructor
  · rintro (⟨code, w₁, hcode, h⟩ | h)
    · split at h
      · next source =>
        simp only [ends_bind, ends_parsed, ends_pure] at h
        cases hparse : Value.parse {} source with
        | ok v =>
          have hmap : (Except.ok v).mapError Error.parse = .ok v := rfl
          grind
        | error fault =>
          have hmap : (Except.error fault : Except ParseError Value).mapError Error.parse =
              .error (.parse fault) := rfl
          grind
      · next hsource =>
        simp only [ends_pure] at h
        grind
    · exact .inr (.inr (.inr h))
  · rintro (⟨code, hcode, hsource, rfl⟩ | ⟨source, code, hcode, hparse, rfl⟩ |
      ⟨source, fault, hcode, hparse, rfl⟩ | h)
    · refine .inl ⟨code, w', hcode, ?_⟩
      split
      · exact absurd rfl (hsource _)
      · simp
    · refine .inl ⟨.string source, w', hcode, ?_⟩
      exact ends_bind_ok (ends_parsed.2 ⟨by rw [hparse]; rfl, rfl⟩) (ends_pure.2 ⟨rfl, rfl⟩)
    · refine .inl ⟨.string source, w', hcode, ?_⟩
      exact ends_bind_error (ends_parsed.2 ⟨by rw [hparse]; rfl, rfl⟩)
    · exact .inr h

theorem ends_print {e : Value} {o : Except Error Step} :
    (Form.print ev depth frame [e]).Ends w o w' ↔
      (∃ v w₁, (ev (depth + 1) frame e).Ends w (.ok v) w₁ ∧ o = .ok (.done v) ∧
        w' = w₁.print v) ∨
      ∃ error, (ev (depth + 1) frame e).Ends w (.error error) w' ∧ o = .error error := by
  rw [print_eq, ends_bind]
  have hprinted (v : Value) (w₁ : World) :
      ((modify fun w => w.print v) >>= fun _ => pure (.done v) : Run Step).Ends w₁ o w' ↔
        o = .ok (.done v) ∧ w' = w₁.print v := ends_of_ok rfl
  grind

theorem ends_callFrame {c : Closure} {args : List Value} {expression : Option String}
    {o : Except Error FrameId} :
    (c.callFrame args expression).Ends w o w' ↔
      (c.params.length = args.length ∧ o = .ok w.nextFrame ∧
        w' = w.newFrame (c.params.zip args) c.frame) ∨
      (c.params.length ≠ args.length ∧
        o = .error (.arity c.params.length args.length expression) ∧ w' = w) := by
  rw [Closure.callFrame, ends_if, ends_newFrame, ends_fail]

theorem ends_callBuiltin {b : Builtin} {args : List Value} {inner : Nat}
    {o : Except Error Value} :
    (callBuiltin ap b args inner).Ends w o w' ↔
      ∃ w₁, (b.run ap args).Ends (w.atHostDepth inner) o w₁ ∧ w' = w₁.atHostDepth w.hostDepth := by
  simp only [callBuiltin, Run.atHostDepth, World.atHostDepth, Ends]
  cases b.run ap args { w with hostDepth := inner } with
  | ok v w₁ => cases o <;> grind
  | error halt w₁ => cases o <;> grind

def invoke (ap : Applier) (depth : Nat) (procedure : Value) (args : List Value) : Run Step :=
  match procedure with
  | .closure c => return .tail c.body (← enter c args)
  | .builtin b => return .done (← callBuiltin ap b args (depth + 1))
  | other => Run.fail (.type (.notProcedure other))

theorem application_eq {f : Value} {operands : List Value} :
    application ev ap depth frame f operands =
      ev (depth + 1) frame f >>= fun procedure =>
        evalAll ev depth frame operands >>= fun args => invoke ap depth procedure args := rfl

theorem ends_invoke_closure {c : Closure} {args : List Value} {o : Except Error Step} :
    (invoke ap depth (.closure c) args).Ends w o w' ↔
      (c.params.length = args.length ∧ o = .ok (.tail c.body w.nextFrame) ∧
        w' = w.newFrame (c.params.zip args) c.frame) ∨
      (c.params.length ≠ args.length ∧
        o = .error (.arity c.params.length args.length (some (lambdaText c))) ∧ w' = w) := by
  simp only [invoke, enter, ends_bind, ends_callFrame, ends_pure]
  grind

theorem ends_invoke_builtin {b : Builtin} {args : List Value} {o : Except Error Step} :
    (invoke ap depth (.builtin b) args).Ends w o w' ↔
      ∃ result w₁, (b.run ap args).Ends (w.atHostDepth (depth + 1)) result w₁ ∧
        o = result.map .done ∧ w' = w₁.atHostDepth w.hostDepth := by
  simp only [invoke, ends_bind, ends_callBuiltin, ends_pure]
  constructor
  · rintro (⟨v, w₁, ⟨w₂, hrun, rfl⟩, rfl, rfl⟩ | ⟨error, ⟨w₂, hrun, rfl⟩, rfl⟩)
    · exact ⟨.ok v, w₂, hrun, rfl, rfl⟩
    · exact ⟨.error error, w₂, hrun, rfl, rfl⟩
  · rintro ⟨result, w₁, hrun, rfl, rfl⟩
    cases result with
    | ok v => exact .inl ⟨v, _, ⟨w₁, hrun, rfl⟩, rfl, rfl⟩
    | error error => exact .inr ⟨error, ⟨w₁, hrun, rfl⟩, rfl⟩

theorem ends_invoke_other {v : Value} (h : v.arity? = none) {args : List Value}
    {o : Except Error Step} :
    (invoke ap depth v args).Ends w o w' ↔ o = .error (.type (.notProcedure v)) ∧ w' = w := by
  cases v with
  | closure | builtin => cases h
  | _ => exact ends_fail

end Form

section
open Run
variable {ap : Applier} {w w' : World} {o : Except Error Value}

theorem Binary.ends_readWithMacro {x expander : Value} :
    (Binary.run ap .readWithMacro x expander).Ends w o w' ↔
      (∃ e w₁, (ofExcept x.toText >>= readExpression).Ends w (.ok e) w₁ ∧
        (ap expander [e]).Ends w₁ o w') ∨
      ∃ error, (ofExcept x.toText >>= readExpression).Ends w (.error error) w' ∧
        o = .error error := by
  have hrun : Binary.run ap .readWithMacro x expander =
      (ofExcept x.toText >>= readExpression) >>= fun expression => ap expander [expression] :=
    (bind_assoc _ _ _).symm
  rw [hrun, ends_bind]

theorem BuiltinOf.ends_host {name : String} {arity slot : Nat} {args : List Value} :
    ((BuiltinOf.host name arity slot : Builtin).run ap args).Ends w o w' ↔
      (args.length = arity ∧
        ((∃ operation, w.host[slot]? = some operation ∧
          ((operation args).run ap).Ends w o w') ∨
        (w.host[slot]? = none ∧ o = .ok .unspecified ∧ w' = w))) ∨
      (args.length ≠ arity ∧ o = .error (.arity arity args.length (some name)) ∧ w' = w) := by
  have hrun : (BuiltinOf.host name arity slot : Builtin).run ap args =
      if args.length = arity then callHost ap slot args
      else fail (.arity arity args.length (some name)) := rfl
  have hhost : (callHost ap slot args).Ends w o w' ↔
      (∃ operation, w.host[slot]? = some operation ∧ ((operation args).run ap).Ends w o w') ∨
        (w.host[slot]? = none ∧ o = .ok .unspecified ∧ w' = w) := by
    have happly := callHost_apply ap slot args w
    cases hslot : w.host[slot]? with
    | none =>
      rw [hslot] at happly
      simp [ends_of_ok happly]
    | some operation =>
      rw [hslot] at happly
      simp [ends_congr happly]
  rw [hrun, ends_if, hhost, ends_fail]

theorem BuiltinOf.ends_arity {b : Builtin} {args : List Value} (h : args.length ≠ b.arity) :
    (b.run ap args).Ends w o w' ↔
      o = .error (.arity b.arity args.length (some b.name)) ∧ w' = w := by
  have hrun : b.run ap args = fail (.arity b.arity args.length (some b.name)) := by
    unfold BuiltinOf.run
    split
    · exact absurd rfl h
    · exact absurd rfl h
    · exact absurd rfl h
    · exact if_neg h
    · rfl
  rw [hrun, ends_fail]

end

section
open Run
variable {fuel depth : Nat} {frame : FrameId} {w w' : World} {o : Except Error Value}

theorem ends_lookup {name : String} : (lookup frame name).Ends w o w' ↔
    (∃ v, w.store.lookup? frame name = some v ∧ o = .ok v ∧ w' = w) ∨
      (w.store.lookup? frame name = none ∧ o = .error (.unbound name) ∧ w' = w) := by
  cases h : w.store.lookup? frame name with
  | some v => simp [ends_of_ok (show lookup frame name w = .ok v w by simp [lookup, h])]
  | none =>
    simp [ends_of_error (show lookup frame name w = .error (.error (.unbound name)) w by
      simp [lookup, h])]

theorem ends_evalBelow_cons {head : Value} {operands : List Value} :
    (evalBelow fuel depth frame (.list (head :: operands))).Ends w o w' ↔
      (∃ v, (Form.step (eval fuel) (apply fuel) depth frame head operands).Ends w
        (.ok (.done v)) w' ∧ o = .ok v) ∨
      (∃ e inner w₁, (Form.step (eval fuel) (apply fuel) depth frame head operands).Ends w
        (.ok (.tail e inner)) w₁ ∧ (eval fuel depth inner e).Ends w₁ o w') ∨
      ∃ error, (Form.step (eval fuel) (apply fuel) depth frame head operands).Ends w
        (.error error) w' ∧ o = .error error := by
  rw [evalBelow, ends_bind]
  constructor
  · rintro (⟨step, w₁, hstep, h⟩ | h)
    · cases step with
      | done v =>
        obtain ⟨rfl, rfl⟩ := ends_pure.1 h
        exact .inl ⟨v, hstep, rfl⟩
      | tail e inner => exact .inr (.inl ⟨e, inner, w₁, hstep, h⟩)
    · exact .inr (.inr h)
  · rintro (⟨v, hstep, rfl⟩ | ⟨e, inner, w₁, hstep, h⟩ | h)
    · exact .inl ⟨_, _, hstep, ends_pure.2 ⟨rfl, rfl⟩⟩
    · exact .inl ⟨_, _, hstep, h⟩
    · exact .inr h

theorem ends_apply_closure {c : Closure} {args : List Value} :
    (apply (fuel + 1) (.closure c) args).Ends w o w' ↔
      (c.params.length = args.length ∧ (eval fuel w.hostDepth w.nextFrame c.body).Ends
        (w.newFrame (c.params.zip args) c.frame) o w') ∨
      (c.params.length ≠ args.length ∧
        o = .error (.arity c.params.length args.length (some (Form.lambdaText c))) ∧ w' = w) := by
  have hrun : apply (fuel + 1) (.closure c) args w =
      (Form.enter c args >>= fun frame => eval fuel w.hostDepth frame c.body) w := by
    rw [apply]
    rfl
  rw [ends_congr hrun, ends_bind, Form.enter]
  simp only [Form.ends_callFrame]
  grind

theorem ends_apply_builtin {b : Builtin} {args : List Value} :
    (apply (fuel + 1) (.builtin b) args).Ends w o w' ↔
      ∃ w₁, (b.run (apply fuel) args).Ends (w.atHostDepth (w.hostDepth + 1)) o w₁ ∧
        w' = w₁.atHostDepth w.hostDepth := by
  have hrun : apply (fuel + 1) (.builtin b) args w =
      Form.callBuiltin (apply fuel) b args (w.hostDepth + 1) w := by
    rw [apply]
    rfl
  rw [ends_congr hrun, Form.ends_callBuiltin]

theorem ends_apply_other {v : Value} (h : v.arity? = none) {args : List Value} :
    (apply (fuel + 1) v args).Ends w o w' ↔ o = .error (.type (.notProcedure v)) ∧ w' = w := by
  have hrun : apply (fuel + 1) v args w = (fail (.type (.notProcedure v)) : Run Value) w := by
    rw [apply]
    cases v with
    | closure | builtin => cases h
    | _ => rfl
  rw [ends_congr hrun, ends_fail]

end

end Lisplet
