import Lisplet.Proofs.LetBinding
import Lisplet.Proofs.Parameters

/-! Special forms that are written wrongly. What is wrong is found before anything is evaluated, so
nothing has happened when it is reported. Only the bindings of a `let` are looked at one by one,
each after the values of those before it. -/
namespace Lisplet

namespace SpecialForm

/-- The operands are what the form is written with: as many and of the kinds that it takes, with
distinct symbols for parameters and a symbol for a name. -/
def WellShaped (form : SpecialForm) (operands : List Value) : Prop :=
  form.Accepts operands ∧ match form with
    | lambda =>
      ∃ names : List String, names.Nodup ∧ operands.head? = some (.list (names.map .symbol))
    | define => ∃ name, operands.head? = some (.symbol name)
    | _ => True

inductive Misshapen : SpecialForm → List Value → EvalFault → Prop where
  | operands {form : SpecialForm} {operands : List Value} (h : ¬ form.Accepts operands) :
    Misshapen form operands (.malformed form)
  | params {ps : Value} {rest : List Value} {fault : EvalFault}
    (hrest : lambda.Accepts (ps :: rest)) (h : Form.BadParams ps fault) :
    Misshapen lambda (ps :: rest) fault
  | target {target e : Value} (h : ∀ name, target ≠ .symbol name) :
    Misshapen define [target, e] (.defineTarget target)

theorem exists_misshapen {form : SpecialForm} {operands : List Value}
    (h : ¬ form.WellShaped operands) : ∃ fault, form.Misshapen operands fault ∧
      ∀ ev depth frame, form.run ev depth frame operands = Run.fail (.eval fault) := by
  by_cases haccepts : form.Accepts operands
  · cases form with
    | lambda =>
      obtain ⟨ps, rest, rfl⟩ : ∃ ps rest, operands = ps :: rest := by
        obtain ⟨ps, body, rfl | ⟨help, rfl⟩⟩ := haccepts
        · exact ⟨ps, [body], rfl⟩
        · exact ⟨ps, [help, body], rfl⟩
      obtain ⟨names, hnames, rfl, -⟩ | ⟨fault, hfault, hparams⟩ := Form.params_cases ps
      · exact absurd ⟨haccepts, names, hnames, rfl⟩ h
      · refine ⟨fault, .params haccepts hfault, fun ev depth frame => ?_⟩
        obtain ⟨_, body, hshape | ⟨help, hshape⟩⟩ := haccepts
        all_goals
          cases hshape
          rw [run, Form.lambda, hparams]
          rfl
    | define =>
      obtain ⟨target, e, rfl⟩ := haccepts
      have htarget : ∀ name, target ≠ .symbol name := fun name hname =>
        h ⟨⟨target, e, rfl⟩, name, by rw [hname]; rfl⟩
      refine ⟨_, .target htarget, fun ev depth frame => ?_⟩
      rw [run, Form.define]
      exact htarget
    | _ => exact absurd ⟨haccepts, trivial⟩ h
  · exact ⟨_, .operands haccepts, fun ev depth frame => run_of_not_accepts haccepts⟩

end SpecialForm

namespace Form
open Run

def bindingList (bindings : List (String × Value)) : List Value :=
  bindings.map fun (name, e) => .list [.symbol name, e]

def IsBinding (clause : Value) : Prop := ∃ name e, clause = .list [.symbol name, e]

theorem exists_not_isBinding {clauses : List Value}
    (h : ∀ bindings, clauses ≠ bindingList bindings) :
    ∃ earlier bad later, clauses = bindingList earlier ++ bad :: later ∧ ¬ IsBinding bad := by
  induction clauses with
  | nil => exact absurd rfl (h [])
  | cons clause rest ih =>
    by_cases hclause : IsBinding clause
    · obtain ⟨name, e, rfl⟩ := hclause
      obtain ⟨earlier, bad, later, rfl, hbad⟩ := ih fun bindings hrest =>
        h ((name, e) :: bindings) (congrArg _ hrest)
      exact ⟨(name, e) :: earlier, bad, later, rfl, hbad⟩
    · exact ⟨[], clause, rest, rfl, hclause⟩

/-- The expressions are evaluated in order, and each value is bound before the next expression. -/
inductive BindsAll (ev : Evaluator) (depth : Nat) (frame : FrameId) :
    List (String × Value) → World → World → Prop where
  | nil {w : World} : BindsAll ev depth frame [] w w
  | cons {name : String} {e v : Value} {rest : List (String × Value)} {w w₁ w' : World}
    (he : (ev (depth + 1) frame e).Ends w (.ok v) w₁)
    (hrest : BindsAll ev depth frame rest (w₁.bind frame name v) w') :
    BindsAll ev depth frame ((name, e) :: rest) w w'

/-- One of the expressions ends with an error, after those before it were bound. -/
def BindsUpTo (ev : Evaluator) (depth : Nat) (frame : FrameId) (bindings : List (String × Value))
    (w : World) (error : Error) (w' : World) : Prop :=
  ∃ before name e after w₁, bindings = before ++ (name, e) :: after ∧
    BindsAll ev depth frame before w w₁ ∧ (ev (depth + 1) frame e).Ends w₁ (.error error) w'

variable {ev : Evaluator} {depth : Nat} {frame : FrameId} {w w' : World} {o : Except Error Unit}

theorem bindsAll_cons {name : String} {e : Value} {rest : List (String × Value)} :
    BindsAll ev depth frame ((name, e) :: rest) w w' ↔
      ∃ v w₁, (ev (depth + 1) frame e).Ends w (.ok v) w₁ ∧
        BindsAll ev depth frame rest (w₁.bind frame name v) w' := by
  constructor
  · rintro ⟨⟩
    exact ⟨_, _, ‹_›, ‹_›⟩
  · rintro ⟨v, w₁, he, hrest⟩
    exact .cons he hrest

theorem bindsUpTo_cons {name : String} {e : Value} {rest : List (String × Value)} {error : Error} :
    BindsUpTo ev depth frame ((name, e) :: rest) w error w' ↔
      (ev (depth + 1) frame e).Ends w (.error error) w' ∨
      ∃ v w₁, (ev (depth + 1) frame e).Ends w (.ok v) w₁ ∧
        BindsUpTo ev depth frame rest (w₁.bind frame name v) error w' := by
  constructor
  · rintro ⟨before, name', e', after, w₁, hsplit, hbefore, herror⟩
    cases hbefore with
    | nil =>
      cases hsplit
      exact .inl herror
    | cons he hrest =>
      cases hsplit
      exact .inr ⟨_, _, he, _, _, _, _, _, rfl, hrest, herror⟩
  · rintro (herror | ⟨v, w₁, he, before, name', e', after, w₂, rfl, hbefore, herror⟩)
    · exact ⟨[], name, e, rest, w, rfl, .nil, herror⟩
    · exact ⟨(name, e) :: before, name', e', after, w₂, rfl, .cons he hbefore, herror⟩

theorem ends_bindValues_bad {bad : Value} (hbad : ¬ IsBinding bad) (later : List Value)
    (earlier : List (String × Value)) :
    (bindValues ev depth frame (bindingList earlier ++ bad :: later)).Ends w o w' ↔
      (BindsAll ev depth frame earlier w w' ∧ o = .error (.malformed .letIn)) ∨
      ∃ error, BindsUpTo ev depth frame earlier w error w' ∧ o = .error error := by
  induction earlier generalizing w with
  | nil =>
    have hbad : ∀ name e, bad ≠ .list [.symbol name, e] := fun name e h => hbad ⟨name, e, h⟩
    have hend : (bindValues ev depth frame (bad :: later)).Ends w o w' ↔ _ :=
      ends_bindValues_malformed hbad
    rw [bindingList, List.map_nil, List.nil_append, hend]
    constructor
    · rintro ⟨rfl, rfl⟩
      exact .inl ⟨.nil, rfl⟩
    · rintro (⟨⟨⟩, rfl⟩ | ⟨error, ⟨before, name, e, after, w₁, hsplit, -⟩, -⟩)
      · exact ⟨rfl, rfl⟩
      · simp at hsplit
  | cons binding rest ih =>
    obtain ⟨name, e⟩ := binding
    have hend : (bindValues ev depth frame
        (.list [.symbol name, e] :: (bindingList rest ++ bad :: later))).Ends w o w' ↔ _ :=
      ends_bindValues_cons
    change (bindValues ev depth frame
      (.list [.symbol name, e] :: (bindingList rest ++ bad :: later))).Ends w o w' ↔ _
    rw [hend]
    simp only [ih, bindsAll_cons, bindsUpTo_cons]
    grind

end Form

section
open Form
variable {fuel depth : Nat} {frame : FrameId} {w w' : World}

theorem ends_letIn_bad {bad : Value} (hbad : ¬ IsBinding bad) (hdepth : depth < maxEvalDepth)
    (earlier : List (String × Value)) (later : List Value) (body : Value)
    {o : Except Error Value} :
    (eval (fuel + 1) depth frame (SpecialForm.letIn.applied
        [.list (bindingList earlier ++ bad :: later), body])).Ends w o w' ↔
      (BindsAll (eval fuel) depth w.nextFrame earlier (w.newFrame [] frame) w' ∧
        o = .error (.malformed .letIn)) ∨
      ∃ error, BindsUpTo (eval fuel) depth w.nextFrame earlier (w.newFrame [] frame) error w' ∧
        o = .error error := by
  rw [eval_of_lt hdepth, SpecialForm.applied, ends_evalBelow_cons]
  have hparts : letParts? [.list (bindingList earlier ++ bad :: later), body] =
      some (bindingList earlier ++ bad :: later, body) := rfl
  simp only [step_form, SpecialForm.run, ends_letIn hparts, ends_bindValues_bad hbad]
  grind

/-- What is wrong with a special form is found before any of its parts is evaluated and with the
world as it is: however the parts would be evaluated the form fails, and no fuel is needed for them.
Only a clause of a `let` that is no binding is found after the values of those before it, in order,
and the first error of these comes before it. -/
theorem malformed_before_parts (fuel depth : Nat) (frame : FrameId) (w : World) :
    (∀ (form : SpecialForm) (operands : List Value), ¬ form.WellShaped operands →
      ∃ fault, form.Misshapen operands fault ∧
        (∀ ev ap, step ev ap depth frame (.symbol form.name) operands = Run.fail (.eval fault)) ∧
        eval (fuel + 1) depth frame (form.applied operands) w =
          .error (.error (.eval (if maxEvalDepth ≤ depth then .tooDeep else fault))) w) ∧
    ∀ (clauses : List Value) (body : Value), (∀ bindings, clauses ≠ bindingList bindings) →
      ∃ earlier bad later, clauses = bindingList earlier ++ bad :: later ∧ ¬ IsBinding bad ∧
        (maxEvalDepth ≤ depth →
          eval (fuel + 1) depth frame (SpecialForm.letIn.applied [.list clauses, body]) w =
            .error (.error .tooDeep) w) ∧
        (depth < maxEvalDepth → ∀ o w',
          (eval (fuel + 1) depth frame
              (SpecialForm.letIn.applied [.list clauses, body])).Ends w o w' ↔
            (BindsAll (eval fuel) depth w.nextFrame earlier (w.newFrame [] frame) w' ∧
              o = .error (.malformed .letIn)) ∨
            ∃ error, BindsUpTo (eval fuel) depth w.nextFrame earlier (w.newFrame [] frame)
              error w' ∧ o = .error error) := by
  refine ⟨fun form operands hshape => ?_, fun clauses body hclauses => ?_⟩
  · obtain ⟨fault, hfault, hrun⟩ := SpecialForm.exists_misshapen hshape
    have hstep (ev : Evaluator) (ap : Applier) :
        step ev ap depth frame (.symbol form.name) operands = Run.fail (.eval fault) :=
      step_form form |>.trans (hrun ev depth frame)
    refine ⟨fault, hfault, hstep, ?_⟩
    by_cases hdepth : maxEvalDepth ≤ depth
    · rw [eval_of_le hdepth, if_pos hdepth]
      rfl
    · rw [eval_of_lt (Nat.not_le.1 hdepth), if_neg hdepth, SpecialForm.applied, evalBelow, hstep]
      rfl
  · obtain ⟨earlier, bad, later, rfl, hbad⟩ := exists_not_isBinding hclauses
    refine ⟨earlier, bad, later, rfl, hbad, fun hdepth => ?_, fun hdepth o w' => ?_⟩
    · rw [eval_of_le hdepth]
      rfl
    · exact ends_letIn_bad hbad hdepth earlier later body

end

namespace Session
open Form

/-- A parameter that stands twice is found with no fuel for anything else, and a clause without an
expression once the value of the clause before it is bound. -/
theorem malformed_before_parts_lambda_let : ∃ w,
    Leads (start (.standard "/") ⟨[], ""⟩ .empty) w ∧
    (¬ SpecialForm.lambda.WellShaped [.list [.symbol "x", .symbol "x"], .symbol "x"] ∧
      eval 1 0 globalFrame (SpecialForm.lambda.applied
        [.list [.symbol "x", .symbol "x"], .symbol "x"]) w =
          .error (.error (.eval (.duplicateParam "x"))) w) ∧
    (∀ bindings, [.list [.symbol "a", .int 1], .list [.symbol "b"]] ≠ bindingList bindings) ∧
    (eval 2 0 globalFrame (SpecialForm.letIn.applied
      [.list [.list [.symbol "a", .int 1], .list [.symbol "b"]], .symbol "a"])).Ends w
        (.error (.malformed .letIn))
        ((w.newFrame [] globalFrame).bind w.nextFrame "a" (.int 1)) := by
  obtain ⟨w, hw⟩ : ∃ w, w = start (.standard "/") ⟨[], ""⟩ .empty := ⟨_, rfl⟩
  refine ⟨w, hw ▸ .refl _, ?_, ?_⟩
  · have hshape : ¬ SpecialForm.lambda.WellShaped
        [.list [.symbol "x", .symbol "x"], .symbol "x"] := by
      rintro ⟨-, names, hnames, hps⟩
      have hps : [Value.symbol "x", .symbol "x"] = names.map .symbol :=
        Value.list.inj (Option.some.inj hps)
      obtain ⟨x, rest, rfl, hx, hrest⟩ := List.map_eq_cons_iff.1 hps.symm
      obtain ⟨y, rest, rfl, hy, -⟩ := List.map_eq_cons_iff.1 hrest
      cases hx
      cases hy
      simp at hnames
    obtain ⟨fault, -, hstep, heval⟩ := (malformed_before_parts 0 0 globalFrame w).1 _ _ hshape
    have hfault : step (Lisplet.eval 0) (apply 0) 0 globalFrame (.symbol "lambda")
        [.list [.symbol "x", .symbol "x"], .symbol "x"] w =
        .error (.error (.eval (.duplicateParam "x"))) w := rfl
    have hsame := (congrFun (hstep (Lisplet.eval 0) (apply 0)) w).symm.trans hfault
    cases hsame
    exact ⟨hshape, heval⟩
  · have hclauses : ∀ bindings,
        [.list [.symbol "a", .int 1], .list [.symbol "b"]] ≠ bindingList bindings := by
      intro bindings h
      obtain ⟨first, rest, rfl, hfirst, hrest⟩ := List.map_eq_cons_iff.1 h.symm
      obtain ⟨second, rest, rfl, hsecond, -⟩ := List.map_eq_cons_iff.1 hrest
      simp at hsecond
    refine ⟨hclauses, ?_⟩
    obtain ⟨earlier, bad, later, hsplit, hbad, -, hends⟩ :=
      (malformed_before_parts 1 0 globalFrame w).2 _ (.symbol "a") hclauses
    have hearlier : earlier = [("a", .int 1)] := by
      match earlier, hsplit with
      | [], hsplit =>
        cases hsplit
        exact absurd ⟨_, _, rfl⟩ hbad
      | [(name, e)], hsplit =>
        cases hsplit
        rfl
      | _ :: _ :: rest, hsplit =>
        have hlength := congrArg List.length hsplit
        simp [bindingList] at hlength
    refine (hends (by decide) _ _).2 (.inl ⟨?_, rfl⟩)
    rw [hearlier]
    exact .cons rfl .nil

end Session

end Lisplet
