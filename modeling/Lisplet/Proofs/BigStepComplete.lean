import Mathlib.Order.Filter.AtTopBot.Basic
import Lisplet.Proofs.BigStepSound
import Lisplet.Proofs.Fuel

/-! What ends by the rules ends by the loop, given fuel enough. -/
namespace Lisplet
open Run

def Task.run (fuel : Nat) : (t : Task) → Run t.Result
  | .expr depth frame e => Lisplet.eval fuel depth frame e
  | .form depth frame e => evalBelow fuel depth frame e
  | .exprs depth frame es => Form.evalAll (Lisplet.eval fuel) depth frame es
  | .clauses depth frame list => Form.firstClause (Lisplet.eval fuel) depth frame list
  | .bindings depth frame list => Form.bindValues (Lisplet.eval fuel) depth frame list
  | .call f args => apply fuel f args
  | .builtin b args => b.run (apply fuel) args
  | .reply r => r.run (apply fuel)

/-- The task ends so with all but the least amounts of fuel. -/
def Task.Ends (t : Task) (w : World) (o : Except Error t.Result) (w' : World) : Prop :=
  ∀ᶠ fuel in Filter.atTop, (t.run fuel).Ends w o w'

theorem eventually_succ {p q : Nat → Prop} (h : ∀ᶠ n in Filter.atTop, p n)
    (hsucc : ∀ n, p n → q (n + 1)) : ∀ᶠ n in Filter.atTop, q n := by
  obtain ⟨least, h⟩ := Filter.eventually_atTop.1 h
  refine Filter.eventually_atTop.2 ⟨least + 1, fun n hn => ?_⟩
  obtain ⟨n, rfl⟩ := Nat.exists_eq_add_of_le' (Nat.le_trans (Nat.le_add_left 1 least) hn)
  exact hsucc n (h n (Nat.le_of_succ_le_succ hn))

namespace Task.Ends
variable {depth : Nat} {frame : FrameId} {e : Value} {w w₁ w₂ w' : World} {o : Except Error Value}

theorem of_forall {t : Task} {o : Except Error t.Result} (h : ∀ fuel, (t.run fuel).Ends w o w') :
    t.Ends w o w' :=
  Filter.Eventually.of_forall h

/-! An expression and what stands in it. -/

theorem tooDeep (hdepth : maxEvalDepth ≤ depth) :
    (Task.expr depth frame e).Ends w (.error .tooDeep) w := by
  refine eventually_succ (.of_forall fun fuel => trivial) fun fuel _ => ?_
  rw [Task.run, eval_of_le hdepth]
  exact ends_fail.2 ⟨rfl, rfl⟩

theorem within (hdepth : depth < maxEvalDepth) (h : (Task.form depth frame e).Ends w o w') :
    (Task.expr depth frame e).Ends w o w' := by
  refine eventually_succ h fun fuel h => ?_
  rw [Task.run, eval_of_lt hdepth]
  exact h

theorem self (hsymbol : ∀ name, e ≠ .symbol name) (hlist : ∀ items, e ≠ .list items) :
    (Task.form depth frame e).Ends w (.ok e) w := by
  refine of_forall fun fuel => ?_
  cases e with
  | symbol name => exact absurd rfl (hsymbol name)
  | list items => exact absurd rfl (hlist items)
  | _ => exact ends_pure.2 ⟨rfl, rfl⟩

/-! A special form: it has a value, it leaves an expression in tail position, or it fails. -/

section
variable (form : SpecialForm) {operands : List Value}

theorem done {v : Value} (h : ∀ᶠ fuel in Filter.atTop,
    (form.run (Lisplet.eval fuel) depth frame operands).Ends w (.ok (.done v)) w') :
    (Task.form depth frame (form.applied operands)).Ends w (.ok v) w' := by
  filter_upwards [h] with fuel h
  refine ends_evalBelow_cons.2 (.inl ⟨v, ?_, rfl⟩)
  rwa [Form.step_form]

theorem tail {inner : FrameId} (h : ∀ᶠ fuel in Filter.atTop,
    (form.run (Lisplet.eval fuel) depth frame operands).Ends w (.ok (.tail e inner)) w₁)
    (htail : (Task.expr depth inner e).Ends w₁ o w') :
    (Task.form depth frame (form.applied operands)).Ends w o w' := by
  filter_upwards [h, htail] with fuel h htail
  refine ends_evalBelow_cons.2 (.inr (.inl ⟨e, inner, w₁, ?_, htail⟩))
  rwa [Form.step_form]

theorem failed {error : Error} (h : ∀ᶠ fuel in Filter.atTop,
    (form.run (Lisplet.eval fuel) depth frame operands).Ends w (.error error) w') :
    (Task.form depth frame (form.applied operands)).Ends w (.error error) w' := by
  filter_upwards [h] with fuel h
  refine ends_evalBelow_cons.2 (.inr (.inr ⟨error, ?_, rfl⟩))
  rwa [Form.step_form]

variable {form}

theorem first_failed {error : Error} (he : (Task.expr (depth + 1) frame e).Ends w (.error error) w')
    (hrun : ∀ fuel, ∃ k, form.run (Lisplet.eval fuel) depth frame operands =
      Lisplet.eval fuel (depth + 1) frame e >>= k) :
    (Task.form depth frame (form.applied operands)).Ends w (.error error) w' := by
  refine failed form (he.mono fun fuel he => ?_)
  obtain ⟨k, hrun⟩ := hrun fuel
  rw [hrun]
  exact ends_bind_error he

end

theorem malformed {form : SpecialForm} {operands : List Value} (h : ¬ form.Accepts operands) :
    (Task.form depth frame (form.applied operands)).Ends w (.error (.malformed form)) w := by
  refine failed form (.of_forall fun fuel => ?_)
  rw [SpecialForm.run_of_not_accepts h]
  exact ends_fail.2 ⟨rfl, rfl⟩

theorem lambda {ps body : Value} {names : List String} (hparams : Form.params ps = .ok names) :
    (Task.form depth frame (SpecialForm.lambda.applied [ps, body])).Ends w
      (.ok (w.closure names body frame none)) w.newClosure := by
  refine done .lambda (.of_forall fun fuel => ?_)
  change (Form.lambda (Lisplet.eval fuel) depth frame [ps, body]).Ends w _ _
  exact Form.ends_lambda.2 (.inl ⟨_, hparams, rfl, rfl⟩)

theorem lambdaParams {ps : Value} {rest : List Value} {error : Error}
    (hrest : SpecialForm.lambda.Accepts (ps :: rest)) (hparams : Form.params ps = .error error) :
    (Task.form depth frame (SpecialForm.lambda.applied (ps :: rest))).Ends w (.error error) w := by
  refine failed .lambda (.of_forall fun fuel => ?_)
  obtain ⟨_, body, heq | ⟨help, heq⟩⟩ := hrest
  · cases heq
    change (Form.lambda (Lisplet.eval fuel) depth frame [ps, body]).Ends w _ _
    exact Form.ends_lambda.2 (.inr ⟨_, hparams, rfl, rfl⟩)
  · cases heq
    exact Form.ends_lambda_help.2 (.inr (.inr ⟨_, hparams, rfl, rfl⟩))

theorem condAgain {clauses : List (Value × Value)} {test : Value}
    (htests : (Task.clauses depth frame clauses).Ends w (.ok none) w₁)
    (hlast : clauses.getLast? = some (test, e))
    (hagain : (Task.expr (depth + 1) frame test).Ends w₁ o w₂) :
    (Task.form depth frame (SpecialForm.cond.applied (SpecialForm.clauseList clauses))).Ends w
      (o.bind fun v => if v.isTruthy then .ok .unspecified else .error (.eval (.noClause test)))
      w₂ := by
  have hboth := htests.and hagain
  match o with
  | .ok v =>
    cases hv : v.isTruthy with
    | true =>
      simp only [Except.bind, hv]
      exact done .cond (hboth.mono fun _ h =>
        (Form.ends_cond hlast).2 (.inr (.inl ⟨v, w₁, h.1, h.2, hv, rfl⟩)))
    | false =>
      simp only [Except.bind, hv]
      exact failed .cond (hboth.mono fun _ h =>
        (Form.ends_cond hlast).2 (.inr (.inr (.inl ⟨v, w₁, h.1, h.2, hv, rfl⟩))))
  | .error error =>
    exact failed .cond (hboth.mono fun _ h =>
      (Form.ends_cond hlast).2 (.inr (.inr (.inr (.inl ⟨error, w₁, h.1, h.2, rfl⟩)))))

theorem beginNext {next v : Value} {rest : List Value}
    (he : (Task.expr (depth + 1) frame e).Ends w (.ok v) w₁)
    (hrest : (Task.form depth frame (SpecialForm.begin.applied (next :: rest))).Ends w₁ o w') :
    (Task.form depth frame (SpecialForm.begin.applied (e :: next :: rest))).Ends w o w' := by
  filter_upwards [he, hrest] with fuel he hrest
  have hstep {o : Except Error Step} {w₂ : World}
      (h : (Form.step (Lisplet.eval fuel) (apply fuel) depth frame (.symbol SpecialForm.begin.name)
        (next :: rest)).Ends w₁ o w₂) :
      (Form.step (Lisplet.eval fuel) (apply fuel) depth frame (.symbol SpecialForm.begin.name)
        (e :: next :: rest)).Ends w o w₂ := by
    rw [Form.step_form] at h ⊢
    exact Form.ends_begin_cons.2 (.inl ⟨v, w₁, he, h⟩)
  refine ends_evalBelow_cons.2 ((ends_evalBelow_cons.1 hrest).imp ?_ (.imp ?_ ?_))
  · exact fun ⟨u, h, ho⟩ => ⟨u, hstep h, ho⟩
  · exact fun ⟨last, inner, w₂, h, htail⟩ => ⟨last, inner, w₂, hstep h, htail⟩
  · exact fun ⟨error, h, ho⟩ => ⟨error, hstep h, ho⟩

theorem list {es : List Value} {o : Except Error (List Value)}
    (hes : (Task.exprs depth frame es).Ends w o w') :
    (Task.form depth frame (SpecialForm.list.applied es)).Ends w (o.map .list) w' := by
  cases o with
  | ok vs => exact done .list (hes.mono fun _ h => Form.ends_list.2 (.inl ⟨vs, h, rfl⟩))
  | error error =>
    exact failed .list (hes.mono fun _ h => Form.ends_list.2 (.inr ⟨error, h, rfl⟩))

theorem letIn {operands bindings : List Value} {body : Value}
    (hparts : Form.letParts? operands = some (bindings, body))
    (hbindings : (Task.bindings depth w.nextFrame bindings).Ends (w.newFrame [] frame) (.ok ()) w₁)
    (htail : (Task.expr depth w.nextFrame body).Ends w₁ o w') :
    (Task.form depth frame (SpecialForm.letIn.applied operands)).Ends w o w' :=
  tail .letIn (hbindings.mono fun _ h => (Form.ends_letIn hparts).2 (.inl ⟨h, rfl⟩)) htail

theorem letInError {operands bindings : List Value} {body : Value} {error : Error}
    (hparts : Form.letParts? operands = some (bindings, body))
    (hbindings : (Task.bindings depth w.nextFrame bindings).Ends (w.newFrame [] frame)
      (.error error) w') :
    (Task.form depth frame (SpecialForm.letIn.applied operands)).Ends w (.error error) w' :=
  failed .letIn (hbindings.mono fun _ h => (Form.ends_letIn hparts).2 (.inr ⟨error, h, rfl⟩))

/-! Application: the procedure, the arguments, and what the call then does. -/

section
variable {f procedure : Value} {operands args : List Value} (hform : Form.form? f = none)
  (hf : (Task.expr (depth + 1) frame f).Ends w (.ok procedure) w₁)
include hform

theorem headError {error : Error} (hf : (Task.expr (depth + 1) frame f).Ends w (.error error) w₁) :
    (Task.form depth frame (.list (f :: operands))).Ends w (.error error) w₁ := by
  filter_upwards [hf] with fuel hf
  refine ends_evalBelow_cons.2 (.inr (.inr ⟨error, ?_, rfl⟩))
  rw [Form.step_application hform, Form.application_eq]
  exact ends_bind_error hf

include hf

theorem argumentError {error : Error}
    (hargs : (Task.exprs depth frame operands).Ends w₁ (.error error) w₂) :
    (Task.form depth frame (.list (f :: operands))).Ends w (.error error) w₂ := by
  filter_upwards [hf, hargs] with fuel hf hargs
  refine ends_evalBelow_cons.2 (.inr (.inr ⟨error, ?_, rfl⟩))
  rw [Form.step_application hform, Form.application_eq]
  exact ends_bind_ok hf (ends_bind_error hargs)

variable (hargs : (Task.exprs depth frame operands).Ends w₁ (.ok args) w₂)
include hargs

theorem invoke : ∀ᶠ fuel in Filter.atTop, ∀ o w',
    (Form.invoke (apply fuel) depth procedure args).Ends w₂ o w' →
      (Form.step (Lisplet.eval fuel) (apply fuel) depth frame f operands).Ends w o w' := by
  filter_upwards [hf, hargs] with fuel hf hargs o w' h
  rw [Form.step_application hform, Form.application_eq]
  exact ends_bind_ok hf (ends_bind_ok hargs h)

theorem invokeError {error : Error}
    (h : ∀ ap, (Form.invoke ap depth procedure args).Ends w₂ (.error error) w₂) :
    (Task.form depth frame (.list (f :: operands))).Ends w (.error error) w₂ :=
  (invoke hform hf hargs).mono fun _ hstep =>
    ends_evalBelow_cons.2 (.inr (.inr ⟨error, hstep _ _ (h _), rfl⟩))

omit hf in
theorem closure {c : Closure} (hf : (Task.expr (depth + 1) frame f).Ends w (.ok (.closure c)) w₁)
    (hcount : c.params.length = args.length)
    (htail : (Task.expr depth w₂.nextFrame c.body).Ends
      (w₂.newFrame (c.params.zip args) c.frame) o w') :
    (Task.form depth frame (.list (f :: operands))).Ends w o w' := by
  filter_upwards [invoke hform hf hargs, htail] with fuel hstep htail
  have hcall := hstep _ _ (Form.ends_invoke_closure.2 (.inl ⟨hcount, rfl, rfl⟩))
  exact ends_evalBelow_cons.2 (.inr (.inl ⟨_, _, _, hcall, htail⟩))

omit hf in
theorem builtin {b : Builtin} (hf : (Task.expr (depth + 1) frame f).Ends w (.ok (.builtin b)) w₁)
    (hrun : (Task.builtin b args).Ends (w₂.atHostDepth (depth + 1)) o w') :
    (Task.form depth frame (.list (f :: operands))).Ends w o (w'.atHostDepth w₂.hostDepth) := by
  filter_upwards [invoke hform hf hargs, hrun] with fuel hstep hrun
  have hcall := hstep _ _ (Form.ends_invoke_builtin.2 ⟨_, _, hrun, rfl, rfl⟩)
  cases o with
  | ok v => exact ends_evalBelow_cons.2 (.inl ⟨_, hcall, rfl⟩)
  | error error => exact ends_evalBelow_cons.2 (.inr (.inr ⟨_, hcall, rfl⟩))

end

/-! Expressions, tests and bindings from left to right. -/

theorem exprsCons {v : Value} {es : List Value} {o : Except Error (List Value)}
    (he : (Task.expr (depth + 1) frame e).Ends w (.ok v) w₁)
    (hes : (Task.exprs depth frame es).Ends w₁ o w₂) :
    (Task.exprs depth frame (e :: es)).Ends w (o.map (v :: ·)) w₂ := by
  filter_upwards [he, hes] with fuel he hes
  cases o with
  | ok vs => exact Form.ends_evalAll_cons.2 (.inl ⟨v, vs, w₁, he, hes, rfl⟩)
  | error error => exact Form.ends_evalAll_cons.2 (.inr (.inl ⟨v, error, w₁, he, hes, rfl⟩))

theorem clausesNext {test v : Value} {clauses : List (Value × Value)}
    {o : Except Error (Option Value)}
    (htest : (Task.expr (depth + 1) frame test).Ends w (.ok v) w₁) (hv : v.isTruthy = false)
    (hrest : (Task.clauses depth frame clauses).Ends w₁ o w') :
    (Task.clauses depth frame ((test, e) :: clauses)).Ends w o w' := by
  filter_upwards [htest, hrest] with fuel htest hrest
  exact Form.ends_firstClause_cons.2 (.inr (.inl ⟨v, w₁, htest, hv, hrest⟩))

theorem bindingsCons {name : String} {v : Value} {rest : List Value} {o : Except Error Unit}
    (he : (Task.expr (depth + 1) frame e).Ends w (.ok v) w₁)
    (hrest : (Task.bindings depth frame rest).Ends (w₁.bind frame name v) o w') :
    (Task.bindings depth frame (.list [.symbol name, e] :: rest)).Ends w o w' := by
  filter_upwards [he, hrest] with fuel he hrest
  exact Form.ends_bindValues_cons.2 (.inl ⟨v, w₁, he, hrest⟩)

/-! Calls from within a builtin, builtins, and what they call. -/

theorem callError {f : Value} {args : List Value} {error : Error}
    (h : ∀ fuel, (apply (fuel + 1) f args).Ends w (.error error) w) :
    (Task.call f args).Ends w (.error error) w :=
  eventually_succ (.of_forall fun _ => trivial) fun fuel _ => h fuel

theorem readWithMacro {x expander : Value}
    (hread : (Run.ofExcept x.toText >>= Run.readExpression).Ends w (.ok e) w₁)
    (hcall : (Task.call expander [e]).Ends w₁ o w') :
    (Task.builtin (.binary .readWithMacro) [x, expander]).Ends w o w' := by
  filter_upwards [hcall] with fuel hcall
  exact Binary.ends_readWithMacro.2 (.inl ⟨e, w₁, hread, hcall⟩)

theorem composed {f g x y : Value} (hg : (Task.call g [x]).Ends w (.ok y) w₁)
    (hf : (Task.call f [y]).Ends w₁ o w') : (Task.builtin (.composed f g) [x]).Ends w o w' := by
  filter_upwards [hg, hf] with fuel hg hf
  exact ends_bind_ok hg hf

theorem host {name : String} {arity slot : Nat} {operation : HostOperation} {args : List Value}
    (hcount : args.length = arity) (hslot : w.host[slot]? = some operation)
    (hreply : (Task.reply (operation args)).Ends w o w') :
    (Task.builtin (.host name arity slot) args).Ends w o w' := by
  filter_upwards [hreply] with fuel hreply
  exact BuiltinOf.ends_host.2 (.inl ⟨hcount, .inl ⟨operation, hslot, hreply⟩⟩)

theorem call {f : Value} {args : List Value} {resume : Except Error Value → Reply}
    {result : Except Error Value} (hcall : (Task.call f args).Ends w result w₁)
    (hresume : (Task.reply (resume result)).Ends w₁ o w') :
    (Task.reply (.call f args resume)).Ends w o w' := by
  filter_upwards [hcall, hresume] with fuel hcall hresume
  exact ends_attempt_bind.2 ⟨result, w₁, hcall, hresume⟩

end Task.Ends

open Task.Ends in
theorem complete {t : Task} {w w' : World} {o : Except Error t.Result} (h : BigStep t w o w') :
    t.Ends w o w' := by
  induction h with
  | tooDeep hdepth => exact .tooDeep hdepth
  | within hdepth _ ih => exact .within hdepth ih
  | symbol h => exact of_forall fun _ => ends_lookup.2 (.inl ⟨_, h, rfl, rfl⟩)
  | unbound h => exact of_forall fun _ => ends_lookup.2 (.inr ⟨h, rfl, rfl⟩)
  | nil => exact of_forall fun _ => ends_pure.2 ⟨rfl, rfl⟩
  | self hsymbol hlist => exact .self hsymbol hlist
  | malformed h => exact .malformed h
  | quote => exact done .quote (.of_forall fun _ => ends_pure.2 ⟨rfl, rfl⟩)
  | stringText | stringSymbol => exact done .string (.of_forall fun _ => ends_pure.2 ⟨rfl, rfl⟩)
  | lambda hparams => exact .lambda hparams
  | lambdaHelp hparams _ ih => exact done .lambda (ih.mono fun _ h =>
      Form.ends_lambda_help.2 (.inl ⟨_, _, _, hparams, h, rfl, rfl⟩))
  | lambdaParams hrest hparams => exact .lambdaParams hrest hparams
  | lambdaError hparams _ ih => exact failed .lambda (ih.mono fun _ h =>
      Form.ends_lambda_help.2 (.inr (.inl ⟨_, _, hparams, h, rfl⟩)))
  | define _ ih =>
    exact done .define (ih.mono fun _ h => Form.ends_define.2 (.inl ⟨_, _, h, rfl, rfl⟩))
  | defineTarget htarget => exact failed .define (.of_forall fun _ =>
      (Form.ends_define_target htarget).2 ⟨rfl, rfl⟩)
  | defineError _ ih | iteError _ ih | beginError _ ih | curryError _ ih | evalError _ ih
  | printError _ ih => exact ih.first_failed fun _ => ⟨_, rfl⟩
  | cond _ _ ihtests ihtail =>
    exact tail .cond (ihtests.mono fun _ h => Form.ends_cond_found h) ihtail
  | condError _ ih => exact failed .cond (ih.mono fun _ h => Form.ends_cond_error h)
  | condUnspecified _ hlast _ hv ihtests ihagain | condNoClause _ hlast _ hv ihtests ihagain =>
    simpa [Except.bind, hv] using ihtests.condAgain hlast ihagain
  | condAgainError _ hlast _ ihtests ihagain => exact ihtests.condAgain hlast ihagain
  | ite _ _ ihtest ihtail =>
    exact tail .ite (ihtest.mono fun _ h => Form.ends_ite.2 (.inl ⟨_, h, rfl⟩)) ihtail
  | beginLast _ ih => exact tail .begin (.of_forall fun _ => ends_pure.2 ⟨rfl, rfl⟩) ih
  | beginNext _ _ ihfirst ihrest => exact ihfirst.beginNext ihrest
  | list _ ih | listError _ ih => exact ih.list
  | curry _ harity hgiven hnames ih => exact done .curry (ih.mono fun _ h =>
      Form.ends_curry.2 (.inl ⟨_, _, _, _, h, harity, hgiven, hnames, rfl, rfl⟩))
  | curryType _ harity ih => exact failed .curry (ih.mono fun _ h =>
      Form.ends_curry.2 (.inr (.inl ⟨_, h, harity, rfl⟩)))
  | curryArity _ harity hgiven ih => exact failed .curry (ih.mono fun _ h =>
      Form.ends_curry.2 (.inr (.inr (.inl ⟨_, _, h, harity, hgiven, rfl⟩))))
  | letOne _ _ ihbindings ihtail | letMany _ _ ihbindings ihtail =>
    exact .letIn rfl ihbindings ihtail
  | letOneError _ ih | letManyError _ ih => exact .letInError rfl ih
  | evalCode _ hcode _ ihe ihtail => exact tail .eval (ihe.mono fun _ h =>
      Form.ends_eval.2 (.inl ⟨_, h, hcode, rfl⟩)) ihtail
  | evalText _ hcode _ ihe ihtail => exact tail .eval (ihe.mono fun _ h =>
      Form.ends_eval.2 (.inr (.inl ⟨_, _, h, hcode, rfl⟩))) ihtail
  | evalUnreadable _ hcode ih => exact failed .eval (ih.mono fun _ h =>
      Form.ends_eval.2 (.inr (.inr (.inl ⟨_, _, h, hcode, rfl⟩))))
  | print _ ih => exact done .print (ih.mono fun _ h =>
      Form.ends_print.2 (.inl ⟨_, _, h, rfl, rfl⟩))
  | closure hform _ _ hcount _ ihf ihargs ihtail => exact .closure hform ihargs ihf hcount ihtail
  | closureArity hform _ _ hcount ihf ihargs =>
    exact .invokeError hform ihf ihargs fun _ =>
      Form.ends_invoke_closure.2 (.inr ⟨hcount, rfl, rfl⟩)
  | builtin hform _ _ _ ihf ihargs ihrun => exact .builtin hform ihargs ihf ihrun
  | notProcedure hform _ harity _ ihf ihargs =>
    exact .invokeError hform ihf ihargs fun _ => (Form.ends_invoke_other harity).2 ⟨rfl, rfl⟩
  | headError hform _ ih => exact .headError hform ih
  | argumentError hform _ _ ihf ihargs => exact .argumentError hform ihf ihargs
  | exprsNil | clausesNil | bindingsNil => exact of_forall fun _ => ends_pure.2 ⟨rfl, rfl⟩
  | exprsCons _ _ ihe ihes | exprsRest _ _ ihe ihes => exact ihe.exprsCons ihes
  | exprsError _ ih => exact ih.mono fun _ h => Form.ends_evalAll_cons.2 (.inr (.inr ⟨_, h, rfl⟩))
  | clausesFound _ hv ih =>
    exact ih.mono fun _ h => Form.ends_firstClause_cons.2 (.inl ⟨_, h, hv, rfl⟩)
  | clausesNext _ hv _ ihtest ihrest => exact ihtest.clausesNext hv ihrest
  | clausesError _ ih =>
    exact ih.mono fun _ h => Form.ends_firstClause_cons.2 (.inr (.inr ⟨_, h, rfl⟩))
  | bindingsCons _ _ ihe ihrest => exact ihe.bindingsCons ihrest
  | bindingsError _ ih =>
    exact ih.mono fun _ h => Form.ends_bindValues_cons.2 (.inr ⟨_, h, rfl⟩)
  | bindingsMalformed h =>
    exact of_forall fun _ => (Form.ends_bindValues_malformed h).2 ⟨rfl, rfl⟩
  | callClosure hcount _ ih =>
    exact eventually_succ ih fun _ h => ends_apply_closure.2 (.inl ⟨hcount, h⟩)
  | callArity hcount =>
    exact .callError fun _ => ends_apply_closure.2 (.inr ⟨hcount, rfl, rfl⟩)
  | callBuiltin _ ih => exact eventually_succ ih fun _ h => ends_apply_builtin.2 ⟨_, h, rfl⟩
  | callNotProcedure harity => exact .callError fun _ => (ends_apply_other harity).2 ⟨rfl, rfl⟩
  | unary hrun => exact of_forall fun _ => hrun
  | binary hop hrun => exact of_forall fun _ => hrun _
  | readWithMacro hread _ ih => exact .readWithMacro hread ih
  | readWithMacroError hread =>
    exact of_forall fun _ => Binary.ends_readWithMacro.2 (.inr ⟨_, hread, rfl⟩)
  | composed _ _ ihg ihf => exact ihg.composed ihf
  | composedError _ ih => exact ih.mono fun _ h => ends_bind_error h
  | host hcount hslot _ ih => exact .host hcount hslot ih
  | hostMissing hcount hslot =>
    exact of_forall fun _ => BuiltinOf.ends_host.2 (.inl ⟨hcount, .inr ⟨hslot, rfl, rfl⟩⟩)
  | builtinArity hcount => exact of_forall fun _ => (BuiltinOf.ends_arity hcount).2 ⟨rfl, rfl⟩
  | finish => exact of_forall fun _ => ends_ofExcept.2 ⟨rfl, rfl⟩
  | call _ _ ihcall ihresume => exact ihcall.call ihresume

section
variable {depth : Nat} {frame : FrameId} {e : Value} {w w' : World} {o : Except Error Value}

theorem EvalEnds.bigStep (h : EvalEnds depth frame e w o w') :
    BigStep (.expr depth frame e) w o w' := by
  obtain ⟨fuel, h⟩ := h
  exact (sound fuel).1 h

theorem BigStep.evalEnds (h : BigStep (.expr depth frame e) w o w') :
    EvalEnds depth frame e w o w' :=
  (complete h).exists

end

/-- The loop ends as the rules say, with results and with errors alike. -/
theorem evalEnds_iff_bigStep {depth : Nat} {frame : FrameId} {e : Value} {w w' : World}
    {o : Except Error Value} :
    EvalEnds depth frame e w o w' ↔ BigStep (.expr depth frame e) w o w' :=
  ⟨EvalEnds.bigStep, BigStep.evalEnds⟩

theorem applyEnds_iff_bigStep {f : Value} {args : List Value} {w w' : World}
    {o : Except Error Value} : ApplyEnds f args w o w' ↔ BigStep (.call f args) w o w' := by
  constructor
  · rintro ⟨fuel, h⟩
    exact (sound fuel).2 h
  · intro h
    exact (complete h).exists

end Lisplet
