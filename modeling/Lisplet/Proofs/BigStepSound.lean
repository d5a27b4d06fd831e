import Lisplet.Proofs.FormEnds

/-! What ends by the loop ends by the rules. -/
namespace Lisplet
open Run

/-- What the rules say of an expression if a step with it ends so. -/
def Concludes (depth : Nat) (frame : FrameId) (e : Value) (w : World) :
    Except Error Step → World → Prop
  | .ok (.done v), w₁ => BigStep (.form depth frame e) w (.ok v) w₁
  | .ok (.tail next inner), w₁ => ∀ o w', BigStep (.expr depth inner next) w₁ o w' →
    BigStep (.form depth frame e) w o w'
  | .error error, w₁ => BigStep (.form depth frame e) w (.error error) w₁

def Evaluator.Sound (ev : Evaluator) : Prop :=
  ∀ {depth frame e w o w'}, (ev depth frame e).Ends w o w' →
    BigStep (.expr depth frame e) w o w'

def Applier.Sound (ap : Applier) : Prop :=
  ∀ {f args w o w'}, (ap f args).Ends w o w' → BigStep (.call f args) w o w'

namespace Evaluator.Sound
variable {ev : Evaluator} {depth : Nat} {frame : FrameId} {w w' : World} (heval : ev.Sound)
include heval

theorem exprs {es : List Value} {o : Except Error (List Value)}
    (h : (Form.evalAll ev depth frame es).Ends w o w') :
    BigStep (.exprs depth frame es) w o w' := by
  induction es generalizing w o with
  | nil =>
    obtain ⟨rfl, rfl⟩ := ends_pure.1 h
    exact .exprsNil
  | cons e es ih =>
    obtain ⟨v, vs, w₁, he, hes, rfl⟩ | ⟨v, error, w₁, he, hes, rfl⟩ | ⟨error, he, rfl⟩ :=
      Form.ends_evalAll_cons.1 h
    · exact .exprsCons (heval he) (ih hes)
    · exact .exprsRest (heval he) (ih hes)
    · exact .exprsError (heval he)

theorem clauses {clauses : List (Value × Value)} {o : Except Error (Option Value)}
    (h : (Form.firstClause ev depth frame clauses).Ends w o w') :
    BigStep (.clauses depth frame clauses) w o w' := by
  induction clauses generalizing w o with
  | nil =>
    obtain ⟨rfl, rfl⟩ := ends_pure.1 h
    exact .clausesNil
  | cons clause clauses ih =>
    obtain ⟨v, htest, hv, rfl⟩ | ⟨v, w₁, htest, hv, hrest⟩ | ⟨error, htest, rfl⟩ :=
      Form.ends_firstClause_cons.1 h
    · exact .clausesFound (heval htest) hv
    · exact .clausesNext (heval htest) hv (ih hrest)
    · exact .clausesError (heval htest)

theorem bindings {bindings : List Value} {o : Except Error Unit}
    (h : (Form.bindValues ev depth frame bindings).Ends w o w') :
    BigStep (.bindings depth frame bindings) w o w' := by
  fun_induction Form.bindValues ev depth frame bindings generalizing w with
  | case1 =>
    obtain ⟨rfl, rfl⟩ := ends_pure.1 h
    exact .bindingsNil
  | case2 name e rest ih =>
    obtain ⟨v, w₁, he, hrest⟩ | ⟨error, he, rfl⟩ := Form.ends_bindValues_cons.1 h
    · exact .bindingsCons (heval he) (ih hrest)
    · exact .bindingsError (heval he)
  | case3 bindings hnil hcons =>
    obtain ⟨rfl, rfl⟩ := ends_fail.1 h
    obtain ⟨binding, rest, rfl⟩ := List.exists_cons_of_ne_nil hnil
    refine .bindingsMalformed fun name e heq => ?_
    exact hcons name e rest (by rw [heq])

omit heval in
theorem lambda {ps body : Value} {o : Except Error Step}
    (h : (Form.lambda ev depth frame [ps, body]).Ends w o w') :
    Concludes depth frame (SpecialForm.lambda.applied [ps, body]) w o w' := by
  obtain ⟨names, hparams, rfl, rfl⟩ | ⟨error, hparams, rfl, rfl⟩ := Form.ends_lambda.1 h
  · exact .lambda hparams
  · exact .lambdaParams ⟨ps, body, .inl rfl⟩ hparams

theorem lambdaHelp {ps help body : Value} {o : Except Error Step}
    (h : (Form.lambda ev depth frame [ps, help, body]).Ends w o w') :
    Concludes depth frame (SpecialForm.lambda.applied [ps, help, body]) w o w' := by
  obtain ⟨names, v, w₁, hparams, hhelp, rfl, rfl⟩ | ⟨names, error, hparams, hhelp, rfl⟩ |
    ⟨error, hparams, rfl, rfl⟩ := Form.ends_lambda_help.1 h
  · exact .lambdaHelp hparams (heval hhelp)
  · exact .lambdaError hparams (heval hhelp)
  · exact .lambdaParams ⟨ps, body, .inr ⟨help, rfl⟩⟩ hparams

theorem define {target e : Value} {o : Except Error Step}
    (h : (Form.define ev depth frame [target, e]).Ends w o w') :
    Concludes depth frame (SpecialForm.define.applied [target, e]) w o w' := by
  by_cases htarget : ∃ name, target = .symbol name
  · obtain ⟨name, rfl⟩ := htarget
    obtain ⟨v, w₁, he, rfl, rfl⟩ | ⟨error, he, rfl⟩ := Form.ends_define.1 h
    · exact .define (heval he)
    · exact .defineError (heval he)
  · have hsymbol : ∀ name, target ≠ .symbol name := fun name heq => htarget ⟨name, heq⟩
    rw [Form.define] at h
    · obtain ⟨rfl, rfl⟩ := ends_fail.1 h
      exact .defineTarget hsymbol
    · exact hsymbol

theorem cond {list : List (Value × Value)} (hne : list ≠ []) {o : Except Error Step}
    (h : (Form.cond ev depth frame (SpecialForm.clauseList list)).Ends w o w') :
    Concludes depth frame (SpecialForm.cond.applied (SpecialForm.clauseList list)) w o w' := by
  obtain ⟨⟨test, last⟩, hlast⟩ := Option.ne_none_iff_exists'.1 (mt List.getLast?_eq_none_iff.1 hne)
  obtain ⟨e, hchosen, rfl⟩ | ⟨v, w₁, hchosen, hagain, hv, rfl⟩ |
    ⟨v, w₁, hchosen, hagain, hv, rfl⟩ | ⟨error, w₁, hchosen, hagain, rfl⟩ |
    ⟨error, hchosen, rfl⟩ := (Form.ends_cond hlast).1 h
  · exact fun o w' htail => .cond (heval.clauses hchosen) htail
  · exact .condUnspecified (heval.clauses hchosen) hlast (heval hagain) hv
  · exact .condNoClause (heval.clauses hchosen) hlast (heval hagain) hv
  · exact .condAgainError (heval.clauses hchosen) hlast (heval hagain)
  · exact .condError (heval.clauses hchosen)

theorem ite {test thenE elseE : Value} {o : Except Error Step}
    (h : (Form.ite ev depth frame [test, thenE, elseE]).Ends w o w') :
    Concludes depth frame (SpecialForm.ite.applied [test, thenE, elseE]) w o w' := by
  obtain ⟨v, htest, rfl⟩ | ⟨error, htest, rfl⟩ := Form.ends_ite.1 h
  · exact fun o w' htail => .ite (heval htest) htail
  · exact .iteError (heval htest)

theorem begin {operands : List Value} (hne : operands ≠ []) {o : Except Error Step}
    (h : (Form.begin ev depth frame operands).Ends w o w') :
    Concludes depth frame (SpecialForm.begin.applied operands) w o w' := by
  induction operands generalizing w with
  | nil => exact absurd rfl hne
  | cons e rest ih =>
    cases rest with
    | nil =>
      obtain ⟨rfl, rfl⟩ := ends_pure.1 h
      exact fun o w' htail => .beginLast htail
    | cons next rest =>
      obtain ⟨v, w₁, he, hrest⟩ | ⟨error, he, rfl⟩ := Form.ends_begin_cons.1 h
      · have htail := ih (List.cons_ne_nil next rest) hrest
        match o, htail with
        | .ok (.done v), htail => exact .beginNext (heval he) htail
        | .ok (.tail e inner), htail =>
          exact fun o w' hlast => .beginNext (heval he) (htail o w' hlast)
        | .error error, htail => exact .beginNext (heval he) htail
      · exact .beginError (heval he)

theorem list {es : List Value} {o : Except Error Step}
    (h : (Form.list ev depth frame es).Ends w o w') :
    Concludes depth frame (SpecialForm.list.applied es) w o w' := by
  obtain ⟨vs, hes, rfl⟩ | ⟨error, hes, rfl⟩ := Form.ends_list.1 h
  · exact .list (heval.exprs hes)
  · exact .listError (heval.exprs hes)

theorem curry {f : Value} {given : List Value} {o : Except Error Step}
    (h : (Form.curry ev depth frame [.list (f :: given)]).Ends w o w') :
    Concludes depth frame (SpecialForm.curry.applied [.list (f :: given)]) w o w' := by
  obtain ⟨v, n, w₁, names, hf, harity, hgiven, hnames, rfl, rfl⟩ | ⟨v, hf, harity, rfl⟩ |
    ⟨v, n, hf, harity, hgiven, rfl⟩ | ⟨error, hf, rfl⟩ := Form.ends_curry.1 h
  · exact .curry (heval hf) harity hgiven hnames
  · exact .curryType (heval hf) harity
  · exact .curryArity (heval hf) harity hgiven
  · exact .curryError (heval hf)

theorem letIn {operands bindings : List Value} {body : Value}
    (hparts : Form.letParts? operands = some (bindings, body)) {o : Except Error Step}
    (h : (Form.letIn ev depth frame operands).Ends w o w') :
    Concludes depth frame (SpecialForm.letIn.applied operands) w o w' := by
  obtain ⟨hbindings, rfl⟩ | ⟨error, hbindings, rfl⟩ := (Form.ends_letIn hparts).1 h
  · exact fun o w' htail => .letIn hparts (heval.bindings hbindings) htail
  · exact .letInError hparts (heval.bindings hbindings)

theorem eval {e : Value} {o : Except Error Step}
    (h : (Form.eval ev depth frame [e]).Ends w o w') :
    Concludes depth frame (SpecialForm.eval.applied [e]) w o w' := by
  obtain ⟨code, he, hcode, rfl⟩ | ⟨source, code, he, hcode, rfl⟩ |
    ⟨source, fault, he, hcode, rfl⟩ | ⟨error, he, rfl⟩ := Form.ends_eval.1 h
  · exact fun o w' htail => .evalCode (heval he) hcode htail
  · exact fun o w' htail => .evalText (heval he) hcode htail
  · exact .evalUnreadable (heval he) hcode
  · exact .evalError (heval he)

theorem print {e : Value} {o : Except Error Step}
    (h : (Form.print ev depth frame [e]).Ends w o w') :
    Concludes depth frame (SpecialForm.print.applied [e]) w o w' := by
  obtain ⟨v, w₁, he, rfl, rfl⟩ | ⟨error, he, rfl⟩ := Form.ends_print.1 h
  · exact .print (heval he)
  · exact .printError (heval he)

theorem form {form : SpecialForm} {operands : List Value} {o : Except Error Step}
    (h : (form.run ev depth frame operands).Ends w o w') :
    Concludes depth frame (form.applied operands) w o w' := by
  by_cases haccepts : form.Accepts operands
  · cases form with
    | quote =>
      obtain ⟨v, rfl⟩ := haccepts
      obtain ⟨rfl, rfl⟩ := ends_pure.1 h
      exact .quote
    | string =>
      obtain ⟨text, rfl | rfl⟩ := haccepts
      · obtain ⟨rfl, rfl⟩ := ends_pure.1 h
        exact .stringText
      · obtain ⟨rfl, rfl⟩ := ends_pure.1 h
        exact .stringSymbol
    | lambda =>
      obtain ⟨ps, body, rfl | ⟨help, rfl⟩⟩ := haccepts
      · have h : (Form.lambda ev depth frame [ps, body]).Ends w o w' := h
        exact lambda h
      · exact heval.lambdaHelp h
    | define =>
      obtain ⟨target, e, rfl⟩ := haccepts
      exact heval.define h
    | cond =>
      obtain ⟨clauses, hne, rfl⟩ := haccepts
      exact heval.cond hne h
    | ite =>
      obtain ⟨test, thenE, elseE, rfl⟩ := haccepts
      exact heval.ite h
    | begin => exact heval.begin haccepts h
    | list => exact heval.list h
    | curry =>
      obtain ⟨f, given, rfl⟩ := haccepts
      exact heval.curry h
    | letIn =>
      obtain ⟨bindings, body, hparts⟩ := Form.exists_letParts? haccepts
      exact heval.letIn hparts h
    | eval =>
      obtain ⟨e, rfl⟩ := haccepts
      exact heval.eval h
    | print =>
      obtain ⟨e, rfl⟩ := haccepts
      exact heval.print h
  · rw [SpecialForm.run_of_not_accepts haccepts] at h
    obtain ⟨rfl, rfl⟩ := ends_fail.1 h
    exact .malformed haccepts

end Evaluator.Sound

namespace Applier.Sound
variable {ap : Applier} {w w' : World} (hcalls : ap.Sound)
include hcalls

theorem reply {r : Reply} {o : Except Error Value} (h : (r.run ap).Ends w o w') :
    BigStep (.reply r) w o w' := by
  induction r generalizing w with
  | finish result =>
    obtain ⟨rfl, rfl⟩ := ends_ofExcept.1 h
    exact .finish
  | call f args resume ih =>
    obtain ⟨result, w₁, hcall, hresume⟩ := ends_attempt_bind.1 h
    exact .call (hcalls hcall) (ih result hresume)

theorem binary {op : Binary} {x y : Value} {o : Except Error Value}
    (h : (op.run ap x y).Ends w o w') : BigStep (.builtin (.binary op) [x, y]) w o w' := by
  by_cases hop : op = .readWithMacro
  · subst hop
    obtain ⟨expression, w₁, hread, hcall⟩ | ⟨error, hread, rfl⟩ := Binary.ends_readWithMacro.1 h
    · exact .readWithMacro hread (hcalls hcall)
    · exact .readWithMacroError hread
  · exact .binary hop fun ap' => Binary.run_eq_run ap ap' hop x y ▸ h

theorem builtin {b : Builtin} {args : List Value} {o : Except Error Value}
    (h : (b.run ap args).Ends w o w') : BigStep (.builtin b args) w o w' := by
  by_cases hcount : args.length = b.arity
  · cases b with
    | unary op =>
      obtain ⟨x, rfl⟩ := List.length_eq_one_iff.1 hcount
      exact .unary h
    | binary op =>
      match args, hcount with
      | [x, y], _ => exact hcalls.binary h
    | composed outer inner =>
      obtain ⟨x, rfl⟩ := List.length_eq_one_iff.1 hcount
      obtain ⟨y, w₁, hinner, houter⟩ | ⟨error, hinner, rfl⟩ := ends_bind.1 h
      · exact .composed (hcalls hinner) (hcalls houter)
      · exact .composedError (hcalls hinner)
    | host name arity slot =>
      obtain ⟨-, ⟨operation, hslot, hreply⟩ | ⟨hslot, rfl, rfl⟩⟩ | ⟨hne, -⟩ :=
        BuiltinOf.ends_host.1 h
      · exact .host hcount hslot (hcalls.reply hreply)
      · exact .hostMissing hcount hslot
      · exact absurd hcount hne
  · obtain ⟨rfl, rfl⟩ := (BuiltinOf.ends_arity hcount).1 h
    exact .builtinArity hcount

theorem application {ev : Evaluator} (heval : ev.Sound) {depth : Nat} {frame : FrameId} {f : Value}
    {operands : List Value} (hform : Form.form? f = none) {o : Except Error Step}
    (h : (Form.application ev ap depth frame f operands).Ends w o w') :
    Concludes depth frame (.list (f :: operands)) w o w' := by
  rw [Form.application_eq] at h
  obtain ⟨procedure, w₁, hf, h⟩ | ⟨error, hf, rfl⟩ := ends_bind.1 h
  · obtain ⟨args, w₂, hargs, h⟩ | ⟨error, hargs, rfl⟩ := ends_bind.1 h
    · cases procedure with
      | closure c =>
        obtain ⟨hcount, rfl, rfl⟩ | ⟨hcount, rfl, rfl⟩ := Form.ends_invoke_closure.1 h
        · exact fun o w' htail => .closure hform (heval hf) (heval.exprs hargs) hcount htail
        · exact .closureArity hform (heval hf) (heval.exprs hargs) hcount
      | builtin b =>
        obtain ⟨result, w₃, hrun, rfl, rfl⟩ := Form.ends_invoke_builtin.1 h
        have hbuiltin := BigStep.builtin hform (heval hf) (heval.exprs hargs)
          (hcalls.builtin hrun)
        cases result with
        | ok v => exact hbuiltin
        | error error => exact hbuiltin
      | number | symbol | string | bool | list | unspecified =>
        obtain ⟨rfl, rfl⟩ := (Form.ends_invoke_other rfl).1 h
        exact .notProcedure hform (heval hf) rfl (heval.exprs hargs)
    · exact .argumentError hform (heval hf) (heval.exprs hargs)
  · exact .headError hform (heval hf)

end Applier.Sound

theorem form_sound {fuel depth : Nat} {frame : FrameId} {e : Value} {w w' : World}
    {o : Except Error Value} (heval : (eval fuel).Sound) (hcalls : (apply fuel).Sound)
    (h : (evalBelow fuel depth frame e).Ends w o w') : BigStep (.form depth frame e) w o w' := by
  match e with
  | .symbol name =>
    obtain ⟨v, hv, rfl, rfl⟩ | ⟨hv, rfl, rfl⟩ := ends_lookup.1 h
    · exact .symbol hv
    · exact .unbound hv
  | .list [] =>
    obtain ⟨rfl, rfl⟩ := ends_pure.1 h
    exact .nil
  | .list (head :: operands) =>
    have hstep {o : Except Error Step} {w₁ : World}
        (h : (Form.step (eval fuel) (apply fuel) depth frame head operands).Ends w o w₁) :
        Concludes depth frame (.list (head :: operands)) w o w₁ := by
      cases hform : Form.form? head with
      | none =>
        rw [Form.step_application hform] at h
        exact hcalls.application heval hform h
      | some form =>
        obtain rfl := Form.form?_eq_some hform
        rw [Form.step_form] at h
        exact heval.form h
    obtain ⟨v, hdone, rfl⟩ | ⟨next, inner, w₁, hstop, htail⟩ | ⟨error, herror, rfl⟩ :=
      ends_evalBelow_cons.1 h
    · exact hstep hdone
    · exact hstep hstop o w' (heval htail)
    · exact hstep herror
  | .number _ | .string _ | .bool _ | .closure _ | .builtin _ | .unspecified =>
    obtain ⟨rfl, rfl⟩ := ends_pure.1 h
    exact .self (by simp) (by simp)

/-- What ends with some fuel ends by the rules. -/
theorem sound (fuel : Nat) : (eval fuel).Sound ∧ (apply fuel).Sound := by
  induction fuel with
  | zero =>
    refine ⟨fun {depth frame e w o w'} h => ?_, fun {f args w o w'} h => ?_⟩
    · rw [eval] at h
      exact absurd h not_ends_outOfFuel
    · rw [apply] at h
      exact absurd h not_ends_outOfFuel
  | succ fuel ih =>
    obtain ⟨heval, hcalls⟩ := ih
    refine ⟨fun {depth frame e w o w'} h => ?_, fun {f args w o w'} h => ?_⟩
    · by_cases hdepth : depth < maxEvalDepth
      · rw [eval_of_lt hdepth] at h
        exact .within hdepth (form_sound heval hcalls h)
      · rw [eval_of_le (Nat.not_lt.1 hdepth)] at h
        obtain ⟨rfl, rfl⟩ := ends_fail.1 h
        exact .tooDeep (Nat.not_lt.1 hdepth)
    · cases f with
      | closure c =>
        obtain ⟨hcount, hbody⟩ | ⟨hcount, rfl, rfl⟩ := ends_apply_closure.1 h
        · exact .callClosure hcount (heval hbody)
        · exact .callArity hcount
      | builtin b =>
        obtain ⟨w₁, hrun, rfl⟩ := ends_apply_builtin.1 h
        exact .callBuiltin (hcalls.builtin hrun)
      | number | symbol | string | bool | list | unspecified =>
        obtain ⟨rfl, rfl⟩ := (ends_apply_other rfl).1 h
        exact .callNotProcedure rfl

end Lisplet
