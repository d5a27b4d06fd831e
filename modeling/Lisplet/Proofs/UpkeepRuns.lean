import Lisplet.Proofs.Upkeep

/-! Every run is kept up. However a run ends, with a result, with an error or for want of fuel, it
leads from a stage to a later one, and what comes of it is at hand there; what it begins on the way
it begins at a later stage too. -/
namespace Lisplet
open Run

namespace Upkeep
variable {σ : Type} (I : Upkeep σ) {s s' : σ} {α β : Type} {m : Run α}

def Ending (s : σ) (Q : σ → α → Prop) : EStateM.Result Halt World α → Prop
  | .ok a w' => ∃ s', I.world s' = w' ∧ I.Later s s' ∧ Q s' a
  | .error (.error e) w' => I.Leads s w' e.values
  | .error .outOfFuel w' => I.Leads s w' []

/-- From the world of the stage the run leads to a later stage, however it ends. -/
def Carries (s : σ) (m : Run α) (Q : σ → α → Prop) : Prop := I.Ending s Q (m (I.world s))

variable {I} {Q : σ → α → Prop} {R : σ → β → Prop}

theorem Ending.trans {ending : EStateM.Result Halt World α} (hle : I.Later s s')
    (h : I.Ending s' Q ending) : I.Ending s Q ending := by
  match ending, h with
  | .ok a w', ⟨s₁, hs₁, h₁, hQ⟩ => exact ⟨s₁, hs₁, I.trans hle h₁, hQ⟩
  | .error (.error e) w', h => exact Leads.trans hle h
  | .error .outOfFuel w', h => exact Leads.trans hle h

namespace Carries

theorem of_ok {a : α} {w' : World} (hrun : m (I.world s) = .ok a w') (hs' : I.world s' = w')
    (hle : I.Later s s') (hQ : Q s' a) : I.Carries s m Q := by
  rw [Carries, hrun]
  exact ⟨s', hs', hle, hQ⟩

theorem mono {R : σ → α → Prop} (h : I.Carries s m Q) (hle : ∀ s a, Q s a → R s a) :
    I.Carries s m R := by
  unfold Carries at h ⊢
  match m (I.world s), h with
  | .ok a w', ⟨s', hs', h', hQ⟩ => exact ⟨s', hs', h', hle _ _ hQ⟩
  | .error (.error e) w', h => exact h
  | .error .outOfFuel w', h => exact h

theorem later (h : I.Carries s m Q) :
    ∃ s', I.world s' = after (m (I.world s)) ∧ I.Later s s' := by
  unfold Carries at h
  match m (I.world s), h with
  | .ok a w', ⟨s', hs', hle, _⟩ => exact ⟨s', hs', hle⟩
  | .error (.error e) w', ⟨s', hs', hle, _⟩ => exact ⟨s', hs', hle⟩
  | .error .outOfFuel w', ⟨s', hs', hle, _⟩ => exact ⟨s', hs', hle⟩

theorem leads {of : α → List Value} (h : I.Carries s m fun s' a => ∀ v ∈ of a, I.Has s' v)
    {o : Except Error α} {w' : World} (hends : m.Ends (I.world s) o w') :
    I.Leads s w' (outcomeValues of o) := by
  unfold Ends at hends
  unfold Carries at h
  rw [hends] at h
  cases o <;> exact h

theorem leads_one {m : Run Value} (h : I.Carries s m I.Has) {o : Except Error Value}
    {w' : World} (hends : m.Ends (I.world s) o w') :
    I.Leads s w' (outcomeValues (fun v => [v]) o) :=
  (h.mono fun _ _ hv => List.forall_mem_singleton.2 hv).leads hends

theorem pure {a : α} (h : Q s a) : I.Carries s (Pure.pure a : Run α) Q :=
  of_ok rfl rfl (I.refl s) h

theorem fail {e : Error} (h : ∀ v ∈ e.values, I.Has s v) : I.Carries s (Run.fail e : Run α) Q :=
  Leads.refl h

theorem outOfFuel : I.Carries s (Run.outOfFuel : Run α) Q := Leads.refl (List.forall_mem_nil _)

theorem bind {f : α → Run β} (hm : I.Carries s m Q)
    (hf : ∀ a s', m.Ends (I.world s) (.ok a) (I.world s') → I.Later s s' → Q s' a →
      I.Carries s' (f a) R) : I.Carries s (m >>= f) R := by
  unfold Carries at hm ⊢
  rw [bind_apply]
  cases h : m (I.world s) with
  | ok a w' =>
    rw [h] at hm
    obtain ⟨s', rfl, hle, hQ⟩ := hm
    exact (hf a s' h hle hQ).trans hle
  | error halt w' =>
    rw [h] at hm
    cases halt <;> exact hm

theorem of_ok_bind {f : α → Run β} {a : α} {w' : World} (hrun : m (I.world s) = .ok a w')
    (hs' : I.world s' = w') (hle : I.Later s s') (h : I.Carries s' (f a) R) :
    I.Carries s (m >>= f) R := by
  subst hs'
  unfold Carries
  rw [bind_apply, hrun]
  exact h.trans hle

theorem ofExcept_bind {result : Except Error α} {f : α → Run β}
    (hok : ∀ a, result = .ok a → I.Carries s (f a) R)
    (herror : ∀ e, result = .error e → ∀ v ∈ e.values, I.Has s v) :
    I.Carries s (Run.ofExcept result >>= f) R := by
  cases result with
  | ok a => exact of_ok_bind rfl rfl (I.refl s) (hok a rfl)
  | error e => exact fail (herror e rfl)

theorem parsed_bind {result : Except ParseError α} {f : α → Run β}
    (hok : ∀ a, result = .ok a → I.Carries s (f a) R) :
    I.Carries s (Run.parsed result >>= f) R := by
  cases result with
  | ok a => exact of_ok_bind rfl rfl (I.refl s) (hok a rfl)
  | error e => exact fail (e := .parse e) (List.forall_mem_nil _)

theorem attempt_bind {m : Run Value} {f : Except Error Value → Run β} (hm : I.Carries s m I.Has)
    (hf : ∀ o s', m.Ends (I.world s) o (I.world s') → I.Later s s' →
      (∀ v ∈ outcomeValues (fun v => [v]) o, I.Has s' v) → I.Carries s' (f o) R) :
    I.Carries s (m.attempt >>= f) R := by
  unfold Carries at hm ⊢
  rw [bind_apply, Run.attempt]
  cases h : m (I.world s) with
  | ok v w' =>
    rw [h] at hm
    obtain ⟨s', rfl, hle, hv⟩ := hm
    exact (hf (.ok v) s' h hle (List.forall_mem_singleton.2 hv)).trans hle
  | error halt w' =>
    rw [h] at hm
    cases halt with
    | error e =>
      obtain ⟨s', rfl, hle, hvs⟩ := hm
      exact (hf (.error e) s' h hle hvs).trans hle
    | outOfFuel => exact hm

theorem atHostDepth {m : Run Value} {depth : Nat}
    (h : ∀ s', I.world s' = (I.world s).atHostDepth depth → I.Later s s' → I.Carries s' m I.Has) :
    I.Carries s (m.atHostDepth depth) I.Has := by
  obtain ⟨s', hs', hle⟩ := Upkeep.atHostDepth s depth
  have h := Ending.trans hle (h s' hs' hle)
  rw [hs'] at h
  unfold Carries Run.atHostDepth
  change I.Ending s I.Has (m { I.world s with hostDepth := depth }) at h
  match m { I.world s with hostDepth := depth }, h with
  | .ok v w', ⟨s₁, hs₁, h₁, hv⟩ =>
    obtain ⟨s₂, hs₂, h₂⟩ := Upkeep.atHostDepth s₁ (I.world s).hostDepth
    exact ⟨s₂, hs₂.trans (by rw [hs₁]; rfl), I.trans h₁ h₂, I.has_mono h₂ hv⟩
  | .error (.error e) w', h => exact Leads.atHostDepth h _
  | .error .outOfFuel w', h => exact Leads.atHostDepth h _

theorem enter_bind {c : Closure} {args : List Value} {f : FrameId → Run β}
    (hc : I.Has s (.closure c)) (hargs : ∀ v ∈ args, I.Has s v)
    (hcalls : c.params.length = args.length → I.Calls c args (I.world s).nextFrame)
    (hf : ∀ s', c.params.length = args.length →
      I.world s' = (I.world s).newFrame (c.params.zip args) c.frame → I.Later s s' →
      I.Code s' (I.world s).nextFrame c.body → I.Carries s' (f (I.world s).nextFrame) R) :
    I.Carries s (Form.enter c args >>= f) R := by
  unfold Form.enter Closure.callFrame
  split
  · next hcount =>
    obtain ⟨s', hs', hle, hbody⟩ := I.enter hc hargs hcount (hcalls hcount)
    exact of_ok_bind rfl hs' hle (hf s' hcount hs' hle hbody)
  · exact fail (e := .arity ..) (List.forall_mem_nil _)

theorem of_spares {m : Run Value} (h : m.Spares (I.Has s)) (hfinishes : m.Finishes) :
    I.Carries s m I.Has := by
  obtain ⟨o, w', hends⟩ := hfinishes (I.world s)
  have hleads := Leads.of_spares h hends
  unfold Ends at hends
  unfold Carries
  rw [hends]
  cases o with
  | ok v =>
    obtain ⟨s', hs', hle, hv⟩ := hleads
    exact ⟨s', hs', hle, hv v (.head _)⟩
  | error e => exact hleads

end Carries

/-- What is left of a form at this depth after a step: a value, or an expression in its place. -/
def Goes (depth : Nat) (s : σ) : Step → Prop
  | .done v => I.Has s v
  | .tail e frame => I.Admits s (.expr depth frame e)

variable (I) in
/-- Evaluations and calls are kept up, and they follow the rules. -/
structure Sustains (ev : Evaluator) (ap : Applier) : Prop where
  expr : ∀ {s depth frame e}, I.Admits s (.expr depth frame e) →
    I.Carries s (ev depth frame e) I.Has
  call : ∀ {s f args}, I.Admits s (.call f args) → I.Carries s (ap f args) I.Has
  eval_sound : ev.Sound
  call_sound : ap.Sound

namespace Sustains
variable {ev : Evaluator} {ap : Applier} {depth : Nat} {frame : FrameId} {operands : List Value}
  {e body name : Value} (h : I.Sustains ev ap)
include h

theorem exprs {es : List Value} (ht : I.Admits s (.exprs depth frame es)) :
    I.Carries s (Form.evalAll ev depth frame es) fun s' vs => ∀ v ∈ vs, I.Has s' v := by
  induction es generalizing s with
  | nil => exact .pure (List.forall_mem_nil _)
  | cons e es ih =>
    obtain ⟨he, hes⟩ := List.forall_mem_cons.1 ht.fits
    rw [Form.evalAll_cons]
    refine .bind (h.expr (ht.here .exprsFirst he)) fun v s₁ hends h₁ hv => ?_
    have hrest := ht.step (.exprsRest (h.eval_sound hends)) rfl (codes_mono h₁ hes)
    exact .bind (ih hrest) fun vs s₂ _ h₂ hvs =>
      .pure (List.forall_mem_cons.2 ⟨I.has_mono h₂ hv, hvs⟩)

theorem clauses {list : List (Value × Value)} (ht : I.Admits s (.clauses depth frame list)) :
    I.Carries s (Form.firstClause ev depth frame list) fun s' chosen =>
      ∀ e, chosen = some e → I.Has s' e := by
  induction list generalizing s with
  | nil => exact .pure fun _ h => nomatch h
  | cons clause list ih =>
    obtain ⟨test, e⟩ := clause
    obtain ⟨hframe, hclauses⟩ := ht.fits
    obtain ⟨htest, he⟩ := hclauses _ _ (.head _)
    refine .bind (h.expr (ht.here .clausesFirst (I.code_of_has hframe htest)))
      fun v s₁ hends h₁ _ => ?_
    cases hv : v.isTruthy with
    | true =>
      refine .pure ?_
      rintro _ ⟨⟩
      exact I.has_mono h₁ he
    | false => exact ih (ht.step (.clausesRest (h.eval_sound hends) hv) rfl ⟨I.frame_mono h₁ hframe,
        clauses_mono h₁ fun test e hmem => hclauses test e (.tail _ hmem)⟩)

theorem bindings {list : List Value} (ht : I.Admits s (.bindings depth frame list)) :
    I.Carries s (Form.bindValues ev depth frame list) fun _ _ => True := by
  fun_induction Form.bindValues ev depth frame list generalizing s with
  | case1 => exact .pure trivial
  | case2 name e rest ih =>
    obtain ⟨hname, he, hrest⟩ := ht.binding
    have hcode := I.code_of_has (I.frame_of_inner ht.fits.1) he
    rw [Form.bindValue_eq, bind_assoc]
    refine .bind (h.expr (ht.here .bindingsFirst hcode)) fun v s₁ hends h₁ hv => ?_
    obtain ⟨s₂, hs₂, h₂⟩ := I.bind (I.inner_mono h₁ ht.fits.1) (I.has_mono h₁ hname) hv
    have hle := I.trans h₁ h₂
    have hbound := ht.step (.bindingsRest (h.eval_sound hends)) hs₂
      ⟨I.inner_mono hle ht.fits.1, all_mono hle hrest⟩
    exact .of_ok_bind rfl hs₂ h₂ (ih hbound)
  | case3 => exact .fail (List.forall_mem_nil _)

omit h in
theorem lambda {ps : Value}
    (ht : I.Admits s (.form depth frame (SpecialForm.lambda.applied [ps, body]))) :
    I.Carries s (Form.lambda ev depth frame [ps, body]) (I.Goes depth) := by
  have hps := ht.has (.head _)
  refine .ofExcept_bind (fun names hnames => ?_)
    fun _ => Form.values_of_params_error (I.hereditary s) hps
  have hnone : ∀ v, none = some v → I.Has s v := fun _ h => nomatch h
  obtain ⟨s₁, hs₁, h₁, hc⟩ :=
    I.lambda ht.inFrame hps hnames (ht.has (.tail _ (.head _))) hnone
  exact .of_ok rfl hs₁ h₁ hc

theorem lambdaHelp {ps help : Value}
    (ht : I.Admits s (.form depth frame (SpecialForm.lambda.applied [ps, help, body]))) :
    I.Carries s (Form.lambda ev depth frame [ps, help, body]) (I.Goes depth) := by
  have hps := ht.has (.head _)
  refine .ofExcept_bind (fun names hnames => ?_)
    fun _ => Form.values_of_params_error (I.hereditary s) hps
  have hhelp := ht.here (.lambdaHelp hnames) (ht.operand (I.refl s) (.tail _ (.head _)))
  refine .bind (h.expr hhelp) fun v s₁ _ h₁ hv => ?_
  have hbody := I.has_mono h₁ (ht.has (.tail _ (.tail _ (.head _))))
  have hsome : ∀ u, some v = some u → I.Has s₁ u := by
    rintro _ ⟨⟩
    exact hv
  obtain ⟨s₂, hs₂, h₂, hc⟩ :=
    I.lambda (I.frame_mono h₁ ht.inFrame) (I.has_mono h₁ hps) hnames hbody hsome
  exact .of_ok rfl hs₂ h₂ hc

theorem define {target : Value}
    (ht : I.Admits s (.form depth frame (SpecialForm.define.applied [target, e]))) :
    I.Carries s (Form.define ev depth frame [target, e]) (I.Goes depth) := by
  have htarget := ht.has (.head _)
  cases target with
  | symbol name =>
    have he := ht.here .define (ht.operand (I.refl s) (.tail _ (.head _)))
    refine .bind (h.expr he) fun v s₁ _ h₁ hv => ?_
    have hname := I.has_mono h₁ htarget
    obtain ⟨s₂, hs₂, h₂⟩ := I.define (I.frame_mono h₁ ht.inFrame) hname hv
    exact .of_ok_bind rfl hs₂ h₂ (.pure (I.has_mono h₂ hname))
  | _ => exact .fail (List.forall_mem_singleton.2 htarget)

theorem cond {list : List (Value × Value)} (hne : list ≠ [])
    (ht : I.Admits s (.form depth frame (SpecialForm.cond.applied (SpecialForm.clauseList list)))) :
    I.Carries s (Form.cond ev depth frame (SpecialForm.clauseList list)) (I.Goes depth) := by
  obtain ⟨⟨test, last⟩, hlast⟩ := Option.ne_none_iff_exists'.1 (mt List.getLast?_eq_none_iff.1 hne)
  have hclauses : (SpecialForm.clauseList list).mapM Form.clause? = some list :=
    Form.mapM_clause?_eq_some.2 rfl
  have htest := (ht.clauses _ _ (List.mem_of_getLast? hlast)).1
  simp only [Form.cond, hclauses, hlast]
  refine .bind (h.clauses (ht.here (.condTests hne) ⟨ht.inFrame, ht.clauses⟩))
    fun chosen s₁ hends h₁ hchosen => ?_
  have htests := Evaluator.Sound.clauses h.eval_sound hends
  have hframe := I.frame_mono h₁ ht.inFrame
  cases chosen with
  | some e => exact .pure (ht.step (.condTail htests) rfl (I.code_of_has hframe (hchosen e rfl)))
  | none =>
    have htest₁ := I.has_mono h₁ htest
    have hagain := ht.step (.condAgain htests hlast) rfl (I.code_of_has hframe htest₁)
    refine .bind (h.expr hagain) fun v s₂ _ h₂ _ => ?_
    split
    · exact .pure (I.hereditary s₂).unspecified
    · exact .fail (List.forall_mem_singleton.2 (I.has_mono h₂ htest₁))

theorem ite {test thenE elseE : Value}
    (ht : I.Admits s (.form depth frame (SpecialForm.ite.applied [test, thenE, elseE]))) :
    I.Carries s (Form.ite ev depth frame [test, thenE, elseE]) (I.Goes depth) := by
  refine .bind (h.expr (ht.here .iteTest (ht.operand (I.refl s) (.head _))))
    fun v s₁ hends h₁ _ => ?_
  have htail := fun hfits => ht.step (.iteTail (h.eval_sound hends)) rfl hfits
  split
  · next hv =>
    rw [hv] at htail
    exact .pure (htail (ht.operand h₁ (.tail _ (.head _))))
  · next hv =>
    rw [Bool.not_eq_true] at hv
    rw [hv] at htail
    exact .pure (htail (ht.operand h₁ (.tail _ (.tail _ (.head _)))))

theorem begin (hne : operands ≠ [])
    (ht : I.Admits s (.form depth frame (SpecialForm.begin.applied operands))) :
    I.Carries s (Form.begin ev depth frame operands) (I.Goes depth) := by
  fun_induction Form.begin ev depth frame operands generalizing s with
  | case1 => exact absurd rfl hne
  | case2 e => exact .pure (ht.here .beginLast (ht.operand (I.refl s) (.head _)))
  | case3 e rest hrest ih =>
    obtain ⟨next, rest, rfl⟩ := List.exists_cons_of_ne_nil hrest
    refine .bind (h.expr (ht.here .beginFirst (ht.operand (I.refl s) (.head _))))
      fun v s₁ hends h₁ _ => ih hrest ?_
    exact ht.step (.beginRest (h.eval_sound hends)) rfl (ht.beginRest h₁)

theorem list (ht : I.Admits s (.form depth frame (SpecialForm.list.applied operands))) :
    I.Carries s (Form.list ev depth frame operands) (I.Goes depth) :=
  .bind (h.exprs (ht.here .list fun _ he => ht.operand (I.refl s) he)) fun _ _ _ _ hvs =>
    .pure (has_list.2 hvs)

theorem curry {f : Value} {given : List Value}
    (ht : I.Admits s (.form depth frame (SpecialForm.curry.applied [.list (f :: given)]))) :
    I.Carries s (Form.curry ev depth frame [.list (f :: given)]) (I.Goes depth) := by
  obtain ⟨hf, hgiven⟩ := ht.curried
  refine .bind (h.expr (ht.here .curry (I.code_of_has ht.inFrame hf)))
    fun procedure s₁ _ h₁ hprocedure => ?_
  cases harity : procedure.arity? with
  | none => exact .fail (List.forall_mem_nil _)
  | some n =>
    by_cases hcount : n < given.length
    · simp only [if_pos hcount]
      exact .fail (List.forall_mem_nil _)
    · simp only [if_neg hcount]
      obtain ⟨s₂, hs₂, h₂, hc⟩ := I.curry (I.frame_mono h₁ ht.inFrame) hprocedure
        (all_mono h₁ hgiven) harity (Nat.not_lt.1 hcount) rfl
      exact .of_ok rfl hs₂ h₂ hc

theorem letIn {bindings : List Value} (hparts : Form.letParts? operands = some (bindings, body))
    (ht : I.Admits s (.form depth frame (SpecialForm.letIn.applied operands))) :
    I.Carries s (Form.letIn ev depth frame operands) (I.Goes depth) := by
  rw [Form.letIn_of_letParts? hparts]
  obtain ⟨s₁, hs₁, h₁, hinner, hvalues⟩ := ht.letBindings hparts
  have hbindings := ht.step (.letBindings hparts) hs₁ ⟨hinner, hvalues⟩
  refine .of_ok_bind rfl hs₁ h₁ (.bind (h.bindings hbindings) fun _ s₂ hends h₂ _ => .pure ?_)
  rw [hs₁] at hends
  exact ht.step (.letBody hparts (Evaluator.Sound.bindings h.eval_sound hends)) rfl
    (ht.letBody hparts (I.trans h₁ h₂) (I.inner_mono h₂ hinner))

theorem eval (ht : I.Admits s (.form depth frame (SpecialForm.eval.applied [e]))) :
    I.Carries s (Form.eval ev depth frame [e]) (I.Goes depth) := by
  refine .bind (h.expr (ht.here .evalOperand (ht.operand (I.refl s) (.head _))))
    fun code s₁ hends h₁ hcode => ?_
  have hframe := I.frame_mono h₁ ht.inFrame
  split
  · refine .parsed_bind fun code hread => .pure ?_
    exact ht.step (.evalText (h.eval_sound hends) hread) rfl
      (I.code_of_has hframe ((I.hereditary s₁).parsed hread))
  · next hstring =>
    exact .pure (ht.step (.evalCode (h.eval_sound hends) hstring) rfl (I.code_of_has hframe hcode))

theorem print (ht : I.Admits s (.form depth frame (SpecialForm.print.applied [e]))) :
    I.Carries s (Form.print ev depth frame [e]) (I.Goes depth) := by
  rw [Form.print_eq]
  refine .bind (h.expr (ht.here .print (ht.operand (I.refl s) (.head _)))) fun v s₁ _ h₁ hv => ?_
  obtain ⟨s₂, hs₂, h₂⟩ := Upkeep.print s₁ v
  exact .of_ok_bind rfl hs₂ h₂ (.pure (I.has_mono h₂ hv))

theorem form {form : SpecialForm}
    (ht : I.Admits s (.form depth frame (form.applied operands))) :
    I.Carries s (form.run ev depth frame operands) (I.Goes depth) := by
  by_cases haccepts : form.Accepts operands
  · cases form with
    | quote =>
      obtain ⟨v, rfl⟩ := haccepts
      exact .pure (ht.has (.head _))
    | string => obtain ⟨text, rfl | rfl⟩ := haccepts <;> exact .pure ((I.hereditary s).string text)
    | lambda =>
      obtain ⟨ps, body, rfl | ⟨help, rfl⟩⟩ := haccepts
      · change I.Carries s (Form.lambda ev depth frame [ps, body]) _
        exact Sustains.lambda ht
      · exact h.lambdaHelp ht
    | define =>
      obtain ⟨target, e, rfl⟩ := haccepts
      exact h.define ht
    | cond =>
      obtain ⟨clauses, hne, rfl⟩ := haccepts
      exact h.cond hne ht
    | ite =>
      obtain ⟨test, thenE, elseE, rfl⟩ := haccepts
      exact h.ite ht
    | begin => exact h.begin haccepts ht
    | list => exact h.list ht
    | curry =>
      obtain ⟨f, given, rfl⟩ := haccepts
      exact h.curry ht
    | letIn =>
      obtain ⟨bindings, body, hparts⟩ := Form.exists_letParts? haccepts
      exact h.letIn hparts ht
    | eval =>
      obtain ⟨e, rfl⟩ := haccepts
      exact h.eval ht
    | print =>
      obtain ⟨e, rfl⟩ := haccepts
      exact h.print ht
  · rw [SpecialForm.run_of_not_accepts haccepts]
    exact .fail (List.forall_mem_nil _)

theorem reply {r : Reply} (ht : I.Admits s (.reply r)) : I.Carries s (r.run ap) I.Has := by
  induction r generalizing s with
  | finish result =>
    cases result with
    | ok v => exact .pure (I.finish ht.fits v (.head _))
    | error e => exact .fail (I.finish ht.fits)
  | call f args resume ih =>
    obtain ⟨hf, hargs, hresume⟩ := I.call ht.fits
    refine .attempt_bind (h.call (ht.here .replyCall ⟨hf, hargs⟩)) fun result s₁ hends h₁ hvs => ?_
    exact ih result (ht.step (.replyRest (h.call_sound hends)) rfl (hresume s₁ result h₁ hvs))

theorem builtin {b : Builtin} {args : List Value} (ht : I.Admits s (.builtin b args)) :
    I.Carries s (b.run ap args) I.Has := by
  obtain ⟨hb, hargs⟩ := ht.fits
  unfold BuiltinOf.run
  split
  · next op x =>
    exact .of_spares (op.spares_run (I.hereditary s) (hargs _ (.head _))) (op.finishes x)
  · next op x y =>
    have hx := hargs _ (.head _)
    have hy := hargs _ (.tail _ (.head _))
    by_cases hop : op = .readWithMacro
    · subst hop
      have hread := Carries.of_spares (I := I) (.readText (I.hereditary s) x) (.readText x)
      have hrun : Binary.run ap .readWithMacro x y =
          (ofExcept x.toText >>= readExpression) >>= fun e => ap y [e] := (bind_assoc ..).symm
      rw [hrun]
      exact hread.bind fun e s₁ hends h₁ he => h.call (ht.step (.readWithMacro hends) rfl
        ⟨I.has_mono h₁ hy, List.forall_mem_singleton.2 he⟩)
    · exact .of_spares (Binary.spares_run (I.hereditary s) ap hop hx hy)
        (Binary.finishes ap hop x y)
  · next f g x =>
    obtain ⟨hf, hg⟩ := (I.hereditary s).composed_iff.1 hb
    refine .bind (h.call (ht.here .composedInner ⟨hg, hargs⟩)) fun y s₁ hends h₁ hy => ?_
    exact h.call (ht.step (.composedOuter (h.call_sound hends)) rfl
      ⟨I.has_mono h₁ hf, List.forall_mem_singleton.2 hy⟩)
  · next name arity slot =>
    split
    · next hcount =>
      change I.Carries s (callHost ap slot args) I.Has
      unfold Carries
      rw [callHost_apply]
      cases hslot : (I.world s).host[slot]? with
      | some operation => exact h.reply (ht.here (.host hcount hslot) (I.host hslot hargs))
      | none => exact Carries.pure (I.hereditary s).unspecified
    · exact .fail (List.forall_mem_nil _)
  · exact .fail (List.forall_mem_nil _)

theorem application {f : Value} (hform : Form.form? f = none)
    (ht : I.Admits s (.form depth frame (.list (f :: operands)))) :
    I.Carries s (Form.application ev ap depth frame f operands) (I.Goes depth) := by
  obtain ⟨hf, hoperands⟩ := ht.application
  rw [Form.application_eq]
  refine .bind (h.expr (ht.here (.head hform) hf)) fun procedure s₁ hends₁ h₁ hprocedure => ?_
  have hprocedureStep := h.eval_sound hends₁
  refine .bind (h.exprs (ht.step (.operands hform hprocedureStep) rfl (codes_mono h₁ hoperands)))
    fun args s₂ hends₂ h₂ hargs => ?_
  have hargsStep := Evaluator.Sound.exprs h.eval_sound hends₂
  have hprocedure := I.has_mono h₂ hprocedure
  cases procedure with
  | closure c =>
    refine .enter_bind hprocedure hargs
      (fun hcount => ht.calls (.application hform hprocedureStep hargsStep hcount))
      fun s₃ hcount hs₃ _ hbody => .pure ?_
    exact ht.step (.body hform hprocedureStep hargsStep hcount) hs₃ hbody
  | builtin b =>
    refine .bind (.atHostDepth fun s₃ hs₃ h₃ => h.builtin (ht.step
      (.builtin hform hprocedureStep hargsStep) hs₃ ⟨I.has_mono h₃ hprocedure, all_mono h₃ hargs⟩))
      fun v s₃ _ _ hv => .pure hv
  | _ => exact .fail (List.forall_mem_singleton.2 hprocedure)

theorem step {head : Value} (ht : I.Admits s (.form depth frame (.list (head :: operands)))) :
    I.Carries s (Form.step ev ap depth frame head operands) (I.Goes depth) := by
  cases hform : Form.form? head with
  | none =>
    rw [Form.step_application hform]
    exact h.application hform ht
  | some form =>
    obtain rfl := Form.form?_eq_some hform
    rw [Form.step_form]
    exact h.form ht

end Sustains

section
variable {fuel depth : Nat} {frame : FrameId} {e f : Value} {args : List Value}
  (h : I.Sustains (Lisplet.eval fuel) (apply fuel))
include h

theorem Sustains.below (ht : I.Admits s (.form depth frame e)) :
    I.Carries s (evalBelow fuel depth frame e) I.Has := by
  cases e with
  | symbol name =>
    cases hlookup : (I.world s).store.lookup? frame name with
    | some v =>
      refine .of_ok ?_ rfl (I.refl s) (I.lookup ht.fits hlookup)
      rw [evalBelow, Run.lookup, hlookup]
    | none =>
      unfold Carries
      rw [evalBelow, Run.lookup, hlookup]
      exact Leads.refl (List.forall_mem_nil _)
  | list items =>
    cases items with
    | nil => exact .pure (has_list.2 (List.forall_mem_nil _))
    | cons head operands =>
      refine (h.step ht).bind fun step s₁ _ _ hstep => ?_
      cases step with
      | done v => exact .pure hstep
      | tail e inner => exact h.expr hstep
  | _ => exact .pure (I.has_self ht.fits (by simp) (by simp))

theorem Sustains.apply_succ (ht : I.Admits s (.call f args)) :
    I.Carries s (apply (fuel + 1) f args) I.Has := by
  obtain ⟨hf, hargs⟩ := ht.fits
  rw [apply]
  refine .of_ok_bind rfl rfl (I.refl s) ?_
  cases f with
  | closure c =>
    exact .enter_bind hf hargs (fun hcount => ht.calls (.callback hcount))
      fun s₁ hcount hs₁ _ hbody => h.expr (ht.step (.callClosure hcount) hs₁ hbody)
  | builtin b =>
    exact .atHostDepth fun s₁ hs₁ h₁ => h.builtin (ht.step .callBuiltin hs₁
      ⟨I.has_mono h₁ hf, all_mono h₁ hargs⟩)
  | _ => exact .fail (List.forall_mem_singleton.2 hf)

end

/-- Evaluation and calls are kept up, however much fuel there is. -/
theorem sustains (fuel : Nat) : I.Sustains (Lisplet.eval fuel) (apply fuel) := by
  induction fuel with
  | zero =>
    refine ⟨fun {s depth frame e} _ => ?_, fun {s f args} _ => ?_, (sound 0).1, (sound 0).2⟩
    · rw [eval]
      exact .outOfFuel
    · rw [apply]
      exact .outOfFuel
  | succ fuel ih =>
    refine ⟨fun {s depth frame e} ht => ?_, ih.apply_succ, (sound _).1, (sound _).2⟩
    by_cases hdepth : depth < maxEvalDepth
    · rw [eval_of_lt hdepth]
      exact ih.below (ht.here (.within hdepth) ht.fits)
    · rw [eval_of_le (Nat.not_lt.1 hdepth)]
      exact .fail (List.forall_mem_nil _)

theorem carries (fuel : Nat) {t : Task} (ht : I.Admits s t) :
    I.Carries s (t.run fuel) fun s' a => ∀ v ∈ t.results a, I.Has s' v := by
  have h := I.sustains fuel
  have hone {v : Value} (s' : σ) (hv : I.Has s' v) : ∀ u ∈ [v], I.Has s' u :=
    List.forall_mem_singleton.2 hv
  cases t with
  | expr => exact (h.expr ht).mono fun _ _ => hone _
  | form => exact (h.below ht).mono fun _ _ => hone _
  | exprs => exact h.exprs ht
  | clauses => exact (h.clauses ht).mono fun _ _ hchosen e he => hchosen e (Option.mem_toList.1 he)
  | bindings => exact (h.bindings ht).mono fun _ _ _ => List.forall_mem_nil _
  | call => exact (h.call ht).mono fun _ _ => hone _
  | builtin => exact (h.builtin ht).mono fun _ _ => hone _
  | reply => exact (h.reply ht).mono fun _ _ => hone _

end Upkeep

open Upkeep

section
variable {σ : Type} {I : Upkeep σ} {s : σ} {t : Task} {w w' : World}

/-- A task that ends leads from a stage to a later one, and what comes of it is at hand there. -/
theorem BigStep.leads {o : Except Error t.Result} (h : BigStep t w o w') (hs : I.world s = w)
    (ht : I.Admits s t) : I.Leads s w' (t.outcome o) := by
  subst hs
  obtain ⟨fuel, hends⟩ := (complete h).exists
  exact (I.carries fuel ht).leads hends

theorem Upkeep.Admits.invoke {depth : Nat} {frame : FrameId} {f procedure : Value}
    {operands args : List Value} {w₁ w₂ : World} (hform : Form.form? f = none)
    (ht : I.Admits s (.form depth frame (.list (f :: operands))))
    (hf : BigStep (.expr (depth + 1) frame f) (I.world s) (.ok procedure) w₁)
    (hargs : BigStep (.exprs depth frame operands) w₁ (.ok args) w₂) :
    ∃ s₂, I.world s₂ = w₂ ∧ I.Later s s₂ ∧ I.Has s₂ procedure ∧ ∀ v ∈ args, I.Has s₂ v := by
  obtain ⟨hhead, hoperands⟩ := ht.application
  obtain ⟨s₁, rfl, h₁, hprocedure⟩ := hf.leads rfl (ht.here (.head hform) hhead)
  obtain ⟨s₂, hs₂, h₂, hvs⟩ :=
    hargs.leads rfl (ht.step (.operands hform hf) rfl (codes_mono h₁ hoperands))
  exact ⟨s₂, hs₂, I.trans h₁ h₂, I.has_mono h₂ (hprocedure _ (.head _)), hvs⟩

end

end Lisplet
