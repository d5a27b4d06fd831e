import Lisplet.Proofs.Activations

/-! Applications and calls. What an expression evaluates to has nothing to do with the depth at
which a running builtin would continue, so an application is a call of its procedure from the depth
at which the application stands. -/
namespace Lisplet
open Run

theorem BigStep.unique {t : Task} {w w₁ w₂ : World} {o₁ o₂ : Except Error t.Result}
    (h₁ : BigStep t w o₁ w₁) (h₂ : BigStep t w o₂ w₂) : o₁ = o₂ ∧ w₁ = w₂ := by
  obtain ⟨fuel, h₁, h₂⟩ := ((complete h₁).and (complete h₂)).exists
  exact ends_unique h₁ h₂

theorem BigStep.ends_iff {t : Task} {w w₁ w' : World} {o o' : Except Error t.Result}
    (h : BigStep t w o w₁) : BigStep t w o' w' ↔ o' = o ∧ w' = w₁ := by
  constructor
  · exact fun h' => h'.unique h
  · rintro ⟨rfl, rfl⟩
    exact h

theorem BigStep.evalEnds_iff {depth : Nat} {frame : FrameId} {e : Value} {w w₁ w' : World}
    {o o' : Except Error Value} (h : BigStep (.expr depth frame e) w o w₁) :
    EvalEnds depth frame e w o' w' ↔ o' = o ∧ w' = w₁ := by
  constructor
  · exact fun h' => h.ends_iff.1 h'.bigStep
  · rintro ⟨rfl, rfl⟩
    exact h.evalEnds

namespace World
variable (w : World)

theorem atHostDepth_of_eq {w : World} {depth : Nat} (h : w.hostDepth = depth) :
    w.atHostDepth depth = w := by
  subst h
  rfl

theorem atHostDepth_bind (frame : FrameId) (name : String) (v : Value) (depth : Nat) :
    (w.bind frame name v).atHostDepth depth = (w.atHostDepth depth).bind frame name v := by
  cases v <;> rfl

theorem atHostDepth_print (v : Value) (depth : Nat) :
    (w.print v).atHostDepth depth = (w.atHostDepth depth).print v := by
  cases v <;> rfl

end World

/-- Parts of an evaluation, which know the depth they are at; calls ask for it. -/
def Task.Evaluates : Task → Prop
  | .call _ _ | .builtin _ _ | .reply _ => False
  | _ => True

theorem BigStep.atHostDepth {t : Task} {w w' : World} {o : Except Error t.Result}
    (h : BigStep t w o w') (ht : t.Evaluates) (n : Nat) :
    BigStep t (w.atHostDepth n) o (w'.atHostDepth n) := by
  induction h with
  | tooDeep hdepth => exact .tooDeep hdepth
  | within hdepth _ ih => exact .within hdepth (ih trivial)
  | symbol h => exact .symbol h
  | unbound h => exact .unbound h
  | nil => exact .nil
  | self hsymbol hlist => exact .self hsymbol hlist
  | malformed h => exact .malformed h
  | quote => exact .quote
  | stringText => exact .stringText
  | stringSymbol => exact .stringSymbol
  | lambda hparams => exact .lambda hparams
  | lambdaHelp hparams _ ih => exact .lambdaHelp hparams (ih trivial)
  | lambdaParams hrest hparams => exact .lambdaParams hrest hparams
  | lambdaError hparams _ ih => exact .lambdaError hparams (ih trivial)
  | define _ ih => exact .define (ih trivial)
  | defineTarget htarget => exact .defineTarget htarget
  | defineError _ ih => exact .defineError (ih trivial)
  | cond _ _ ihtests ihtail => exact .cond (ihtests trivial) (ihtail trivial)
  | condError _ ih => exact .condError (ih trivial)
  | condUnspecified _ hlast _ hv ihtests ihagain =>
    exact .condUnspecified (ihtests trivial) hlast (ihagain trivial) hv
  | condNoClause _ hlast _ hv ihtests ihagain =>
    exact .condNoClause (ihtests trivial) hlast (ihagain trivial) hv
  | condAgainError _ hlast _ ihtests ihagain =>
    exact .condAgainError (ihtests trivial) hlast (ihagain trivial)
  | ite _ _ ihtest ihtail => exact .ite (ihtest trivial) (ihtail trivial)
  | iteError _ ih => exact .iteError (ih trivial)
  | beginLast _ ih => exact .beginLast (ih trivial)
  | beginNext _ _ ihfirst ihrest => exact .beginNext (ihfirst trivial) (ihrest trivial)
  | beginError _ ih => exact .beginError (ih trivial)
  | list _ ih => exact .list (ih trivial)
  | listError _ ih => exact .listError (ih trivial)
  | curry _ harity hgiven hnames ih => exact .curry (ih trivial) harity hgiven hnames
  | curryType _ harity ih => exact .curryType (ih trivial) harity
  | curryArity _ harity hgiven ih => exact .curryArity (ih trivial) harity hgiven
  | curryError _ ih => exact .curryError (ih trivial)
  | letOne _ _ ihbinding ihtail => exact .letOne (ihbinding trivial) (ihtail trivial)
  | letOneError _ ih => exact .letOneError (ih trivial)
  | letMany _ _ ihbindings ihtail => exact .letMany (ihbindings trivial) (ihtail trivial)
  | letManyError _ ih => exact .letManyError (ih trivial)
  | evalCode _ hcode _ ihe ihtail => exact .evalCode (ihe trivial) hcode (ihtail trivial)
  | evalText _ hcode _ ihe ihtail => exact .evalText (ihe trivial) hcode (ihtail trivial)
  | evalUnreadable _ hcode ih => exact .evalUnreadable (ih trivial) hcode
  | evalError _ ih => exact .evalError (ih trivial)
  | print _ ih =>
    rw [World.atHostDepth_print]
    exact .print (ih trivial)
  | printError _ ih => exact .printError (ih trivial)
  | closure hform _ _ hcount _ ihf ihargs ihtail =>
    exact .closure hform (ihf trivial) (ihargs trivial) hcount (ihtail trivial)
  | closureArity hform _ _ hcount ihf ihargs =>
    exact .closureArity hform (ihf trivial) (ihargs trivial) hcount
  | builtin hform _ _ hrun ihf ihargs =>
    -- The builtin runs at a depth of its own, and the old one is put back.
    have hend := BigStep.builtin hform (ihf trivial) (ihargs trivial) hrun
    exact hend
  | notProcedure hform _ harity _ ihf ihargs =>
    exact .notProcedure hform (ihf trivial) harity (ihargs trivial)
  | headError hform _ ih => exact .headError hform (ih trivial)
  | argumentError hform _ _ ihf ihargs =>
    exact .argumentError hform (ihf trivial) (ihargs trivial)
  | exprsNil => exact .exprsNil
  | exprsCons _ _ ihe ihes => exact .exprsCons (ihe trivial) (ihes trivial)
  | exprsError _ ih => exact .exprsError (ih trivial)
  | exprsRest _ _ ihe ihes => exact .exprsRest (ihe trivial) (ihes trivial)
  | clausesNil => exact .clausesNil
  | clausesFound _ hv ih => exact .clausesFound (ih trivial) hv
  | clausesNext _ hv _ ihtest ihrest => exact .clausesNext (ihtest trivial) hv (ihrest trivial)
  | clausesError _ ih => exact .clausesError (ih trivial)
  | bindingsNil => exact .bindingsNil
  | bindingsCons _ _ ihe ihrest =>
    have hrest := ihrest trivial
    rw [World.atHostDepth_bind] at hrest
    exact .bindingsCons (ihe trivial) hrest
  | bindingsError _ ih => exact .bindingsError (ih trivial)
  | bindingsMalformed h => exact .bindingsMalformed h
  | _ => exact ht.elim

section
variable {frame : FrameId} {depth : Nat} {w w' : World} {o : Except Error Value}

theorem BigStep.expr_symbol {name : String} {v : Value} (hdepth : depth < maxEvalDepth)
    (h : w.store.lookup? frame name = some v) :
    BigStep (.expr depth frame (.symbol name)) w (.ok v) w :=
  .within hdepth (.symbol h)

theorem BigStep.expr_int (hdepth : depth < maxEvalDepth) (n : Int64) :
    BigStep (.expr depth frame (.int n)) w (.ok (.int n)) w :=
  .within hdepth (.self (by simp [Value.int]) (by simp [Value.int]))

theorem BigStep.expr_procedure {procedure : Value} (hdepth : depth < maxEvalDepth)
    (h : procedure.arity?.isSome) :
    Form.form? procedure = none ∧ BigStep (.expr depth frame procedure) w (.ok procedure) w := by
  cases procedure with
  | closure | builtin => exact ⟨rfl, .within hdepth (.self (by simp) (by simp))⟩
  | _ => cases h

theorem BigStep.exprs_one {e : Value}
    (h : BigStep (.expr (depth + 1) frame e) w o w') :
    BigStep (.exprs depth frame [e]) w (o.map fun v => [v]) w' := by
  cases o with
  | ok v => exact .exprsCons h .exprsNil
  | error e => exact .exprsError h

end

section
variable {depth : Nat} {frame : FrameId} {head procedure : Value} {operands args : List Value}
  {w w₁ w₂ w' : World} {o : Except Error Value}

theorem BigStep.application (hform : Form.form? head = none)
    (hf : BigStep (.expr (depth + 1) frame head) w (.ok procedure) w₁)
    (hargs : BigStep (.exprs depth frame operands) w₁ (.ok args) w₂)
    (h : BigStep (.call procedure args) (w₂.atHostDepth depth) o w') :
    BigStep (.form depth frame (.list (head :: operands))) w o (w'.atHostDepth w₂.hostDepth) := by
  cases h with
  | callClosure hcount hbody =>
    exact .closure hform hf hargs hcount (hbody.atHostDepth trivial w₂.hostDepth)
  | callArity hcount => exact .closureArity hform hf hargs hcount
  | callBuiltin hrun =>
    have hend := BigStep.builtin hform hf hargs hrun
    exact hend
  | callNotProcedure harity => exact .notProcedure hform hf harity hargs

theorem BigStep.call_of_application (hform : Form.form? head = none)
    (hf : BigStep (.expr (depth + 1) frame head) w (.ok procedure) w₁)
    (hargs : BigStep (.exprs depth frame operands) w₁ (.ok args) w₂)
    (h : BigStep (.form depth frame (.list (head :: operands))) w o w') :
    BigStep (.call procedure args) (w₂.atHostDepth depth) o (w'.atHostDepth depth) := by
  cases h with
  | closure _ hf' hargs' hcount htail =>
    obtain ⟨hp, rfl⟩ := hf.unique hf'
    obtain ⟨hvs, rfl⟩ := hargs.unique hargs'
    cases hp
    cases hvs
    exact .callClosure hcount (htail.atHostDepth trivial depth)
  | closureArity _ hf' hargs' hcount =>
    obtain ⟨hp, rfl⟩ := hf.unique hf'
    obtain ⟨hvs, rfl⟩ := hargs.unique hargs'
    cases hp
    cases hvs
    exact .callArity hcount
  | builtin _ hf' hargs' hrun =>
    obtain ⟨hp, rfl⟩ := hf.unique hf'
    obtain ⟨hvs, rfl⟩ := hargs.unique hargs'
    cases hp
    cases hvs
    have hend := BigStep.callBuiltin (w := w₂.atHostDepth depth) hrun
    exact hend
  | notProcedure _ hf' harity hargs' =>
    obtain ⟨hp, rfl⟩ := hf.unique hf'
    obtain ⟨hvs, rfl⟩ := hargs.unique hargs'
    cases hp
    exact .callNotProcedure harity
  | headError _ hf' => cases (hf.unique hf').1
  | argumentError _ hf' hargs' =>
    obtain ⟨hp, rfl⟩ := hf.unique hf'
    cases (hargs.unique hargs').1
  | self _ hlist => exact absurd rfl (hlist _)
  | _ => simp [Form.form?] at hform

theorem BigStep.exprs_of_application (hform : Form.form? head = none)
    (hf : BigStep (.expr (depth + 1) frame head) w (.ok procedure) w₁)
    (h : BigStep (.form depth frame (.list (head :: operands))) w o w') :
    ∃ o' w₂, BigStep (.exprs depth frame operands) w₁ o' w₂ := by
  cases h with
  | closure _ hf' hargs | closureArity _ hf' hargs | builtin _ hf' hargs
  | notProcedure _ hf' _ hargs | argumentError _ hf' hargs =>
    obtain ⟨-, rfl⟩ := hf.unique hf'
    exact ⟨_, _, hargs⟩
  | headError _ hf' => cases (hf.unique hf').1
  | self _ hlist => exact absurd rfl (hlist _)
  | _ => simp [Form.form?] at hform

end

end Lisplet
