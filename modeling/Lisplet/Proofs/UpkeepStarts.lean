import Lisplet.Proofs.UpkeepRuns

/-! What is begun on the way is kept up. By then the task has ended what comes before it, and so it
is begun at a later stage, also when neither comes to an end. -/
namespace Lisplet

namespace Upkeep
variable {σ : Type} (I : Upkeep σ) {s s' : σ} {t t' : Task} {w w' : World}

def Awaits (s : σ) (w' : World) (t' : Task) : Prop :=
  ∃ s', I.world s' = w' ∧ I.Later s s' ∧ I.Fits s' t'

variable {I}

namespace Awaits

theorem here (hs : I.world s = w) (h : I.Fits s t') : I.Awaits s w t' := ⟨s, hs, I.refl s, h⟩

theorem trans (hle : I.Later s s') (h : I.Awaits s' w' t') : I.Awaits s w' t' := by
  obtain ⟨s₁, hs₁, h₁, hfits⟩ := h
  exact ⟨s₁, hs₁, I.trans hle h₁, hfits⟩

theorem after {o : Except Error t.Result} (ht : I.Admits s t) (h : BigStep t w o w')
    (hs : I.world s = w) {w₂ : World}
    (hrest : ∀ s₁, I.world s₁ = w' → I.Later s s₁ → (∀ v ∈ t.outcome o, I.Has s₁ v) →
      I.Awaits s₁ w₂ t') : I.Awaits s w₂ t' := by
  obtain ⟨s₁, hs₁, h₁, hvs⟩ := h.leads hs ht
  exact (hrest s₁ hs₁ h₁ hvs).trans h₁

theorem atHostDepth (depth : Nat) (h : ∀ s', I.Later s s' → I.Fits s' t') :
    I.Awaits s ((I.world s).atHostDepth depth) t' := by
  obtain ⟨s', hs', hle⟩ := Upkeep.atHostDepth s depth
  exact ⟨s', hs', hle, h s' hle⟩

theorem body {depth : Nat} {c : Closure} {args : List Value} (hc : I.Has s (.closure c))
    (hargs : ∀ v ∈ args, I.Has s v) (hcount : c.params.length = args.length)
    (hcalls : I.Calls c args (I.world s).nextFrame) :
    I.Awaits s ((I.world s).newFrame (c.params.zip args) c.frame)
      (.expr depth (I.world s).nextFrame c.body) :=
  I.enter hc hargs hcount hcalls

end Awaits

namespace Admits
variable {depth : Nat} {frame : FrameId} {operands : List Value}

section
variable {clauses : List (Value × Value)} {test e : Value}
  (ht : I.Admits s
    (.form depth frame (SpecialForm.cond.applied (SpecialForm.clauseList clauses))))
include ht

theorem condTests (hne : clauses ≠ []) : I.Admits s (.clauses depth frame clauses) :=
  ht.here (.condTests hne) ⟨ht.inFrame, ht.clauses⟩

theorem condTail
    (htests : BigStep (.clauses depth frame clauses) (I.world s) (.ok (some e)) w') :
    I.Awaits s w' (.expr depth frame e) :=
  .after (ht.condTests (htests.clauses_ne_nil (by simp))) htests rfl fun _ hs₁ h₁ hchosen =>
    .here hs₁ (I.code_of_has (I.frame_mono h₁ ht.inFrame) (hchosen e (.head _)))

theorem condAgain (htests : BigStep (.clauses depth frame clauses) (I.world s) (.ok none) w')
    (hlast : clauses.getLast? = some (test, e)) : I.Awaits s w' (.expr (depth + 1) frame test) := by
  have hmem := List.mem_of_getLast? hlast
  have hne := List.ne_nil_of_mem hmem
  exact .after (ht.condTests hne) htests rfl fun _ hs₁ h₁ _ => .here hs₁
    (I.code_of_has (I.frame_mono h₁ ht.inFrame) (I.has_mono h₁ (ht.clauses _ _ hmem).1))

end

theorem iteTail {test thenE elseE v : Value}
    (ht : I.Admits s (.form depth frame (SpecialForm.ite.applied [test, thenE, elseE])))
    (htest : BigStep (.expr (depth + 1) frame test) (I.world s) (.ok v) w') :
    I.Awaits s w' (.expr depth frame (if v.isTruthy then thenE else elseE)) := by
  refine .after (ht.here .iteTest (ht.operand (I.refl s) (.head _))) htest rfl
    fun s₁ hs₁ h₁ _ => .here hs₁ ?_
  split
  · exact ht.operand h₁ (.tail _ (.head _))
  · exact ht.operand h₁ (.tail _ (.tail _ (.head _)))

theorem beginTail {e v next : Value} {rest : List Value}
    (ht : I.Admits s (.form depth frame (SpecialForm.begin.applied (e :: next :: rest))))
    (hfirst : BigStep (.expr (depth + 1) frame e) (I.world s) (.ok v) w') :
    I.Awaits s w' (.form depth frame (SpecialForm.begin.applied (next :: rest))) :=
  .after (ht.here .beginFirst (ht.operand (I.refl s) (.head _))) hfirst rfl
    fun _ hs₁ h₁ _ => .here hs₁ (ht.beginRest h₁)

theorem letTail {bindings : List Value} {body : Value}
    (hparts : Form.letParts? operands = some (bindings, body))
    (ht : I.Admits s (.form depth frame (SpecialForm.letIn.applied operands)))
    (hbindings : BigStep (.bindings depth (I.world s).nextFrame bindings)
      ((I.world s).newFrame [] frame) (.ok ()) w') :
    I.Awaits s w' (.expr depth (I.world s).nextFrame body) := by
  obtain ⟨s₁, hs₁, h₁, hinner, hvalues⟩ := ht.letBindings hparts
  have hstep := ht.step (.letBindings hparts) hs₁ ⟨hinner, hvalues⟩
  refine .trans h₁ (.after hstep hbindings hs₁ fun s₂ hs₂ h₂ _ => .here hs₂ ?_)
  exact ht.letBody hparts (I.trans h₁ h₂) (I.inner_mono h₂ hinner)

section
variable {e code : Value} (ht : I.Admits s (.form depth frame (SpecialForm.eval.applied [e])))
include ht

theorem evalOperand : I.Admits s (.expr (depth + 1) frame e) :=
  ht.here .evalOperand (ht.operand (I.refl s) (.head _))

theorem evalCode (he : BigStep (.expr (depth + 1) frame e) (I.world s) (.ok code) w') :
    I.Awaits s w' (.expr depth frame code) :=
  .after ht.evalOperand he rfl fun _ hs₁ h₁ hcode =>
    .here hs₁ (I.code_of_has (I.frame_mono h₁ ht.inFrame) (hcode code (.head _)))

theorem evalText {source : String}
    (he : BigStep (.expr (depth + 1) frame e) (I.world s) (.ok (.string source)) w')
    (hread : Value.parse {} source = .ok code) : I.Awaits s w' (.expr depth frame code) :=
  .after ht.evalOperand he rfl fun s₁ hs₁ h₁ _ =>
    .here hs₁ (I.code_of_has (I.frame_mono h₁ ht.inFrame) ((I.hereditary s₁).parsed hread))

end

section
variable {f : Value} {args : List Value} {w₁ w₂ : World} (hform : Form.form? f = none)
  (ht : I.Admits s (.form depth frame (.list (f :: operands))))
include hform ht

theorem operandsTail {v : Value} (hf : BigStep (.expr (depth + 1) frame f) (I.world s) (.ok v) w₁) :
    I.Awaits s w₁ (.exprs depth frame operands) :=
  .after (ht.here (.head hform) ht.application.1) hf rfl fun _ hs₁ h₁ _ =>
    .here hs₁ (codes_mono h₁ ht.application.2)

variable (hargs : BigStep (.exprs depth frame operands) w₁ (.ok args) w₂)
include hargs

theorem bodyTail {c : Closure}
    (hf : BigStep (.expr (depth + 1) frame f) (I.world s) (.ok (.closure c)) w₁)
    (hcount : c.params.length = args.length) :
    I.Awaits s (w₂.newFrame (c.params.zip args) c.frame) (.expr depth w₂.nextFrame c.body) := by
  obtain ⟨s₂, rfl, h₂, hclosure, hvs⟩ := ht.invoke hform hf hargs
  exact .trans h₂ (.body hclosure hvs hcount (ht.calls (.application hform hf hargs hcount)))

theorem builtinRun {b : Builtin}
    (hf : BigStep (.expr (depth + 1) frame f) (I.world s) (.ok (.builtin b)) w₁) :
    I.Awaits s (w₂.atHostDepth (depth + 1)) (.builtin b args) := by
  obtain ⟨s₂, rfl, h₂, hb, hvs⟩ := ht.invoke hform hf hargs
  exact .trans h₂ (.atHostDepth _ fun _ hle => ⟨I.has_mono hle hb, all_mono hle hvs⟩)

end

section
variable {e v : Value}

theorem exprsTail {es : List Value} (ht : I.Admits s (.exprs depth frame (e :: es)))
    (he : BigStep (.expr (depth + 1) frame e) (I.world s) (.ok v) w') :
    I.Awaits s w' (.exprs depth frame es) := by
  obtain ⟨hcode, hcodes⟩ := List.forall_mem_cons.1 ht.fits
  exact .after (ht.here .exprsFirst hcode) he rfl fun _ hs₁ h₁ _ =>
    .here hs₁ (codes_mono h₁ hcodes)

theorem clausesTail {test : Value} {clauses : List (Value × Value)}
    (ht : I.Admits s (.clauses depth frame ((test, e) :: clauses)))
    (htest : BigStep (.expr (depth + 1) frame test) (I.world s) (.ok v) w') :
    I.Awaits s w' (.clauses depth frame clauses) := by
  obtain ⟨hframe, hclauses⟩ := ht.fits
  have hcode := I.code_of_has hframe (hclauses _ _ (.head _)).1
  exact .after (ht.here .clausesFirst hcode) htest rfl fun _ hs₁ h₁ _ => .here hs₁
    ⟨I.frame_mono h₁ hframe, clauses_mono h₁ fun test e hmem => hclauses test e (.tail _ hmem)⟩

theorem bindingsTail {name : String} {rest : List Value}
    (ht : I.Admits s (.bindings depth frame (.list [.symbol name, e] :: rest)))
    (he : BigStep (.expr (depth + 1) frame e) (I.world s) (.ok v) w') :
    I.Awaits s (w'.bind frame name v) (.bindings depth frame rest) := by
  obtain ⟨hname, hcode, hrest⟩ := ht.binding
  have hinner := ht.fits.1
  refine .after (ht.here .bindingsFirst (I.code_of_has (I.frame_of_inner hinner) hcode)) he rfl
    fun s₁ hs₁ h₁ hv => ?_
  subst hs₁
  obtain ⟨s₂, hs₂, h₂⟩ := I.bind (I.inner_mono h₁ hinner) (I.has_mono h₁ hname) (hv v (.head _))
  have hle := I.trans h₁ h₂
  exact ⟨s₂, hs₂, h₂, I.inner_mono hle hinner, all_mono hle hrest⟩

end

theorem composedTail {f g x y : Value} (ht : I.Admits s (.builtin (.composed f g) [x]))
    (hg : BigStep (.call g [x]) (I.world s) (.ok y) w') : I.Awaits s w' (.call f [y]) := by
  obtain ⟨houter, hinner⟩ := (I.hereditary s).composed_iff.1 ht.fits.1
  exact .after (ht.here .composedInner ⟨hinner, ht.fits.2⟩) hg rfl fun _ hs₁ h₁ hy =>
    .here hs₁ ⟨I.has_mono h₁ houter, hy⟩

theorem replyTail {f : Value} {args : List Value} {resume : Except Error Value → Reply}
    {result : Except Error Value} (ht : I.Admits s (.reply (.call f args resume)))
    (hcall : BigStep (.call f args) (I.world s) result w') :
    I.Awaits s w' (.reply (resume result)) := by
  obtain ⟨hf, hargs, hresume⟩ := I.call ht.fits
  exact .after (ht.here .replyCall ⟨hf, hargs⟩) hcall rfl fun s₁ hs₁ h₁ hresult =>
    .here hs₁ (hresume s₁ result h₁ hresult)

end Admits

end Upkeep

open Upkeep

section
variable {σ : Type} {I : Upkeep σ} {s : σ} {t t' : Task} {w w' : World}

theorem Starts.awaits (h : Starts t w t' w') (hs : I.world s = w) (ht : I.Admits s t) :
    I.Awaits s w' t' := by
  cases h with subst hs
  | within => exact .here rfl ht.fits
  | lambdaHelp | define => exact .here rfl (ht.operand (I.refl s) (.tail _ (.head _)))
  | condTests => exact .here rfl ⟨ht.inFrame, ht.clauses⟩
  | condTail htests => exact ht.condTail htests
  | condAgain htests hlast => exact ht.condAgain htests hlast
  | iteTest | beginLast | beginFirst | evalOperand | print =>
    exact .here rfl (ht.operand (I.refl s) (.head _))
  | iteTail htest => exact ht.iteTail htest
  | beginRest hfirst => exact ht.beginTail hfirst
  | list => exact .here rfl fun _ he => ht.operand (I.refl s) he
  | curry => exact .here rfl (I.code_of_has ht.inFrame ht.curried.1)
  | letOneBinding | letManyBindings => exact ht.letBindings rfl
  | letOneBody hbindings | letManyBody hbindings => exact ht.letTail rfl hbindings
  | evalCode he => exact ht.evalCode he
  | evalText he hread => exact ht.evalText he hread
  | head => exact .here rfl ht.application.1
  | operands hform hf => exact ht.operandsTail hform hf
  | body hform hf hargs hcount => exact ht.bodyTail hform hargs hf hcount
  | builtin hform hf hargs => exact ht.builtinRun hform hargs hf
  | exprsFirst => exact .here rfl (ht.fits _ (.head _))
  | exprsRest he => exact ht.exprsTail he
  | clausesFirst => exact .here rfl (I.code_of_has ht.fits.1 (ht.fits.2 _ _ (.head _)).1)
  | clausesRest htest => exact ht.clausesTail htest
  | bindingsFirst =>
    exact .here rfl (I.code_of_has (I.frame_of_inner ht.fits.1) ht.binding.2.1)
  | bindingsRest he => exact ht.bindingsTail he
  | callClosure hcount => exact .body ht.fits.1 ht.fits.2 hcount (ht.calls (.callback hcount))
  | callBuiltin =>
    exact .atHostDepth _ fun _ hle => ⟨I.has_mono hle ht.fits.1, all_mono hle ht.fits.2⟩
  | readWithMacro hread =>
    obtain ⟨s₁, hs₁, h₁, he⟩ := Leads.of_spares (.readText (I.hereditary s) _) hread
    exact .trans h₁ (.here hs₁ ⟨I.has_mono h₁ (ht.fits.2 _ (.tail _ (.head _))), he⟩)
  | composedInner => exact .here rfl ⟨((I.hereditary s).composed_iff.1 ht.fits.1).2, ht.fits.2⟩
  | composedOuter hg => exact ht.composedTail hg
  | host _ hslot => exact .here rfl (I.host hslot ht.fits.2)
  | replyCall =>
    obtain ⟨hf, hargs, -⟩ := I.call ht.fits
    exact .here rfl ⟨hf, hargs⟩
  | replyRest hcall => exact ht.replyTail hcall

/-- When a task begins another one on the way, this happens at a later stage, and there it can be
begun. -/
theorem Starts.leads (h : Starts t w t' w') (hs : I.world s = w) (ht : I.Admits s t) :
    ∃ s', I.world s' = w' ∧ I.Later s s' ∧ I.Admits s' t' := by
  obtain ⟨s', hs', hle, hfits⟩ := h.awaits hs ht
  exact ⟨s', hs', hle, ht.step (hs ▸ h) hs' hfits⟩

end

end Lisplet
