import Lisplet.Evaluation
import Lisplet.Proofs.Runs

/-! Relations between runs that evaluation respects: if the evaluations and the calls in a form are
related, then so is the form. -/
namespace Lisplet

namespace Run

def callHost (apply : Applier) (slot : Nat) (args : List Value) : Run Value := do
  match ← hostOperation? slot with
  | some operation => (operation args).run apply
  | none => pure .unspecified

theorem callHost_apply (apply : Applier) (slot : Nat) (args : List Value) (w : World) :
    callHost apply slot args w = match w.host[slot]? with
      | some operation => (operation args).run apply w
      | none => .ok .unspecified w := by
  have hread : hostOperation? slot w = .ok w.host[slot]? w := rfl
  rw [callHost, bind_apply, hread]
  cases w.host[slot]? <;> rfl

end Run

open Run

theorem eval_of_le {depth : Nat} (h : maxEvalDepth ≤ depth) (fuel : Nat) (frame : FrameId)
    (e : Value) : eval (fuel + 1) depth frame e = Run.fail .tooDeep := by
  rw [eval.eq_def]
  exact if_pos h

def evalBelow (fuel depth : Nat) (frame : FrameId) : Value → Run Value
  | .symbol name => Run.lookup frame name
  | .list [] => pure .nil
  | .list (head :: operands) => do
    match ← Form.step (eval fuel) (apply fuel) depth frame head operands with
    | .done v => pure v
    | .tail e frame => eval fuel depth frame e
  | v => pure v

theorem eval_of_lt {depth : Nat} (h : depth < maxEvalDepth) (fuel : Nat) (frame : FrameId)
    (e : Value) : eval (fuel + 1) depth frame e = evalBelow fuel depth frame e := by
  rw [eval.eq_def, evalBelow.eq_def]
  exact if_neg (Nat.not_le.2 h)

/-- A relation between runs that a builtin respects if the calls it makes are related. -/
structure CallCongruence where
  Rel : {α : Type} → Run α → Run α → Prop
  refl : ∀ {α : Type} {m : Run α}, m.Local → Rel m m
  bind : ∀ {α β : Type} {m m' : Run α} {f f' : α → Run β},
    Rel m m' → (∀ a, Rel (f a) (f' a)) → Rel (m >>= f) (m' >>= f')
  callHost : ∀ {apply apply' : Applier} (slot : Nat) (args : List Value),
    (∀ f args, Rel (apply f args) (apply' f args)) →
      Rel (Run.callHost apply slot args) (Run.callHost apply' slot args)

/-- Such a relation together with the pairs of depths at which related runs may stand. -/
structure Congruence extends CallCongruence where
  Depth : Nat → Nat → Prop
  depth_succ : ∀ {d d' : Nat}, Depth d d' → Depth (d + 1) (d' + 1)
  hostDepth : ∀ {α : Type} {f f' : Nat → Run α},
    (∀ d d', Depth d d' → Rel (f d) (f' d')) → Rel (Run.hostDepth >>= f) (Run.hostDepth >>= f')
  atHostDepth : ∀ {α : Type} {m m' : Run α} {d d' : Nat},
    Depth d d' → Rel m m' → Rel (Run.atHostDepth d m) (Run.atHostDepth d' m')

namespace Form

theorem evalAll_cons (eval : Evaluator) (depth : Nat) (frame : FrameId) (e : Value)
    (es : List Value) :
    evalAll eval depth frame (e :: es) = do
      let v ← eval (depth + 1) frame e
      let vs ← evalAll eval depth frame es
      return v :: vs :=
  List.mapM_cons

end Form

namespace CallCongruence
variable (C : CallCongruence)

theorem pure {α : Type} (a : α) : C.Rel (Pure.pure a) (Pure.pure a) := C.refl (.pure a)

theorem fail {α : Type} (e : Error) : C.Rel (Run.fail e : Run α) (Run.fail e) := C.refl (.fail e)

theorem builtin {apply apply' : Applier} (happly : ∀ f args, C.Rel (apply f args) (apply' f args))
    (b : Builtin) (args : List Value) :
    C.Rel (b.run apply args) (b.run apply' args) := by
  unfold BuiltinOf.run
  split
  · next op x => exact C.refl (op.local_run x)
  · next op x y =>
    by_cases hop : op = .readWithMacro
    · subst hop
      refine C.bind (C.refl (.ofExcept _)) fun text => ?_
      exact C.bind (C.refl (.readExpression _)) fun expression => happly _ _
    · rw [Binary.run_eq_run apply apply' hop]
      exact C.refl (Binary.local_run apply' hop x y)
  · exact C.bind (happly _ _) fun y => happly _ _
  · split
    · exact C.callHost _ _ happly
    · exact C.fail _
  · exact C.fail _

end CallCongruence

namespace Congruence
variable (C : Congruence)

section
variable {eval eval' : Evaluator} {depth depth' : Nat} {frame : FrameId}
  (heval : ∀ frame e, C.Rel (eval (depth + 1) frame e) (eval' (depth' + 1) frame e))
include heval

theorem evalAll (es : List Value) :
    C.Rel (Form.evalAll eval depth frame es) (Form.evalAll eval' depth' frame es) := by
  induction es with
  | nil => exact C.pure _
  | cons e es ih =>
    rw [Form.evalAll_cons, Form.evalAll_cons]
    exact C.bind (heval frame e) fun v => C.bind ih fun vs => C.pure _

theorem lambda (operands : List Value) :
    C.Rel (Form.lambda eval depth frame operands) (Form.lambda eval' depth' frame operands) := by
  unfold Form.lambda
  split
  · refine C.refl ((Local.ofExcept _).bind fun names => ?_)
    exact (Local.newClosure _ _ _ _).bind fun v => .pure _
  · refine C.bind (C.refl (.ofExcept _)) fun names => C.bind (heval _ _) fun help => ?_
    exact C.refl ((Local.newClosure _ _ _ _).bind fun v => .pure _)
  · exact C.fail _

theorem define (operands : List Value) :
    C.Rel (Form.define eval depth frame operands) (Form.define eval' depth' frame operands) := by
  unfold Form.define
  split
  · refine C.bind (heval _ _) fun v => ?_
    exact C.refl ((Local.bindGlobal _ _ _).bind fun _ => .pure _)
  · exact C.fail _
  · exact C.fail _

theorem firstClause (clauses : List (Value × Value)) :
    C.Rel (Form.firstClause eval depth frame clauses)
      (Form.firstClause eval' depth' frame clauses) := by
  induction clauses with
  | nil => exact C.pure _
  | cons clause clauses ih =>
    refine C.bind (heval _ _) fun v => ?_
    split
    · exact C.pure _
    · exact ih

theorem cond (operands : List Value) :
    C.Rel (Form.cond eval depth frame operands) (Form.cond eval' depth' frame operands) := by
  unfold Form.cond
  split
  · exact C.fail _
  · split
    · exact C.fail _
    · refine C.bind (C.firstClause heval _) fun chosen => ?_
      split
      · exact C.pure _
      · refine C.bind (heval _ _) fun v => ?_
        split
        · exact C.pure _
        · exact C.fail _

theorem ite (operands : List Value) :
    C.Rel (Form.ite eval depth frame operands) (Form.ite eval' depth' frame operands) := by
  unfold Form.ite
  split
  · refine C.bind (heval _ _) fun v => ?_
    split
    · exact C.pure _
    · exact C.pure _
  · exact C.fail _

theorem begin (operands : List Value) :
    C.Rel (Form.begin eval depth frame operands) (Form.begin eval' depth' frame operands) := by
  fun_induction Form.begin eval depth frame operands with
  | case1 => exact C.fail _
  | case2 e => exact C.pure _
  | case3 e rest hrest ih =>
    rw [Form.begin]
    · exact C.bind (heval _ _) fun _ => ih
    · exact hrest

theorem list (operands : List Value) :
    C.Rel (Form.list eval depth frame operands) (Form.list eval' depth' frame operands) :=
  C.bind (C.evalAll heval operands) fun _ => C.pure _

theorem curry (operands : List Value) :
    C.Rel (Form.curry eval depth frame operands) (Form.curry eval' depth' frame operands) := by
  unfold Form.curry
  split
  · refine C.bind (heval _ _) fun procedure => ?_
    split
    · exact C.fail _
    · split
      · exact C.fail _
      · exact C.refl ((Local.newClosure _ _ _ _).bind fun v => .pure _)
  · exact C.fail _

theorem bindValue (name : String) (e : Value) :
    C.Rel (Form.bindValue eval depth frame name e) (Form.bindValue eval' depth' frame name e) := by
  refine C.bind (heval _ _) fun v => ?_
  cases v with
  | closure c => exact C.refl ((Local.bindFrame _ _ _).bind fun _ => .bindFrame _ _ _)
  | _ => exact C.refl (.bindFrame _ _ _)

theorem bindValues (bindings : List Value) :
    C.Rel (Form.bindValues eval depth frame bindings)
      (Form.bindValues eval' depth' frame bindings) := by
  fun_induction Form.bindValues eval depth frame bindings with
  | case1 => exact C.pure _
  | case2 name e rest ih =>
    rw [Form.bindValues]
    exact C.bind (C.bindValue heval _ _) fun _ => ih
  | case3 operands hnil hcons =>
    rw [Form.bindValues]
    · exact C.fail _
    · exact hnil
    · exact hcons

theorem letIn (operands : List Value) :
    C.Rel (Form.letIn eval depth frame operands) (Form.letIn eval' depth' frame operands) := by
  unfold Form.letIn
  split
  · refine C.bind (C.refl (.newFrame _ _)) fun inner => ?_
    exact C.bind (C.bindValue heval _ _) fun _ => C.pure _
  · refine C.bind (C.refl (.newFrame _ _)) fun inner => ?_
    exact C.bind (C.bindValues heval _) fun _ => C.pure _
  · exact C.fail _

theorem evalForm (operands : List Value) :
    C.Rel (Form.eval eval depth frame operands) (Form.eval eval' depth' frame operands) := by
  unfold Form.eval
  split
  · refine C.bind (heval _ _) fun v => ?_
    split
    · exact C.refl ((Local.parsed _).bind fun _ => .pure _)
    · exact C.pure _
  · exact C.fail _

theorem print (operands : List Value) :
    C.Rel (Form.print eval depth frame operands) (Form.print eval' depth' frame operands) := by
  unfold Form.print
  split
  · refine C.bind (heval _ _) fun v => ?_
    cases v with
    | string text => exact C.refl ((Local.print _).bind fun _ => .pure _)
    | _ => exact C.refl ((Local.print _).bind fun _ => .pure _)
  · exact C.fail _

end

section
variable {apply apply' : Applier} (happly : ∀ f args, C.Rel (apply f args) (apply' f args))
include happly

theorem callBuiltin {depth depth' : Nat} (hdepth : C.Depth depth depth') (b : Builtin)
    (args : List Value) :
    C.Rel (Form.callBuiltin apply b args depth) (Form.callBuiltin apply' b args depth') :=
  C.atHostDepth hdepth (C.builtin happly b args)

end

section
variable {eval eval' : Evaluator} {apply apply' : Applier} {depth depth' : Nat} {frame : FrameId}
  (heval : ∀ frame e, C.Rel (eval (depth + 1) frame e) (eval' (depth' + 1) frame e))
  (happly : ∀ f args, C.Rel (apply f args) (apply' f args)) (hdepth : C.Depth depth depth')
include heval happly hdepth

theorem application (f : Value) (operands : List Value) :
    C.Rel (Form.application eval apply depth frame f operands)
      (Form.application eval' apply' depth' frame f operands) := by
  refine C.bind (heval _ _) fun procedure => C.bind (C.evalAll heval operands) fun args => ?_
  cases procedure with
  | closure c => exact C.refl ((local_callFrame c args _).bind fun inner => .pure _)
  | builtin b =>
    exact C.bind (C.callBuiltin happly (C.depth_succ hdepth) b args) fun v => C.pure _
  | _ => exact C.fail _

theorem step (head : Value) (operands : List Value) :
    C.Rel (Form.step eval apply depth frame head operands)
      (Form.step eval' apply' depth' frame head operands) := by
  unfold Form.step
  split
  · unfold Form.quote
    split
    · exact C.pure _
    · exact C.fail _
  · unfold Form.string
    split
    · exact C.pure _
    · exact C.pure _
    · exact C.fail _
  · exact C.lambda heval operands
  · exact C.define heval operands
  · exact C.cond heval operands
  · exact C.ite heval operands
  · exact C.begin heval operands
  · exact C.list heval operands
  · exact C.curry heval operands
  · exact C.letIn heval operands
  · exact C.evalForm heval operands
  · exact C.print heval operands
  · exact C.application heval happly hdepth head operands

end

theorem eval_succ {fuel fuel' depth depth' : Nat}
    (heval : ∀ d d', C.Depth d d' → ∀ frame e,
      C.Rel (Lisplet.eval fuel d frame e) (Lisplet.eval fuel' d' frame e))
    (happly : ∀ f args, C.Rel (apply fuel f args) (apply fuel' f args))
    (hdepth : C.Depth depth depth') (hroom : depth < maxEvalDepth) (hroom' : depth' < maxEvalDepth)
    (frame : FrameId) (e : Value) :
    C.Rel (Lisplet.eval (fuel + 1) depth frame e) (Lisplet.eval (fuel' + 1) depth' frame e) := by
  rw [eval_of_lt hroom, eval_of_lt hroom']
  unfold evalBelow
  split
  · exact C.refl (.lookup _ _)
  · exact C.pure _
  · next head operands =>
    have hsub := heval _ _ (C.depth_succ hdepth)
    refine C.bind (C.step hsub happly hdepth head operands) fun step => ?_
    cases step with
    | done v => exact C.pure _
    | tail e frame => exact heval _ _ hdepth frame e
  · exact C.pure _

theorem apply_succ {fuel fuel' : Nat}
    (heval : ∀ d d', C.Depth d d' → ∀ frame e,
      C.Rel (Lisplet.eval fuel d frame e) (Lisplet.eval fuel' d' frame e))
    (happly : ∀ f args, C.Rel (apply fuel f args) (apply fuel' f args)) (f : Value)
    (args : List Value) : C.Rel (apply (fuel + 1) f args) (apply (fuel' + 1) f args) := by
  rw [apply, apply]
  refine C.hostDepth fun d d' hdepth => ?_
  cases f with
  | closure c =>
    exact C.bind (C.refl (local_callFrame c args _)) fun frame => heval _ _ hdepth frame c.body
  | builtin b => exact C.callBuiltin happly (C.depth_succ hdepth) b args
  | _ => exact C.fail _

end Congruence

end Lisplet
