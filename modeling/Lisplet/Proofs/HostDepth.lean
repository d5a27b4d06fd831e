import Lisplet.Proofs.Activations
import Lisplet.Proofs.Calls
import Lisplet.Session

/-! The host depth while a builtin runs. Whatever a call comes to, it puts back the host depth that
it found; so each call that a builtin makes is made at the depth that the application gave to the
builtin, however the calls before it have ended. -/
namespace Lisplet
open Run

section
variable {t : Task} {w w' : World}

theorem Starts.hostDepth_call {f : Value} {args : List Value} (h : Starts t w (.call f args) w') :
    w'.hostDepth = w.hostDepth := by
  cases h with
  | readWithMacro hread => exact (Local.readText _).hostDepth_eq hread
  | composedInner | replyCall => rfl
  | composedOuter hinner => exact hinner.hostDepth_eq

theorem Starts.hostDepth_reply {r : Reply} (h : Starts t w (.reply r) w') :
    w'.hostDepth = w.hostDepth := by
  cases h with
  | host => rfl
  | replyRest hcall => exact hcall.hostDepth_eq

end

/-- A builtin, or what an operation of the host asks for, calls a procedure back in this world.
Calls made before have ended, with a value or with an error. -/
inductive CallsBack : Task → World → Value → List Value → World → Prop where
  | now {t : Task} {w w' : World} {f : Value} {args : List Value}
    (hcall : Starts t w (.call f args) w') : CallsBack t w f args w'
  | later {t : Task} {w w₁ w' : World} {r : Reply} {f : Value} {args : List Value}
    (hreply : Starts t w (.reply r) w₁) (hrest : CallsBack (.reply r) w₁ f args w') :
    CallsBack t w f args w'

theorem CallsBack.hostDepth_eq {t : Task} {w w' : World} {f : Value} {args : List Value}
    (h : CallsBack t w f args w') : w'.hostDepth = w.hostDepth := by
  induction h with
  | now hcall => exact hcall.hostDepth_call
  | later hreply _ ih => exact ih.trans hreply.hostDepth_reply

/-- A call counts from the host depth: the body of a closure continues at it, and a builtin is one
level deeper. -/
theorem Starts.of_call {f : Value} {args : List Value} {w w' : World} {t : Task}
    (h : Starts (.call f args) w t w') :
    (∃ c, f = .closure c ∧ t = .expr w.hostDepth w.nextFrame c.body) ∨
      ∃ b, f = .builtin b ∧ t = .builtin b args ∧ w'.hostDepth = w.hostDepth + 1 := by
  cases h with
  | callClosure hcount => exact .inl ⟨_, rfl, rfl⟩
  | callBuiltin => exact .inr ⟨_, rfl, rfl, rfl⟩

namespace Run
variable {α β : Type} {m m' : Run α} {depth : Nat}

/-- From this host depth the second run does what the first does, and where the first ends it is at
this host depth again. -/
def AgreesAt (depth : Nat) (m m' : Run α) : Prop :=
  ∀ w, w.hostDepth = depth → m' w = m w ∧ ∀ o w', m.Ends w o w' → w'.hostDepth = depth

namespace AgreesAt

theorem refl (h : m.Local) : m.AgreesAt depth m :=
  fun _ hw => ⟨rfl, fun _ _ hends => (h.hostDepth_eq hends).trans hw⟩

theorem ofWorld (f : World → α) : (Run.ofWorld f).AgreesAt depth (Run.ofWorld f) := by
  refine fun w hw => ⟨rfl, fun o w' hends => ?_⟩
  obtain ⟨-, rfl⟩ := (ends_of_ok rfl).1 hends
  exact hw

theorem bind {f f' : α → Run β} (hm : m.AgreesAt depth m')
    (hf : ∀ a, (f a).AgreesAt depth (f' a)) : (m >>= f).AgreesAt depth (m' >>= f') := by
  intro w hw
  obtain ⟨heq, hkept⟩ := hm w hw
  constructor
  · rw [bind_apply, bind_apply, heq]
    cases hrun : m w with
    | ok a w₁ => exact (hf a w₁ (hkept (.ok a) w₁ hrun)).1
    | error halt w₁ => rfl
  · intro o w' hends
    obtain ⟨a, w₁, hfirst, hrest⟩ | ⟨e, hfirst, -⟩ := ends_bind.1 hends
    · exact (hf a w₁ (hkept _ _ hfirst)).2 o w' hrest
    · exact hkept _ _ hfirst

theorem attempt (h : m.AgreesAt depth m') : m.attempt.AgreesAt depth m'.attempt := by
  intro w hw
  obtain ⟨heq, hkept⟩ := h w hw
  refine ⟨by rw [Run.attempt, Run.attempt, heq], fun o w' hends => ?_⟩
  rw [← bind_pure m.attempt] at hends
  obtain ⟨result, w₁, hfirst, hrest⟩ := ends_attempt_bind.1 hends
  obtain ⟨-, rfl⟩ := ends_pure.1 hrest
  exact hkept _ _ hfirst

theorem reply {ap ap' : Applier} (h : ∀ f args, (ap f args).AgreesAt depth (ap' f args))
    (r : Reply) : (r.run ap).AgreesAt depth (r.run ap') := by
  induction r with
  | finish result => exact refl (.ofExcept result)
  | call f args resume ih => exact (h f args).attempt.bind ih

end AgreesAt

end Run

def CallCongruence.agreesAt (depth : Nat) : CallCongruence where
  Rel := Run.AgreesAt depth
  refl := .refl
  bind := .bind
  callHost slot args h := by
    refine .bind (.ofWorld _) fun operation? => ?_
    cases operation? with
    | none => exact .refl (.pure _)
    | some operation => exact .reply h _

namespace Form
variable {ap ap' : Applier} {depth : Nat}

theorem callBuiltin_congr (h : ∀ f args, (ap f args).AgreesAt depth (ap' f args)) (b : Builtin)
    (args : List Value) : callBuiltin ap' b args depth = callBuiltin ap b args depth := by
  funext w
  have hrun := (CallCongruence.agreesAt depth).builtin h b args { w with hostDepth := depth } rfl
  rw [callBuiltin, callBuiltin, Run.atHostDepth, Run.atHostDepth, hrun.1]

theorem application_congr (h : ∀ f args, (ap f args).AgreesAt (depth + 1) (ap' f args))
    (ev : Evaluator) (frame : FrameId) (f : Value) (operands : List Value) :
    application ev ap' depth frame f operands = application ev ap depth frame f operands := by
  rw [application_eq, application_eq]
  refine congrArg _ (funext fun procedure => congrArg _ (funext fun args => ?_))
  cases procedure with
  | builtin b => rw [invoke, invoke, callBuiltin_congr h]
  | _ => rfl

end Form

theorem hostDepth_of_apply {fuel : Nat} {f : Value} {args : List Value} {w w' : World}
    {o : Except Error Value} (h : (apply fuel f args).Ends w o w') : w'.hostDepth = w.hostDepth :=
  ((sound fuel).2 h).hostDepth_eq

/-- A call that ends leaves the host depth as it was, whatever it has come to. So what a builtin of
an application calls is called from one level below the application each time, with earlier calls
ended or failed: an application does the same with any way to call that agrees with this one at that
host depth. From there the body of a closure is evaluated at that depth, and a builtin runs one
level deeper. -/
theorem host_depth_restored :
    (∀ depth frame e w o w', EvalEnds depth frame e w o w' → w'.hostDepth = w.hostDepth) ∧
    (∀ f args w o w', ApplyEnds f args w o w' → w'.hostDepth = w.hostDepth) ∧
    (∀ fuel b args depth w o w', (Form.callBuiltin (apply fuel) b args depth).Ends w o w' →
      w'.hostDepth = w.hostDepth) ∧
    (∀ depth frame head operands w b args w₁,
      Starts (.form depth frame (.list (head :: operands))) w (.builtin b args) w₁ →
      ∀ f xs w₂, CallsBack (.builtin b args) w₁ f xs w₂ → w₂.hostDepth = depth + 1 ∧
        ∀ t w₃, Starts (.call f xs) w₂ t w₃ →
          (∃ c, f = .closure c ∧ t = .expr (depth + 1) w₂.nextFrame c.body) ∨
            ∃ b', f = .builtin b' ∧ t = .builtin b' xs ∧ w₃.hostDepth = depth + 2) ∧
    (∀ (depth fuel : Nat) (ap : Applier),
      (∀ f xs w, w.hostDepth = depth + 1 → ap f xs w = apply fuel f xs w) →
      ∀ ev frame head operands, Form.application ev ap depth frame head operands =
        Form.application ev (apply fuel) depth frame head operands) ∧
    ∀ (depth fuel : Nat) (w : World), w.hostDepth = depth + 1 →
      (∀ c xs, apply (fuel + 1) (.closure c) xs w =
        (Form.enter c xs >>= fun inner => eval fuel (depth + 1) inner c.body) w) ∧
      ∀ b xs, apply (fuel + 1) (.builtin b) xs w =
        Form.callBuiltin (apply fuel) b xs (depth + 2) w := by
  refine ⟨fun depth frame e w o w' h => h.bigStep.hostDepth_eq,
    fun f args w o w' h => (applyEnds_iff_bigStep.1 h).hostDepth_eq, ?_, ?_, ?_, ?_⟩
  · intro fuel b args depth w o w' h
    obtain ⟨w₁, -, rfl⟩ := Form.ends_callBuiltin.1 h
    rfl
  · intro depth frame head operands w b args w₁ happlication f xs w₂ hback
    have hdepth : w₂.hostDepth = depth + 1 := by
      cases happlication with
      | builtin => exact hback.hostDepth_eq
    refine ⟨hdepth, fun t w₃ hcall => ?_⟩
    have hcases := hcall.of_call
    rwa [hdepth] at hcases
  · intro depth fuel ap h
    refine Form.application_congr fun f xs w hw => ⟨h f xs w hw, fun o w' hends => ?_⟩
    exact (hostDepth_of_apply hends).trans hw
  · intro depth fuel w hw
    constructor
    · intro c xs
      rw [apply, bind_apply]
      change (Form.enter c xs >>= fun inner => eval fuel w.hostDepth inner c.body) w = _
      rw [hw]
    · intro b xs
      rw [apply, bind_apply]
      change Form.callBuiltin (apply fuel) b xs (w.hostDepth + 1) w = _
      rw [hw]

/-- Calls its argument with nothing and then, whatever has come of it, with one. -/
def HostOperation.retry : HostOperation
  | [f] => .call f [] fun _ => .call f [.int 1] .finish
  | _ => .finish (.ok .unspecified)

/-- From depth six the first call fails, having too few arguments, and the second is made at host
depth seven like the first. -/
theorem host_depth_restored_retry : ∃ w w₁ w₂ w₃ : World,
    Starts (.form 6 Session.globalFrame
        (.list [.builtin (.host "retry" 1 0), .builtin (.unary .increment)])) w
      (.builtin (.host "retry" 1 0) [.builtin (.unary .increment)]) w₁ ∧
    CallsBack (.builtin (.host "retry" 1 0) [.builtin (.unary .increment)]) w₁
      (.builtin (.unary .increment)) [.int 1] w₂ ∧ w₂.hostDepth = 7 ∧
    Starts (.call (.builtin (.unary .increment)) [.int 1]) w₂
      (.builtin (.unary .increment) [.int 1]) w₃ ∧ w₃.hostDepth = 8 ∧
    EvalEnds 6 Session.globalFrame
      (.list [.builtin (.host "retry" 1 0), .builtin (.unary .increment)]) w (.ok (.int 2)) w := by
  obtain ⟨-, -, -, hdepths, -, -⟩ := host_depth_restored
  let w := Session.start (Registry.empty.raw "retry" 1 HostOperation.retry) ⟨[], ""⟩ .empty
  have hhead : BigStep (.expr 7 Session.globalFrame (.builtin (.host "retry" 1 0))) w
      (.ok (.builtin (.host "retry" 1 0))) w := (BigStep.expr_procedure (by decide) rfl).2
  have hargument : BigStep (.expr 7 Session.globalFrame (.builtin (.unary .increment))) w
      (.ok (.builtin (.unary .increment))) w := (BigStep.expr_procedure (by decide) rfl).2
  have happlication := Starts.builtin rfl hhead hargument.exprs_one
  have hcount : ([] : List Value).length ≠ (.unary .increment : Builtin).arity := by decide
  have hrun : BigStep (.builtin (.unary .increment) []) ((w.atHostDepth 7).atHostDepth 8)
      (.error (.arity 1 0 (some "++"))) ((w.atHostDepth 7).atHostDepth 8) := .builtinArity hcount
  have hfails := BigStep.callBuiltin hrun
  have hback : CallsBack (.builtin (.host "retry" 1 0) [.builtin (.unary .increment)])
      (w.atHostDepth 7) (.builtin (.unary .increment)) [.int 1] (w.atHostDepth 7) :=
    .later (.host rfl rfl) (.later (.replyRest hfails) (.now .replyCall))
  have hcall : Starts (.call (.builtin (.unary .increment)) [.int 1]) (w.atHostDepth 7)
      (.builtin (.unary .increment) [.int 1]) (w.atHostDepth 8) := .callBuiltin
  obtain ⟨hdepth, hstarts⟩ := hdepths _ _ _ _ _ _ _ _ happlication _ _ _ hback
  obtain ⟨c, hc, -⟩ | ⟨b, -, -, hdeeper⟩ := hstarts _ _ hcall
  · cases hc
  · exact ⟨w, _, _, _, happlication, hback, hdepth, hcall, hdeeper, 5, rfl⟩

end Lisplet
