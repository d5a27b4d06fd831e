import Lisplet.Proofs.Patching

/-! What the bindings of a `let` change besides the frame of the `let`. A closure is bound in the
frame it was made in as well, and that frame may be older than the `let`. -/
namespace Lisplet

theorem Store.lookup?_congr {old new : Store} {name : String} {bound : FrameId}
    (hlocal : ∀ id, id < bound → new.local? id name = old.local? id name)
    (hparent : ∀ id, id < bound → new.parent? id = old.parent? id) {id : FrameId}
    (hid : id < bound) : new.lookup? id name = old.lookup? id name := by
  induction id using Nat.strongRecOn with
  | ind id ih =>
    rw [lookup?_eq_or new, lookup?_eq_or old, hlocal id hid, hparent id hid]
    cases hp : old.parent? id with
    | none => rfl
    | some p =>
      have hlt := lt_of_parent? hp
      rw [Option.bind_some, Option.bind_some, ih p hlt (Nat.lt_trans hlt hid)]

namespace World
variable (w : World) (frame id : FrameId) (name key : String) (v : Value)

theorem parent?_bind : (w.bind frame name v).store.parent? id = w.store.parent? id := by
  cases v <;> simp only [bind, Store.parent?_bind]

theorem local?_bind_of_ne (hid : id < w.nextFrame) (hne : id ≠ frame) :
    (w.bind frame name v).store.local? id key =
      if v.captured? = some id ∧ key = name then some v else w.store.local? id key := by
  have hid : id < w.store.frames.size := hid
  have hne := hne.symm
  cases v with
  | closure c =>
    simp only [bind, Store.local?_bind, hne, hid, Store.size_bind, Value.captured?,
      Option.some.injEq, false_and, if_false, and_true, eq_comm (a := name)]
  | _ => simp [bind, Store.local?_bind, hne, Value.captured?]

end World

namespace Form
open Run
variable {ev : Evaluator} {depth : Nat} {frame : FrameId}

theorem bindValues_append (earlier later : List Value) :
    bindValues ev depth frame (earlier ++ later) =
      bindValues ev depth frame earlier >>= fun _ => bindValues ev depth frame later := by
  fun_induction bindValues ev depth frame earlier with
  | case1 => rfl
  | case2 name e rest ih =>
    rw [List.cons_append, bindValues, ih, bind_assoc]
  | case3 bindings hnil hcons =>
    cases bindings with
    | nil => exact absurd rfl hnil
    | cons binding rest =>
      rw [List.cons_append, bindValues]
      · rfl
      · exact List.cons_ne_nil binding (rest ++ later)
      · intro name e rest' h
        exact hcons name e rest (by rw [(List.cons.inj h).1])

variable {fuel : Nat} {operands earlier later : List Value} {name : String} {e body v : Value}
  {w w₁ w₂ : World}

theorem eval_letIn
    (hparts : letParts? operands = some (earlier ++ .list [.symbol name, e] :: later, body))
    (hdepth : depth < maxEvalDepth)
    (hearlier : bindValues (Lisplet.eval fuel) depth w.nextFrame earlier (w.newFrame [] frame) =
      .ok () w₁)
    (he : Lisplet.eval fuel (depth + 1) w.nextFrame e w₁ = .ok v w₂) :
    Lisplet.eval (fuel + 1) depth frame (SpecialForm.letIn.applied operands) w =
      (bindValues (Lisplet.eval fuel) depth w.nextFrame later >>= fun _ =>
        Lisplet.eval fuel depth w.nextFrame body) (w₂.bind w.nextFrame name v) := by
  have hnew : newFrame [] (some frame) w = .ok w.nextFrame (w.newFrame [] frame) := rfl
  rw [eval_of_lt hdepth, SpecialForm.applied, evalBelow, step_form, SpecialForm.run,
    letIn_of_letParts? hparts]
  simp only [bindValues_append, bindValues, bindValue_eq, bind_assoc, pure_bind]
  rw [bind_apply, hnew]
  dsimp only
  rw [bind_apply, hearlier]
  dsimp only
  rw [bind_apply, he]
  rfl

end Form

open Run
variable {fuel depth : Nat} {frame : FrameId} {w w' : World} {operands : List Value}

/-- The forms that make a closure, with what they make it of and the world in which they do. -/
inductive Makes (ev : Evaluator) (depth : Nat) (frame : FrameId) (w : World) :
    SpecialForm → List Value → List String → Value → Option Value → World → Prop where
  | lambda {ps body : Value} {names : List String} (hparams : Form.params ps = .ok names) :
    Makes ev depth frame w .lambda [ps, body] names body none w
  | lambdaHelp {ps help body v : Value} {names : List String} {w₁ : World}
    (hparams : Form.params ps = .ok names)
    (hhelp : (ev (depth + 1) frame help).Ends w (.ok v) w₁) :
    Makes ev depth frame w .lambda [ps, help, body] names body (some v) w₁
  | curry {f procedure : Value} {given : List Value} {n : Nat} {names : List String} {w₁ : World}
    (hf : (ev (depth + 1) frame f).Ends w (.ok procedure) w₁) (harity : procedure.arity? = some n)
    (hgiven : given.length ≤ n) (hnames : names = Form.curriedParams (n - given.length)) :
    Makes ev depth frame w .curry [.list (f :: given)] names
      (.list (procedure :: given ++ names.map .symbol)) none w₁

theorem makes_of_run {ev : Evaluator} {form : SpecialForm} {step : Step}
    (hform : form = .lambda ∨ form = .curry)
    (h : (form.run ev depth frame operands).Ends w (.ok step) w') :
    ∃ names body help w₁, Makes ev depth frame w form operands names body help w₁ ∧
      step = .done (w₁.closure names body frame help) ∧ w' = w₁.newClosure := by
  have haccepts : form.Accepts operands := by
    by_contra hno
    rw [SpecialForm.run_of_not_accepts hno, ends_fail] at h
    cases h.1
  obtain rfl | rfl := hform <;> rw [SpecialForm.run] at h
  · obtain ⟨ps, body, rfl | ⟨help, rfl⟩⟩ := haccepts
    · obtain ⟨names, hparams, hstep, hw'⟩ | ⟨error, -, herror, -⟩ := Form.ends_lambda.1 h
      · cases hstep
        exact ⟨_, _, _, _, .lambda hparams, rfl, hw'⟩
      · cases herror
    · obtain ⟨names, u, w₁, hparams, hhelp, hstep, hw'⟩ | ⟨names, error, -, -, herror⟩ |
        ⟨error, -, herror, -⟩ := Form.ends_lambda_help.1 h
      · cases hstep
        exact ⟨_, _, _, _, .lambdaHelp hparams hhelp, rfl, hw'⟩
      · cases herror
      · cases herror
  · obtain ⟨f, given, rfl⟩ := haccepts
    obtain ⟨u, n, w₁, names, hf, harity, hgiven, hnames, hstep, hw'⟩ | ⟨u, -, -, herror⟩ |
      ⟨u, n, -, -, -, herror⟩ | ⟨error, -, herror⟩ := Form.ends_curry.1 h
    · cases hstep
      exact ⟨_, _, _, _, .curry hf harity hgiven hnames, rfl, hw'⟩
    · cases herror
    · cases herror
    · cases herror

/-- The forms that make a closure make it in the frame they are evaluated in, last of all. -/
theorem makes_of_eval {form : SpecialForm} {v : Value} (hform : form = .lambda ∨ form = .curry)
    (h : eval fuel depth frame (form.applied operands) w = .ok v w') :
    ∃ fuel' names body help w₁, Makes (eval fuel') depth frame w form operands names body help w₁ ∧
      v = w₁.closure names body frame help ∧ w' = w₁.newClosure := by
  cases fuel with
  | zero =>
    rw [eval] at h
    cases h
  | succ fuel =>
    by_cases hdepth : depth < maxEvalDepth
    · rw [eval_of_lt hdepth] at h
      have hends : (evalBelow fuel depth frame (form.applied operands)).Ends w (.ok v) w' := h
      rw [SpecialForm.applied, ends_evalBelow_cons, Form.step_form] at hends
      obtain ⟨u, hstep, hv⟩ | ⟨next, inner, w₁, hstep, -⟩ | ⟨error, -, herror⟩ := hends
      · obtain ⟨names, body, help, w₁, hmakes, hdone, hw'⟩ := makes_of_run hform hstep
        cases hdone
        cases hv
        exact ⟨_, _, _, _, _, hmakes, rfl, hw'⟩
      · obtain ⟨_, _, _, _, -, hdone, -⟩ := makes_of_run hform hstep
        cases hdone
      · cases herror
    · rw [eval_of_le (Nat.not_lt.1 hdepth)] at h
      cases h

/-- After the value of a binding, a `let` binds the name and goes on with the later bindings. Of the
frames that are older than the `let` the binding changes only the one that the value captured, and
there only the name; what is looked up from them under another name, or when there is no such frame,
stays the same. A closure that the binding itself makes has captured the frame of the `let`. -/
theorem let_binding {operands earlier later : List Value} {name : String} {e body v : Value}
    {w w₁ w₂ : World}
    (hparts : Form.letParts? operands = some (earlier ++ .list [.symbol name, e] :: later, body))
    (hdepth : depth < maxEvalDepth)
    (hearlier : Form.bindValues (eval fuel) depth w.nextFrame earlier (w.newFrame [] frame) =
      .ok () w₁)
    (he : eval fuel (depth + 1) w.nextFrame e w₁ = .ok v w₂) :
    eval (fuel + 1) depth frame (SpecialForm.letIn.applied operands) w =
      (Form.bindValues (eval fuel) depth w.nextFrame later >>= fun _ =>
        eval fuel depth w.nextFrame body) (w₂.bind w.nextFrame name v) ∧
    (∀ id key, id < w.nextFrame → (w₂.bind w.nextFrame name v).store.local? id key =
      if v.captured? = some id ∧ key = name then some v else w₂.store.local? id key) ∧
    (∀ key, (key = name → ∀ id, id < w.nextFrame → v.captured? ≠ some id) →
      ∀ id, id < w.nextFrame →
        (w₂.bind w.nextFrame name v).store.lookup? id key = w₂.store.lookup? id key) ∧
    ∀ form operands', form = .lambda ∨ form = .curry → e = SpecialForm.applied form operands' →
      v.captured? = some w.nextFrame := by
  have hw₁ : w.store.Patched w₁.store := by
    have h : w.store.Patched (after
        (Form.bindValues (eval fuel) depth w.nextFrame earlier (w.newFrame [] frame))).store :=
      (w.store.patched_newFrame [] (some frame)).run (w := w.newFrame [] frame)
        (t := .bindings depth w.nextFrame earlier) ⟨Nat.le_refl _, fun _ _ => trivial⟩ fuel
    rwa [hearlier] at h
  have hw₂ : w₁.store.Patched w₂.store := by
    have h := patched_of_eval w₁ fuel (depth + 1) w.nextFrame e
    rwa [he] at h
  have hsize : w.nextFrame ≤ w₂.nextFrame := (hw₁.trans hw₂).size_le
  have hlocal (id : FrameId) (key : String) (hid : id < w.nextFrame) :=
    w₂.local?_bind_of_ne w.nextFrame id name key v (Nat.lt_of_lt_of_le hid hsize) (Nat.ne_of_lt hid)
  refine ⟨Form.eval_letIn hparts hdepth hearlier he, hlocal, fun key hkey id hid => ?_, ?_⟩
  · refine Store.lookup?_congr (fun other hother => ?_) (fun other _ => ?_) hid
    · rw [hlocal other key hother]
      exact if_neg fun h => hkey h.2 other hother h.1
    · exact w₂.parent?_bind w.nextFrame other name v
  · rintro form operands' hform rfl
    obtain ⟨_, _, _, _, _, -, rfl, -⟩ := makes_of_eval hform he
    rfl

namespace Session

theorem let_binding_lambda : ∃ w w₁ w₂ v,
    Leads (start (.standard "/") ⟨[], ""⟩ .empty) w ∧
    Form.bindValues (eval 5) 0 w.nextFrame [.list [.symbol "n", .int 1]]
      (w.newFrame [] globalFrame) = .ok () w₁ ∧
    eval 5 1 w.nextFrame (SpecialForm.lambda.applied [.list [.symbol "x"], .symbol "n"]) w₁ =
      .ok v w₂ ∧
    v.captured? = some w.nextFrame ∧
    ∀ id key, id < w.nextFrame →
      (w₂.bind w.nextFrame "f" v).store.local? id key = w₂.store.local? id key ∧
      (w₂.bind w.nextFrame "f" v).store.lookup? id key = w₂.store.lookup? id key := by
  obtain ⟨w, hw⟩ : ∃ w, w = start (.standard "/") ⟨[], ""⟩ .empty := ⟨_, rfl⟩
  have hparts : Form.letParts? [.list [.list [.symbol "n", .int 1], .list [.symbol "f",
      SpecialForm.lambda.applied [.list [.symbol "x"], .symbol "n"]]], .list [.symbol "f", .int 2]] =
      some ([.list [.symbol "n", .int 1]] ++ .list [.symbol "f",
        SpecialForm.lambda.applied [.list [.symbol "x"], .symbol "n"]] :: [],
        .list [.symbol "f", .int 2]) := rfl
  have hearlier : Form.bindValues (eval 5) 0 w.nextFrame [.list [.symbol "n", .int 1]]
      (w.newFrame [] globalFrame) =
      .ok () ((w.newFrame [] globalFrame).bind w.nextFrame "n" (.int 1)) := rfl
  have he : eval 5 1 w.nextFrame (SpecialForm.lambda.applied [.list [.symbol "x"], .symbol "n"])
      ((w.newFrame [] globalFrame).bind w.nextFrame "n" (.int 1)) =
      .ok (.closure ⟨w.store.closures, ["x"], .symbol "n", w.nextFrame, none⟩)
        ((w.newFrame [] globalFrame).bind w.nextFrame "n" (.int 1)).newClosure := rfl
  obtain ⟨-, hlocal, hlookup, hcaptured⟩ := let_binding hparts (by decide) hearlier he
  have hcaptured := hcaptured .lambda _ (.inl rfl) rfl
  have hfree (id : FrameId) (hid : id < w.nextFrame) :
      (Value.closure ⟨w.store.closures, ["x"], .symbol "n", w.nextFrame, none⟩).captured? ≠
        some id := by
    rw [hcaptured]
    exact fun h => Nat.ne_of_gt hid (Option.some.inj h)
  refine ⟨w, _, _, _, hw ▸ .refl _, hearlier, he, hcaptured, fun id key hid => ⟨?_, ?_⟩⟩
  · rw [hlocal id key hid]
    exact if_neg fun h => hfree id hid h.1
  · exact hlookup key (fun _ => hfree) id hid

/-- A closure that was made in the global frame is bound there under the name of a later `let`. -/
theorem let_binding_global : ∃ w v,
    w = Call.world 100 {} (start (.standard "/") ⟨[], ""⟩ .empty)
      (.evalText "(define f (lambda (x) x))") ∧
    eval 99 1 w.nextFrame (.symbol "f") (w.newFrame [] globalFrame) =
      .ok v (w.newFrame [] globalFrame) ∧
    (w.newFrame [] globalFrame).store.local? globalFrame "g" = none ∧
    ((w.newFrame [] globalFrame).bind w.nextFrame "g" v).store.local?
      globalFrame "g" = some v ∧
    ((after (eval 100 0 globalFrame (SpecialForm.letIn.applied
      [.symbol "g", .symbol "f", .list [.symbol "g", .int 1]]) w)).store.local?
        globalFrame "g").isSome := by
  obtain ⟨w, hw⟩ : ∃ w, w = Call.world 100 {}
    (start (.standard "/") ⟨[], ""⟩ .empty) (.evalText "(define f (lambda (x) x))") :=
    ⟨_, rfl⟩
  have hclosure : ((w.newFrame [] globalFrame).store.lookup? w.nextFrame "f").any
      (fun v => v.captured? == some globalFrame) = true := by
    rw [hw]
    decide +kernel
  have hfresh : (w.newFrame [] globalFrame).store.local? globalFrame "g" = none := by
    refine Option.isNone_iff_eq_none.1 ?_
    rw [hw]
    decide +kernel
  have hsize : globalFrame < w.nextFrame := by
    rw [hw]
    decide +kernel
  obtain ⟨v, hv, hcaptured⟩ := (Option.any_eq_true _ _).1 hclosure
  refine ⟨w, v, hw, ?_, hfresh, ?_, ?_⟩
  · rw [eval_of_lt (by decide), evalBelow, Run.lookup, hv]
  · have hlt := Nat.lt_of_lt_of_le hsize (w.store.patched_newFrame [] (some globalFrame)).size_le
    rw [World.local?_bind_of_ne _ _ _ _ _ _ hlt (Nat.ne_of_lt hsize)]
    exact if_pos ⟨beq_iff_eq.1 hcaptured, rfl⟩
  · rw [hw]
    decide +kernel

end Session

end Lisplet
