import Lisplet.Proofs.Calls

/-! Applications as calls. An application evaluates its head and its operands and then calls the
procedure from its own depth, as the host would from there. -/
namespace Lisplet

/-- The procedure, called from an evaluation at the depth, ends so. The host depth is the depth of
the evaluation for the time of the call. -/
def CallEnds (depth : Nat) (f : Value) (args : List Value) (w : World) (o : Except Error Value)
    (w' : World) : Prop :=
  ∃ w₁, ApplyEnds f args (w.atHostDepth depth) o w₁ ∧ w' = w₁.atHostDepth w.hostDepth

section
variable {depth : Nat} {f : Value} {args : List Value} {w w₁ w' : World}
  {o : Except Error Value}

theorem callEnds_iff_bigStep : CallEnds depth f args w o w' ↔
    ∃ w₁, BigStep (.call f args) (w.atHostDepth depth) o w₁ ∧ w' = w₁.atHostDepth w.hostDepth := by
  simp only [CallEnds, applyEnds_iff_bigStep]

theorem CallEnds.unique {o' : Except Error Value} {w'' : World} (h : CallEnds depth f args w o w')
    (h' : CallEnds depth f args w o' w'') : o = o' ∧ w' = w'' := by
  obtain ⟨w₁, hcall, rfl⟩ := callEnds_iff_bigStep.1 h
  obtain ⟨w₂, hcall', rfl⟩ := callEnds_iff_bigStep.1 h'
  obtain ⟨ho, rfl⟩ := hcall.unique hcall'
  exact ⟨ho, rfl⟩

theorem CallEnds.ends_iff {o' : Except Error Value} (h : CallEnds depth f args w o w₁) :
    CallEnds depth f args w o' w' ↔ o' = o ∧ w' = w₁ := by
  constructor
  · exact fun h' => h'.unique h
  · rintro ⟨rfl, rfl⟩
    exact h

theorem callEnds_closure_iff {c : Closure} (hcount : c.params.length = args.length) :
    CallEnds depth (.closure c) args w o w' ↔
      BigStep (.expr depth w.nextFrame c.body) (w.newFrame (c.params.zip args) c.frame) o w' := by
  rw [callEnds_iff_bigStep]
  constructor
  · rintro ⟨w₁, h, rfl⟩
    cases h with
    | callClosure _ hbody => exact hbody.atHostDepth trivial w.hostDepth
    | callArity hother => exact absurd hcount hother
    | callNotProcedure harity => cases harity
  · intro h
    have hkept : w'.hostDepth = w.hostDepth := h.hostDepth_eq
    have hcall := BigStep.callClosure (w := w.atHostDepth depth) hcount
      (h.atHostDepth trivial depth)
    exact ⟨_, hcall, (World.atHostDepth_of_eq hkept).symm⟩

theorem CallEnds.builtin {b : Builtin}
    (h : BigStep (.builtin b args) (w.atHostDepth (depth + 1)) o w') :
    CallEnds depth (.builtin b) args w o (w'.atHostDepth w.hostDepth) :=
  callEnds_iff_bigStep.2 ⟨_, .callBuiltin (w := w.atHostDepth depth) h, rfl⟩

end

theorem exists_map_iff {α β : Type} (first : Except Error α → World → Prop)
    {next : α → World → Except Error β → World → Prop} {g : α → β}
    (hnext : ∀ a w, first (.ok a) w → ∀ {o w'}, next a w o w' ↔ o = .ok (g a) ∧ w' = w)
    {o : Except Error β} {w' : World} :
    (∃ error, o = .error error ∧ first (.error error) w') ∨
        (∃ a w, first (.ok a) w ∧ next a w o w') ↔
      ∃ o', first o' w' ∧ o = o'.map g := by
  constructor
  · rintro (⟨error, rfl, h⟩ | ⟨a, w, h, hrest⟩)
    · exact ⟨_, h, rfl⟩
    · obtain ⟨rfl, rfl⟩ := (hnext a w h).1 hrest
      exact ⟨_, h, rfl⟩
  · rintro ⟨o', h, rfl⟩
    cases o' with
    | ok a => exact .inr ⟨a, w', h, (hnext a w' h).2 ⟨rfl, rfl⟩⟩
    | error error => exact .inl ⟨error, rfl, h⟩

section
variable {depth : Nat} {frame : FrameId} {w w₁ w₂ w' : World} {o : Except Error Value}

theorem SpecialForm.applied_inj {form form' : SpecialForm} {operands operands' : List Value} :
    form.applied operands = form'.applied operands' ↔ form = form' ∧ operands = operands' := by
  constructor
  · intro h
    obtain ⟨hname, hoperands⟩ := List.cons.inj (Value.list.inj h)
    have hform := congrArg SpecialForm.ofName? (Value.symbol.inj hname)
    simp only [SpecialForm.ofName?_name, Option.some.injEq] at hform
    exact ⟨hform, hoperands⟩
  · rintro ⟨rfl, rfl⟩
    rfl

theorem bigStep_expr_iff {e : Value} (hdepth : depth < maxEvalDepth) :
    BigStep (.expr depth frame e) w o w' ↔ BigStep (.form depth frame e) w o w' := by
  constructor
  · intro h
    obtain hdeep | ⟨-, h⟩ := h
    · exact absurd hdepth (Nat.not_lt.2 hdeep)
    · exact h
  · exact .within hdepth

theorem evalEnds_iff_form {e : Value} (hdepth : depth < maxEvalDepth) :
    EvalEnds depth frame e w o w' ↔ BigStep (.form depth frame e) w o w' := by
  rw [← bigStep_expr_iff hdepth]
  exact ⟨EvalEnds.bigStep, BigStep.evalEnds⟩

theorem bigStep_exprs_cons_iff {e : Value} {es : List Value} {o : Except Error (List Value)} :
    BigStep (.exprs depth frame (e :: es)) w o w' ↔
      (∃ error, o = .error error ∧ BigStep (.expr (depth + 1) frame e) w (.error error) w') ∨
      ∃ v w₁ o', BigStep (.expr (depth + 1) frame e) w (.ok v) w₁ ∧
        BigStep (.exprs depth frame es) w₁ o' w' ∧ o = o'.map (v :: ·) := by
  constructor
  · intro h
    cases h with
    | exprsCons he hes => exact .inr ⟨_, _, _, he, hes, rfl⟩
    | exprsError he => exact .inl ⟨_, rfl, he⟩
    | exprsRest he hes => exact .inr ⟨_, _, _, he, hes, rfl⟩
  · rintro (⟨error, rfl, he⟩ | ⟨v, w₁, o', he, hes, rfl⟩)
    · exact .exprsError he
    · cases o' with
      | ok vs => exact .exprsCons he hes
      | error error => exact .exprsRest he hes

theorem bigStep_exprs_cons_iff_of_ok {e v : Value} {es : List Value} {o : Except Error (List Value)}
    (he : BigStep (.expr (depth + 1) frame e) w (.ok v) w₁) :
    BigStep (.exprs depth frame (e :: es)) w o w' ↔
      ∃ o', BigStep (.exprs depth frame es) w₁ o' w' ∧ o = o'.map (v :: ·) := by
  rw [bigStep_exprs_cons_iff]
  constructor
  · rintro (⟨error, -, he'⟩ | ⟨v', w₂, o', he', hes, rfl⟩)
    · cases (he.unique he').1
    · obtain ⟨hv, rfl⟩ := he.unique he'
      cases hv
      exact ⟨o', hes, rfl⟩
  · rintro ⟨o', hes, rfl⟩
    exact .inr ⟨v, w₁, o', he, hes, rfl⟩

theorem bigStep_exprs_cons_iff_of_rest {e : Value} {es vs : List Value}
    {o : Except Error (List Value)}
    (hrest : ∀ v w₁, BigStep (.expr (depth + 1) frame e) w (.ok v) w₁ →
      BigStep (.exprs depth frame es) w₁ (.ok vs) w₁) :
    BigStep (.exprs depth frame (e :: es)) w o w' ↔
      ∃ o', BigStep (.expr (depth + 1) frame e) w o' w' ∧ o = o'.map (· :: vs) := by
  rw [bigStep_exprs_cons_iff]
  simp only [exists_and_left]
  apply exists_map_iff (BigStep (.expr (depth + 1) frame e) w)
  intro v w₁ he o w'
  constructor
  · rintro ⟨o', hes, rfl⟩
    obtain ⟨rfl, rfl⟩ := hes.unique (hrest v w₁ he)
    exact ⟨rfl, rfl⟩
  · rintro ⟨rfl, rfl⟩
    exact ⟨_, hrest v _ he, rfl⟩

theorem BigStep.exprs_quoted (hdepth : depth + 1 < maxEvalDepth) (args : List Value) :
    BigStep (.exprs depth frame (args.map .quoted)) w (.ok args) w := by
  induction args with
  | nil => exact .exprsNil
  | cons v args ih => exact .exprsCons (.within hdepth .quote) ih

section
variable {head procedure : Value} {operands : List Value}

/-- An application whose operands are evaluated ends as the call of its procedure. -/
theorem bigStep_application_iff_call {args : List Value} (hform : Form.form? head = none)
    (hf : BigStep (.expr (depth + 1) frame head) w (.ok procedure) w₁)
    (hargs : BigStep (.exprs depth frame operands) w₁ (.ok args) w₂) :
    BigStep (.form depth frame (.list (head :: operands))) w o w' ↔
      CallEnds depth procedure args w₂ o w' := by
  rw [callEnds_iff_bigStep]
  constructor
  · intro h
    have hkept : w'.hostDepth = w₂.hostDepth := by
      rw [h.hostDepth_eq, hargs.hostDepth_eq, hf.hostDepth_eq]
    exact ⟨_, .call_of_application hform hf hargs h, (World.atHostDepth_of_eq hkept).symm⟩
  · rintro ⟨w₃, h, rfl⟩
    exact .application hform hf hargs h

theorem bigStep_application_iff_body {c : Closure} {args : List Value}
    (hform : Form.form? head = none)
    (hf : BigStep (.expr (depth + 1) frame head) w (.ok (.closure c)) w₁)
    (hargs : BigStep (.exprs depth frame operands) w₁ (.ok args) w₂)
    (hcount : c.params.length = args.length) :
    BigStep (.form depth frame (.list (head :: operands))) w o w' ↔
      BigStep (.expr depth w₂.nextFrame c.body) (w₂.newFrame (c.params.zip args) c.frame) o w' := by
  rw [bigStep_application_iff_call hform hf hargs, callEnds_closure_iff hcount]

theorem bigStep_application_iff (hform : Form.form? head = none)
    (hf : BigStep (.expr (depth + 1) frame head) w (.ok procedure) w₁) :
    BigStep (.form depth frame (.list (head :: operands))) w o w' ↔
      (∃ error, o = .error error ∧ BigStep (.exprs depth frame operands) w₁ (.error error) w') ∨
      ∃ args w₂, BigStep (.exprs depth frame operands) w₁ (.ok args) w₂ ∧
        CallEnds depth procedure args w₂ o w' := by
  constructor
  · intro h
    obtain ⟨o', w₂, hargs⟩ := BigStep.exprs_of_application hform hf h
    cases o' with
    | ok args => exact .inr ⟨args, w₂, hargs, (bigStep_application_iff_call hform hf hargs).1 h⟩
    | error error =>
      obtain ⟨rfl, rfl⟩ := h.unique (.argumentError hform hf hargs)
      exact .inl ⟨error, rfl, hargs⟩
  · rintro (⟨error, rfl, hargs⟩ | ⟨args, w₂, hargs, hcall⟩)
    · exact .argumentError hform hf hargs
    · exact (bigStep_application_iff_call hform hf hargs).2 hcall

theorem bigStep_application_iff_operand {e : Value} {args : Value → List Value}
    (hform : Form.form? head = none)
    (hf : BigStep (.expr (depth + 1) frame head) w (.ok procedure) w₁)
    (hoperands : ∀ {o w'}, BigStep (.exprs depth frame operands) w₁ o w' ↔
      ∃ o', BigStep (.expr (depth + 1) frame e) w₁ o' w' ∧ o = o'.map args) :
    BigStep (.form depth frame (.list (head :: operands))) w o w' ↔
      (∃ error, o = .error error ∧ BigStep (.expr (depth + 1) frame e) w₁ (.error error) w') ∨
      ∃ v w₂, BigStep (.expr (depth + 1) frame e) w₁ (.ok v) w₂ ∧
        CallEnds depth procedure (args v) w₂ o w' := by
  rw [bigStep_application_iff hform hf]
  simp only [hoperands]
  constructor
  · rintro (⟨error, rfl, o', he, ho⟩ | ⟨_, w₂, ⟨o', he, ho⟩, hcall⟩)
    · cases o' with
      | ok v => cases ho
      | error error' =>
        cases ho
        exact .inl ⟨error, rfl, he⟩
    · cases o' with
      | ok v =>
        cases ho
        exact .inr ⟨v, w₂, he, hcall⟩
      | error error => cases ho
  · rintro (⟨error, rfl, he⟩ | ⟨v, w₂, he, hcall⟩)
    · exact .inl ⟨error, rfl, _, he, rfl⟩
    · exact .inr ⟨_, w₂, ⟨_, he, rfl⟩, hcall⟩

end

section
variable {test thenE elseE : Value}

theorem bigStep_ite_iff_test :
    BigStep (.form depth frame (SpecialForm.ite.applied [test, thenE, elseE])) w o w' ↔
      (∃ error, o = .error error ∧
        BigStep (.expr (depth + 1) frame test) w (.error error) w') ∨
      ∃ v w₁, BigStep (.expr (depth + 1) frame test) w (.ok v) w₁ ∧
        BigStep (.expr depth frame (if v.isTruthy then thenE else elseE)) w₁ o w' := by
  constructor
  · intro h
    generalize he : SpecialForm.ite.applied [test, thenE, elseE] = e at h
    cases h with
    | ite htest htail =>
      cases he
      exact .inr ⟨_, _, htest, htail⟩
    | iteError htest =>
      cases he
      exact .inl ⟨_, rfl, htest⟩
    | malformed h =>
      obtain ⟨rfl, rfl⟩ := SpecialForm.applied_inj.1 he
      exact absurd ⟨test, thenE, elseE, rfl⟩ h
    | symbol | unbound | nil => cases he
    | self _ hlist => exact absurd he.symm (hlist _)
    | closure hform | closureArity hform | builtin hform | notProcedure hform | headError hform
    | argumentError hform =>
      cases he
      cases hform
    | _ => cases (SpecialForm.applied_inj.1 he).1
  · rintro (⟨error, rfl, htest⟩ | ⟨v, w₁, htest, htail⟩)
    · exact .iteError htest
    · exact .ite htest htail

theorem bigStep_ite_iff {v : Value}
    (htest : BigStep (.expr (depth + 1) frame test) w (.ok v) w₁) :
    BigStep (.form depth frame (SpecialForm.ite.applied [test, thenE, elseE])) w o w' ↔
      BigStep (.expr depth frame (if v.isTruthy then thenE else elseE)) w₁ o w' := by
  rw [bigStep_ite_iff_test]
  constructor
  · rintro (⟨error, rfl, htest'⟩ | ⟨u, w₂, htest', htail⟩)
    · cases (htest.unique htest').1
    · obtain ⟨hv, rfl⟩ := htest.unique htest'
      cases hv
      exact htail
  · exact fun htail => .inr ⟨v, w₁, htest, htail⟩

end

end

/-- The host calls a procedure from some depth just as the program does that applies it to quoted
values at that depth: both end alike, in a value or in an error, and leave the same world, or
neither ends. -/
theorem application_iff_apply {procedure : Value} (hprocedure : procedure.arity?.isSome)
    (args : List Value) (frame : FrameId) {depth : Nat} (hdepth : depth + 1 < maxEvalDepth)
    (w : World) (o : Except Error Value) (w' : World) :
    EvalEnds depth frame (.list (procedure :: args.map .quoted)) w o w' ↔
      ∃ w₁, ApplyEnds procedure args (w.atHostDepth depth) o w₁ ∧
        w' = w₁.atHostDepth w.hostDepth := by
  obtain ⟨hform, hhead⟩ := BigStep.expr_procedure hdepth hprocedure
  rw [evalEnds_iff_form (Nat.lt_of_succ_lt hdepth)]
  exact bigStep_application_iff_call hform hhead (.exprs_quoted hdepth args)

/-- A closure of one parameter is given two arguments, one of them code, as deep as it can be. Both
say what was expected, what was given and how the closure is written. -/
theorem application_iff_apply_arity : ∃ w : World,
    ApplyEnds (.closure ⟨0, ["x"], .symbol "x", 0, none⟩) [.int 1, .list [.symbol "f"]] w
      (.error (.arity 1 2 (some "(lambda (x) x)"))) w ∧
    EvalEnds (maxEvalDepth - 2) 0 (.list [.closure ⟨0, ["x"], .symbol "x", 0, none⟩,
      (Value.int 1).quoted, (Value.list [.symbol "f"]).quoted]) w
      (.error (.arity 1 2 (some "(lambda (x) x)"))) w := by
  obtain ⟨w, hw⟩ : ∃ w : World, w = ⟨.empty, ⟨[], ""⟩, .empty, #[], maxEvalDepth - 2⟩ := ⟨_, rfl⟩
  have hdepth : maxEvalDepth - 2 + 1 < maxEvalDepth := by decide
  have hprocedure : (Value.closure ⟨0, ["x"], .symbol "x", 0, none⟩).arity?.isSome := rfl
  have happly : ApplyEnds (.closure ⟨0, ["x"], .symbol "x", 0, none⟩)
      [.int 1, .list [.symbol "f"]] w (.error (.arity 1 2 (some "(lambda (x) x)"))) w := by
    rw [hw]
    exact ⟨1, rfl⟩
  have hsame : w.atHostDepth (maxEvalDepth - 2) = w := World.atHostDepth_of_eq (by rw [hw])
  refine ⟨w, happly, (application_iff_apply hprocedure [.int 1, .list [.symbol "f"]] 0 hdepth w _
    w).2 ⟨w, ?_, rfl⟩⟩
  rw [hsame]
  exact happly

end Lisplet
