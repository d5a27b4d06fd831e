import Lisplet.Proofs.Calls
import Lisplet.Proofs.HygienicRuns
import Lisplet.Proofs.LetBinding

/-! What `curry` makes is a partial application. Called with the missing arguments, it evaluates the
arguments given before in a frame inside the one it was made in and then calls the procedure with
all of them. The missing ones are looked up last, so evaluating the others must leave them as they
were; in a hygienic world it does. -/
namespace Lisplet

section
variable {depth : Nat} {frame : FrameId} {w w' : World}

theorem bigStep_exprs_append {es es' : List Value} {o : Except Error (List Value)} :
    BigStep (.exprs depth frame (es ++ es')) w o w' ↔
      (∃ e, o = .error e ∧ BigStep (.exprs depth frame es) w (.error e) w') ∨
      ∃ vs w₁ o', BigStep (.exprs depth frame es) w (.ok vs) w₁ ∧
        BigStep (.exprs depth frame es') w₁ o' w' ∧ o = o'.map (vs ++ ·) := by
  induction es generalizing w o with
  | nil =>
    constructor
    · intro h
      refine .inr ⟨[], w, o, .exprsNil, h, ?_⟩
      cases o <;> rfl
    · rintro (⟨e, -, h⟩ | ⟨vs, w₁, o', h, h', rfl⟩)
      · cases h
      · cases h
        cases o' <;> exact h'
  | cons e es ih =>
    constructor
    · intro h
      cases h with
      | exprsCons he hes =>
        obtain ⟨error, ⟨⟩, -⟩ | ⟨vs, w₁, o', hfirst, hsecond, ho⟩ := ih.1 hes
        cases o' with
        | ok us =>
          cases ho
          exact .inr ⟨_, _, .ok us, .exprsCons he hfirst, hsecond, rfl⟩
        | error error => cases ho
      | exprsError he => exact .inl ⟨_, rfl, .exprsError he⟩
      | exprsRest he hes =>
        obtain ⟨error, ⟨⟩, hfirst⟩ | ⟨vs, w₁, o', hfirst, hsecond, ho⟩ := ih.1 hes
        · exact .inl ⟨_, rfl, .exprsRest he hfirst⟩
        · cases o' with
          | ok us => cases ho
          | error error =>
            cases ho
            exact .inr ⟨_, _, .error _, .exprsCons he hfirst, hsecond, rfl⟩
    · rintro (⟨error, rfl, h⟩ | ⟨vs, w₁, o', h, h', rfl⟩)
      · cases h with
        | exprsError he => exact .exprsError he
        | exprsRest he hes => exact .exprsRest he (ih.2 (.inl ⟨_, rfl, hes⟩))
      · cases h with
        | exprsCons he hes =>
          have hrest := ih.2 (.inr ⟨_, _, _, hes, h', rfl⟩)
          cases o' with
          | ok us => exact .exprsCons he hrest
          | error error => exact .exprsRest he hrest

theorem BigStep.exprs_symbols (hdepth : depth + 1 < maxEvalDepth) {names : List String}
    {vs : List Value} (h : names.map (w.store.local? frame) = vs.map some) :
    BigStep (.exprs depth frame (names.map .symbol)) w (.ok vs) w := by
  induction names generalizing vs with
  | nil =>
    cases vs with
    | nil => exact .exprsNil
    | cons v vs => cases h
  | cons name names ih =>
    cases vs with
    | nil => cases h
    | cons v vs =>
      obtain ⟨hname, hnames⟩ := List.cons.inj h
      refine .exprsCons (.expr_symbol hdepth ?_) (ih hnames)
      rw [Store.lookup?_eq_or, hname]
      rfl

end

namespace World
variable (w : World) (bindings : List (String × Value)) {parent id : FrameId} {name : String}

theorem lookup?_newFrame_of_lt (h : id < w.nextFrame) :
    (w.newFrame bindings parent).store.lookup? id name = w.store.lookup? id name :=
  Store.lookup?_congr (fun _ hid => Store.local?_newFrame_of_lt hid bindings _ _)
    (fun _ hid => Store.parent?_newFrame_of_lt hid bindings _) h

theorem lookup?_newClosure : w.newClosure.store.lookup? id name = w.store.lookup? id name := by
  have hlocal : ∀ other, other < id + 1 →
      w.newClosure.store.local? other name = w.store.local? other name := fun _ _ => rfl
  have hparent : ∀ other, other < id + 1 →
      w.newClosure.store.parent? other = w.store.parent? other := fun _ _ => rfl
  exact Store.lookup?_congr hlocal hparent (Nat.lt_succ_self id)

theorem lookup?_newFrame_of_not_mem (hparent : parent < w.nextFrame)
    (hname : name ∉ bindings.map Prod.fst) :
    (w.newFrame bindings parent).store.lookup? w.nextFrame name = w.store.lookup? parent name := by
  have hlocal : (w.newFrame bindings parent).store.local? w.nextFrame name = none := by
    rw [local?_newFrame, if_pos rfl, Std.TreeMap.getElem?_ofList_of_contains_eq_false]
    simpa using hname
  have hup : (w.newFrame bindings parent).store.parent? w.nextFrame = some parent :=
    Store.parent?_newFrame_self hparent bindings
  rw [Store.lookup?_eq_or, hlocal, hup, Option.none_or, Option.bind_some,
    lookup?_newFrame_of_lt w bindings hparent]

theorem map_local?_newFrame {names : List String} (hnames : names.Nodup) {vs : List Value}
    (hcount : names.length = vs.length) :
    names.map ((w.newFrame (names.zip vs) parent).store.local? w.nextFrame) = vs.map some := by
  have hdistinct : (names.zip vs).Pairwise fun a b => ¬ compare a.1 b.1 = .eq := by
    have hpairs : ((names.zip vs).map Prod.fst).Nodup := by
      rwa [List.map_fst_zip (Nat.le_of_eq hcount)]
    refine (List.pairwise_map.1 hpairs).imp fun hne heq => hne ?_
    exact Std.LawfulEqCmp.eq_of_compare heq
  refine List.ext_getElem (by simpa using hcount) fun i hi hi' => ?_
  simp only [List.length_map] at hi hi'
  rw [List.getElem_map, List.getElem_map, local?_newFrame, if_pos rfl]
  refine Std.TreeMap.getElem?_ofList_of_mem (Std.ReflCmp.compare_self) hdistinct ?_
  exact List.mem_iff_getElem.2 ⟨i, by simp [hi, hi'], List.getElem_zip⟩

theorem lookup?_newFrame_zip {names : List String} (hnames : names.Nodup) {vs : List Value}
    (hcount : names.length = vs.length) {i : Nat} (hname : names[i]? = some name) :
    (w.newFrame (names.zip vs) parent).store.lookup? w.nextFrame name = vs[i]? := by
  have hall : names.map ((w.newFrame (names.zip vs) parent).store.local? w.nextFrame) =
      vs.map some := w.map_local?_newFrame hnames hcount
  have hlocal := congrArg (·[i]?) hall
  simp only [List.getElem?_map, hname, Option.map_some] at hlocal
  cases hv : vs[i]? with
  | none =>
    rw [hv] at hlocal
    cases hlocal
  | some v =>
    rw [hv] at hlocal
    exact Store.lookup?_of_local? (Option.some.inj hlocal)

end World

namespace Closure.Curries
variable {c : Closure} {procedure : Value} {given : List Value}

theorem nodup_params (hc : c.Curries procedure given) : c.params.Nodup := by
  rw [hc.params]
  exact Form.nodup_curriedParams _

theorem not_plain (hc : c.Curries procedure given) {name : String} (hname : name ∈ c.params) :
    ¬ Plain name := by
  rw [hc.params] at hname
  exact Form.not_plain_of_mem_curriedParams hname

section
variable {vs us args : List Value} {w w₁ w' : World} {o : Except Error Value}

theorem bigStep_call_iff (hc : c.Curries procedure given) (hcount : c.params.length = vs.length)
    (hdepth : w.hostDepth < maxEvalDepth) :
    BigStep (.call (.closure c) vs) w o w' ↔
      BigStep (.form w.hostDepth w.nextFrame
          (.list (procedure :: (given ++ c.params.map .symbol))))
        (w.newFrame (c.params.zip vs) c.frame) o w' := by
  have hbody : c.body = .list (procedure :: (given ++ c.params.map .symbol)) := hc.body
  constructor
  · intro h
    cases h with
    | callClosure _ h =>
      rw [hbody] at h
      cases h with
      | tooDeep hdeep => exact absurd hdepth (Nat.not_lt.2 hdeep)
      | within _ hform => exact hform
    | callArity hother => exact absurd hcount hother
    | callNotProcedure harity => cases harity
  · intro h
    rw [← hbody] at h
    exact .callClosure hcount (.within hdepth h)

theorem call_of_error (hc : c.Curries procedure given) (hcount : c.params.length = vs.length)
    (hdepth : w.hostDepth + 1 < maxEvalDepth) {e : Error}
    (hgiven : BigStep (.exprs w.hostDepth w.nextFrame given)
      (w.newFrame (c.params.zip vs) c.frame) (.error e) w') :
    BigStep (.call (.closure c) vs) w (.error e) w' := by
  obtain ⟨hform, hhead⟩ := BigStep.expr_procedure hdepth (Option.isSome_of_eq_some hc.arity)
  rw [hc.bigStep_call_iff hcount (Nat.lt_of_succ_lt hdepth)]
  exact .argumentError hform hhead (bigStep_exprs_append.2 (.inl ⟨e, rfl, hgiven⟩))

theorem call_iff_of_ok (hc : c.Curries procedure given) (hcount : c.params.length = vs.length)
    (hdepth : w.hostDepth + 1 < maxEvalDepth)
    (hgiven : BigStep (.exprs w.hostDepth w.nextFrame given)
      (w.newFrame (c.params.zip vs) c.frame) (.ok args) w₁)
    (hparams : c.params.map (w₁.store.local? w.nextFrame) = us.map some) :
    BigStep (.call (.closure c) vs) w o w' ↔ BigStep (.call procedure (args ++ us)) w₁ o w' := by
  obtain ⟨hform, hhead⟩ := BigStep.expr_procedure hdepth (Option.isSome_of_eq_some hc.arity)
  have hargs : BigStep (.exprs w.hostDepth w.nextFrame (given ++ c.params.map .symbol))
      (w.newFrame (c.params.zip vs) c.frame) (.ok (args ++ us)) w₁ :=
    bigStep_exprs_append.2 (.inr ⟨_, _, _, hgiven, .exprs_symbols hdepth hparams, rfl⟩)
  have hkept : w₁.hostDepth = w.hostDepth := hgiven.hostDepth_eq
  have hsame := World.atHostDepth_of_eq hkept
  rw [hc.bigStep_call_iff hcount (Nat.lt_of_succ_lt hdepth)]
  constructor
  · intro h
    have hend : w'.hostDepth = w.hostDepth := h.hostDepth_eq
    have hcall := BigStep.call_of_application hform hhead hargs h
    rwa [hsame, World.atHostDepth_of_eq hend] at hcall
  · intro h
    have hend := World.atHostDepth_of_eq h.hostDepth_eq
    rw [← hsame] at h
    have happlication := BigStep.application hform hhead hargs h
    rwa [hend] at happlication

theorem exprs_of_call (hc : c.Curries procedure given) (hcount : c.params.length = vs.length)
    (hdepth : w.hostDepth + 1 < maxEvalDepth) (h : BigStep (.call (.closure c) vs) w o w') :
    ∃ o' w₁, BigStep (.exprs w.hostDepth w.nextFrame given)
      (w.newFrame (c.params.zip vs) c.frame) o' w₁ := by
  obtain ⟨hform, hhead⟩ := BigStep.expr_procedure hdepth (Option.isSome_of_eq_some hc.arity)
  rw [hc.bigStep_call_iff hcount (Nat.lt_of_succ_lt hdepth)] at h
  obtain ⟨o', w₁, hargs⟩ := BigStep.exprs_of_application hform hhead h
  obtain ⟨e, -, hgiven⟩ | ⟨args, w₂, -, hgiven, -⟩ := bigStep_exprs_append.1 hargs
  · exact ⟨_, _, hgiven⟩
  · exact ⟨_, _, hgiven⟩

end

end Closure.Curries

/-- Called with the missing arguments in this world, the closure evaluates those given before, in a
frame inside its own that binds the missing ones besides, and calls the procedure with all, from
the same depth. -/
structure Closure.PartiallyApplies (c : Closure) (procedure : Value) (given vs : List Value)
    (w : World) : Prop where
  parent : (w.newFrame (c.params.zip vs) c.frame).store.parent? w.nextFrame = some c.frame
  resolves : ∀ name ∉ c.params,
    (w.newFrame (c.params.zip vs) c.frame).store.lookup? w.nextFrame name =
      w.store.lookup? c.frame name
  bound : c.params.map ((w.newFrame (c.params.zip vs) c.frame).store.local? w.nextFrame) =
    vs.map some
  fails : ∀ e w', BigStep (.exprs w.hostDepth w.nextFrame given)
      (w.newFrame (c.params.zip vs) c.frame) (.error e) w' →
    ∀ o w'', ApplyEnds (.closure c) vs w o w'' ↔ o = .error e ∧ w'' = w'
  continues : ∀ args us w₁, BigStep (.exprs w.hostDepth w.nextFrame given)
      (w.newFrame (c.params.zip vs) c.frame) (.ok args) w₁ →
    c.params.map (w₁.store.local? w.nextFrame) = us.map some → w₁.hostDepth = w.hostDepth ∧
      ∀ o w', ApplyEnds (.closure c) vs w o w' ↔ ApplyEnds procedure (args ++ us) w₁ o w'
  evaluates : ∀ o w', ApplyEnds (.closure c) vs w o w' → ∃ o' w₁,
    BigStep (.exprs w.hostDepth w.nextFrame given) (w.newFrame (c.params.zip vs) c.frame) o' w₁
  /-- In a hygienic world nothing binds them anew. -/
  keeps : w.Hygienic → (∀ e ∈ given, e.Hygienic) → (∀ v ∈ vs, v.Hygienic) → ∀ o w₁,
    BigStep (.exprs w.hostDepth w.nextFrame given) (w.newFrame (c.params.zip vs) c.frame) o w₁ →
      c.params.map (w₁.store.local? w.nextFrame) = vs.map some

theorem Closure.Curries.partiallyApplies {c : Closure} {procedure : Value} {given vs : List Value}
    {w : World} (hc : c.Curries procedure given) (hcount : c.params.length = vs.length)
    (hframe : c.frame < w.nextFrame) (hdepth : w.hostDepth + 1 < maxEvalDepth) :
    c.PartiallyApplies procedure given vs w where
  parent := Store.parent?_newFrame_self hframe _
  resolves name hname := by
    refine World.lookup?_newFrame_of_not_mem w _ hframe ?_
    rwa [List.map_fst_zip (Nat.le_of_eq hcount)]
  bound := World.map_local?_newFrame w hc.nodup_params hcount
  fails e w' hgiven o w'' :=
    applyEnds_iff_bigStep.trans (hc.call_of_error hcount hdepth hgiven).ends_iff
  continues args us w₁ hgiven hparams := by
    refine ⟨hgiven.hostDepth_eq, fun o w' => ?_⟩
    rw [applyEnds_iff_bigStep, applyEnds_iff_bigStep]
    exact hc.call_iff_of_ok hcount hdepth hgiven hparams
  evaluates o w' h := hc.exprs_of_call hcount hdepth (applyEnds_iff_bigStep.1 h)
  keeps hw hgiven hvs o w₁ h := by
    have hentered : (w.newFrame (c.params.zip vs) c.frame).Hygienic :=
      hw.newFrame fun _ v hmem => hvs v (List.of_mem_zip hmem).2
    obtain ⟨htraced, -⟩ := h.preserves (fun e he => .code (hgiven e he)) hentered
    rw [← World.map_local?_newFrame w hc.nodup_params hcount]
    refine List.map_congr_left fun name hname => ?_
    exact htraced.old w.nextFrame name (by simp) (hc.not_plain hname)

theorem BigStep.curry_curries {depth m : Nat} {frame : FrameId} {f procedure : Value}
    {given : List Value} {w w₁ : World}
    (hf : BigStep (.expr (depth + 1) frame f) w (.ok procedure) w₁) (hdepth : depth < maxEvalDepth)
    (harity : procedure.arity? = some m) (hgiven : given.length ≤ m) : ∃ c : Closure,
    BigStep (.expr depth frame (SpecialForm.curry.applied [.list (f :: given)])) w
      (.ok (.closure c)) w₁.newClosure ∧
    c.Curries procedure given ∧ c.arity = m - given.length ∧ c.frame = frame := by
  have hcurries := Closure.curries_of_curry (c := ⟨w₁.store.closures,
    Form.curriedParams (m - given.length), .list (procedure :: given ++
      (Form.curriedParams (m - given.length)).map .symbol), frame, none⟩) harity hgiven rfl rfl rfl
  exact ⟨_, .within hdepth (.curry hf harity hgiven rfl), hcurries, Form.length_curriedParams _,
    rfl⟩

/-- Currying is partial application: of a procedure with too many arguments it is an arity error,
and otherwise a closure over the missing ones that evaluates the given ones and calls the
procedure. -/
theorem curry_partial_application {depth m : Nat} {frame : FrameId} {f procedure : Value}
    (given : List Value) {w w₁ : World} (hf : EvalEnds (depth + 1) frame f w (.ok procedure) w₁)
    (harity : procedure.arity? = some m) :
    (m < given.length → ∀ o w',
      EvalEnds depth frame (SpecialForm.curry.applied [.list (f :: given)]) w o w' ↔
        o = .error (.arity m given.length
          (some ("(curry " ++ (Value.list (f :: given)).text ++ ")"))) ∧ w' = w₁) ∧
    (given.length ≤ m → ∃ c : Closure,
      (∀ o w', EvalEnds depth frame (SpecialForm.curry.applied [.list (f :: given)]) w o w' ↔
        o = .ok (.closure c) ∧ w' = w₁.newClosure) ∧
      c.arity = m - given.length ∧ c.params.Nodup ∧ c.frame = frame ∧
      ∀ w₂ vs, frame < w₂.nextFrame → w₂.hostDepth + 1 < maxEvalDepth → vs.length = c.arity →
        c.PartiallyApplies procedure given vs w₂) := by
  have hf := hf.bigStep
  have hdepth : depth + 1 < maxEvalDepth := by
    cases hf with
    | within hdepth _ => exact hdepth
  have hdepth := Nat.lt_of_succ_lt hdepth
  constructor
  · intro hmany o w'
    exact (BigStep.within hdepth (.curryArity hf harity hmany)).evalEnds_iff
  · intro hgiven
    obtain ⟨c, hcurry, hc, hcount, hframe⟩ := hf.curry_curries hdepth harity hgiven
    refine ⟨c, fun _ _ => hcurry.evalEnds_iff, hcount, hc.nodup_params, hframe, ?_⟩
    intro w₂ vs hold hroom hvs
    rw [← hframe] at hold
    exact hc.partiallyApplies hvs.symm hold hroom

section
open Session

theorem curry_partial_application_addition : ∃ w w₁ c,
    EvalEnds 0 globalFrame (SpecialForm.curry.applied [.list [.symbol "+", .int 1]]) w
      (.ok (.closure c)) w.newClosure ∧
    ApplyEnds (.closure c) [.int 2] w.newClosure (.ok (.int 3)) w₁ ∧
    EvalEnds 0 globalFrame
      (SpecialForm.curry.applied [.list [.symbol "+", .int 1, .int 2, .int 3]]) w
      (.error (.arity 2 3 (some "(curry (+ 1 2 3))"))) w := by
  obtain ⟨w, hw⟩ : ∃ w, w = start (.standard "/") ⟨[], ""⟩ .empty := ⟨_, rfl⟩
  have hplus : w.store.lookup? globalFrame "+" = some (.builtin (.binary .add)) := by
    rw [hw, Store.lookup?]
    rfl
  have hnext : w.newClosure.nextFrame = 1 := by
    rw [hw]
    rfl
  have hdepth : w.newClosure.hostDepth = 0 := by
    rw [hw]
    rfl
  have hf : EvalEnds 1 globalFrame (.symbol "+") w (.ok (.builtin (.binary .add))) w :=
    BigStep.evalEnds (.expr_symbol (by decide) hplus)
  obtain ⟨-, hcurry⟩ := curry_partial_application [.int 1] hf rfl
  obtain ⟨hmany, -⟩ := curry_partial_application [.int 1, .int 2, .int 3] hf rfl
  obtain ⟨c, hmade, harity, -, hframe, happlies⟩ := hcurry (by decide)
  have hadds := happlies w.newClosure [.int 2] (by rw [hnext]; decide) (by rw [hdepth]; decide)
    harity.symm
  have hone : BigStep (.exprs w.newClosure.hostDepth w.newClosure.nextFrame [.int 1])
      (w.newClosure.newFrame (c.params.zip [.int 2]) c.frame) (.ok [.int 1])
      (w.newClosure.newFrame (c.params.zip [.int 2]) c.frame) :=
    .exprsCons (.expr_int (by rw [hdepth]; decide) 1) .exprsNil
  refine ⟨w, _, c, (hmade _ _).2 ⟨rfl, rfl⟩,
    ((hadds.continues [.int 1] [.int 2] _ hone hadds.bound).2 _ _).2 ⟨1, rfl⟩, ?_⟩
  have htext : (Value.list [.symbol "+", .int 1, .int 2, .int 3]).text = "(+ 1 2 3)" := by
    decide +kernel
  refine (hmany (by decide) _ _).2 ⟨?_, rfl⟩
  rw [htext]
  rfl

/-- Code that no text stands for. A procedure is made where the code is evaluated, and a `let` binds
it there to the name of a parameter. -/
def rebinding : Value :=
  .list [SpecialForm.lambda.applied [.list [.symbol "z"],
      SpecialForm.letIn.applied [.symbol "curried arg 0", .symbol "z", .int 7]],
    SpecialForm.lambda.applied [.list [.symbol "x"], .symbol "x"]]

theorem bigStep_rebinding {depth : Nat} {frame : FrameId} {w : World} (hframe : frame < w.nextFrame)
    (hdepth : depth + 1 < maxEvalDepth) : ∃ w' k,
    BigStep (.expr depth frame rebinding) w (.ok (.int 7)) w' ∧
      w'.store.local? frame "curried arg 0" = some (.closure k) := by
  have hroom := Nat.lt_of_succ_lt hdepth
  obtain ⟨k, hmade, hk⟩ : ∃ k : Closure,
    .closure k = w.newClosure.closure ["x"] (.symbol "x") frame none ∧ k.frame = frame :=
      ⟨_, rfl, rfl⟩
  have hmaker : BigStep (.expr (depth + 1) frame (SpecialForm.lambda.applied [.list [.symbol "z"],
      SpecialForm.letIn.applied [.symbol "curried arg 0", .symbol "z", .int 7]])) w
      (.ok (w.closure ["z"] (SpecialForm.letIn.applied
        [.symbol "curried arg 0", .symbol "z", .int 7]) frame none)) w.newClosure :=
    .within hdepth (.lambda rfl)
  have hmade : BigStep (.exprs depth frame
      [SpecialForm.lambda.applied [.list [.symbol "x"], .symbol "x"]]) w.newClosure
      (.ok [.closure k]) w.newClosure.newClosure := by
    rw [hmade]
    exact .exprs_one (.within hdepth (.lambda rfl))
  obtain ⟨w₁, hw₁⟩ : ∃ w₁, w₁ = w.newClosure.newClosure.newFrame [("z", .closure k)] frame :=
    ⟨_, rfl⟩
  have hnext : w.nextFrame < w₁.nextFrame := by
    rw [hw₁, World.nextFrame_newFrame]
    exact Nat.lt_succ_self _
  have hz : (w₁.newFrame [] w.nextFrame).store.lookup? w₁.nextFrame "z" = some (.closure k) := by
    have hlocal : w₁.store.local? w.nextFrame "z" = some (.closure k) := by
      rw [hw₁, World.local?_newFrame]
      exact if_pos rfl
    rw [World.lookup?_newFrame_of_not_mem _ _ hnext (by simp), Store.lookup?_eq_or, hlocal]
    rfl
  have hlet : BigStep (.expr depth w.nextFrame
      (SpecialForm.letIn.applied [.symbol "curried arg 0", .symbol "z", .int 7])) w₁ (.ok (.int 7))
      ((w₁.newFrame [] w.nextFrame).bind w₁.nextFrame "curried arg 0" (.closure k)) :=
    .within hroom (.letOne (.bindingsCons (.expr_symbol hdepth hz) .bindingsNil)
      (.expr_int hroom 7))
  refine ⟨_, k, .within hroom (.closure rfl hmaker hmade rfl (hw₁ ▸ hlet)), ?_⟩
  rw [← hw₁, World.local?_bind_of_ne _ _ _ _ _ _ _ (Nat.ne_of_lt (Nat.lt_trans hframe hnext))]
  · rw [if_pos ⟨by rw [Value.captured?, hk], rfl⟩]
  · rw [World.nextFrame_newFrame]
    exact Nat.lt_succ_of_lt (Nat.lt_trans hframe hnext)

/-- Such code, evaluated as an argument given to a comparison, makes the comparison one of `7` with
a procedure: `7` is not found equal to `7`. -/
theorem curry_partial_application_rebound : ∃ w w₁ c,
    w.store.lookup? globalFrame "code" = some rebinding ∧
    EvalEnds 0 globalFrame (SpecialForm.curry.applied
      [.list [.symbol "=", SpecialForm.eval.applied [.symbol "code"]]]) w (.ok (.closure c))
      w.newClosure ∧
    BigStep (.exprs 0 1 [SpecialForm.eval.applied [.symbol "code"]])
      (w.newClosure.newFrame (c.params.zip [.int 7]) globalFrame) (.ok [.int 7]) w₁ ∧
    ApplyEnds (.builtin (.binary .equal)) [.int 7, .int 7] w₁ (.ok (.bool true)) w₁ ∧
    ApplyEnds (.closure c) [.int 7] w.newClosure (.ok (.bool false)) w₁ := by
  obtain ⟨w, hw⟩ : ∃ w, w = (start (.standard "/") ⟨[], ""⟩ .empty).bind globalFrame "code"
    rebinding := ⟨_, rfl⟩
  have hcode : w.store.lookup? globalFrame "code" = some rebinding := by
    rw [hw, Store.lookup?]
    rfl
  have hequal : w.store.lookup? globalFrame "=" = some (.builtin (.binary .equal)) := by
    rw [hw, Store.lookup?]
    rfl
  have hnext : w.newClosure.nextFrame = 1 := by
    rw [hw]
    rfl
  have hdepth : w.newClosure.hostDepth = 0 := by
    rw [hw]
    rfl
  clear hw
  have hcomparison : BigStep (.expr 1 globalFrame (.symbol "=")) w
    (.ok (.builtin (.binary .equal))) w := .expr_symbol (by decide) hequal
  have hroom : [SpecialForm.eval.applied [.symbol "code"]].length ≤ 2 := by decide
  obtain ⟨c, hcurry, hc, hcount, hframe⟩ := hcomparison.curry_curries (by decide) rfl hroom
  have hparams : c.params = ["curried arg 0"] := by
    have hlength : c.params.length = 1 := hcount
    rw [hc.params, hlength]
    rfl
  have hglobal : globalFrame < w.newClosure.nextFrame := by
    rw [hnext]
    decide
  have hentered : 1 < (w.newClosure.newFrame (c.params.zip [.int 7]) globalFrame).nextFrame := by
    simp [hnext]
  have hdeeper : 1 + 1 < maxEvalDepth := by decide
  obtain ⟨w₁, k, hrebinding, hk⟩ := bigStep_rebinding hentered hdeeper
  have hlookup : (w.newClosure.newFrame (c.params.zip [.int 7]) globalFrame).store.lookup? 1
      "code" = some rebinding := by
    rw [← hnext, World.lookup?_newFrame_of_not_mem _ _ hglobal (by simp [hparams]), ← hcode]
    exact w.lookup?_newClosure
  have hgiven : BigStep (.exprs 0 1 [SpecialForm.eval.applied [.symbol "code"]])
      (w.newClosure.newFrame (c.params.zip [.int 7]) globalFrame) (.ok [.int 7]) w₁ :=
    .exprs_one (.within (by decide)
      (.evalCode (.expr_symbol (by decide) hlookup) (by simp [rebinding]) hrebinding))
  have hrebound : c.params.map (w₁.store.local? 1) = [Value.closure k].map some := by
    simp [hparams, hk]
  have hcompares {v : Value} {b : Bool} (h : (Value.int 7).same v = b) :
      BigStep (.call (.builtin (.binary .equal)) [.int 7, v]) w₁ (.ok (.bool b)) w₁ := by
    have hrun : BigStep (.builtin (.binary .equal) [.int 7, v])
        (w₁.atHostDepth (w₁.hostDepth + 1)) (.ok (.bool ((Value.int 7).same v)))
        (w₁.atHostDepth (w₁.hostDepth + 1)) := .binary (by simp) fun _ => rfl
    have hend := BigStep.callBuiltin hrun
    exact h ▸ hend
  have hone : c.params.length = [Value.int 7].length := hcount
  have hcall : BigStep (.call (.closure c) [.int 7]) w.newClosure (.ok (.bool false)) w₁ := by
    rw [hc.call_iff_of_ok hone (by rw [hdepth]; decide) (by rwa [hdepth, hnext, hframe])
      (by rwa [hnext])]
    exact hcompares (by simp [Value.same, Value.sameAll, Value.sameAtom, Value.int])
  have hitself : (Value.int 7).same (.int 7) = true := by
    simp [Value.same, Value.sameAll, Value.sameAtom, Value.int, Number.same]
  exact ⟨w, w₁, c, hcode, BigStep.evalEnds hcurry, hgiven,
    applyEnds_iff_bigStep.2 (hcompares hitself), applyEnds_iff_bigStep.2 hcall⟩

end

end Lisplet
