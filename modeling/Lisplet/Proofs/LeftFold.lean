import Lisplet.Proofs.LibraryCalls

/-! Folding a list from the left, as a relation between worlds and as the library does it. -/
namespace Lisplet
open Library Session

/-- A list is folded from the left by a call at every element, which takes what has been made so far
to what is made next. `walked` is the world once the walk has come to the elements that are left. An
error ends the walk. -/
inductive LeftFold {α : Type} (walked : α → List Value → World → World)
    (call : α → Value → World → Except Error α → World → Prop) :
    α → List Value → World → Except Error α → World → Prop where
  | done {a : α} {w : World} : LeftFold walked call a [] w (.ok a) (walked a [] w)
  | next {a a' : α} {x : Value} {xs : List Value} {w w₁ w' : World} {o : Except Error α}
    (hcall : call a x (walked a (x :: xs) w) (.ok a') w₁)
    (hrest : LeftFold walked call a' xs w₁ o w') : LeftFold walked call a (x :: xs) w o w'
  | failed {a : α} {x : Value} {xs : List Value} {w w' : World} {e : Error}
    (hcall : call a x (walked a (x :: xs) w) (.error e) w') :
    LeftFold walked call a (x :: xs) w (.error e) w'

/-- A condition holds wherever the walk goes on from. -/
def Throughout {α : Type} (P : World → Prop) (walked : α → List Value → World → World)
    (call : α → Value → World → Except Error α → World → Prop) : α → List Value → World → Prop
  | _, [], w => P w
  | a, x :: xs, w => P w ∧ ∀ a' w', call a x (walked a (x :: xs) w) (.ok a') w' →
    Throughout P walked call a' xs w'

section
variable {α : Type} {walked : α → List Value → World → World}
  {call : α → Value → World → Except Error α → World → Prop} {a : α} {x : Value} {xs : List Value}
  {w w' : World} {o : Except Error α}

theorem leftFold_nil_iff : LeftFold walked call a [] w o w' ↔ o = .ok a ∧ w' = walked a [] w := by
  constructor
  · rintro ⟨⟩
    exact ⟨rfl, rfl⟩
  · rintro ⟨rfl, rfl⟩
    exact .done

theorem leftFold_cons_iff : LeftFold walked call a (x :: xs) w o w' ↔
    (∃ e, o = .error e ∧ call a x (walked a (x :: xs) w) (.error e) w') ∨
    ∃ a' w₁, call a x (walked a (x :: xs) w) (.ok a') w₁ ∧ LeftFold walked call a' xs w₁ o w' := by
  constructor
  · rintro (_ | ⟨hcall, hrest⟩ | hcall)
    · exact .inr ⟨_, _, hcall, hrest⟩
    · exact .inl ⟨_, rfl, hcall⟩
  · rintro (⟨e, rfl, hcall⟩ | ⟨a', w₁, hcall, hrest⟩)
    · exact .failed hcall
    · exact .next hcall hrest

theorem LeftFold.error_of_call {e : Error} (h : LeftFold walked call a xs w (.error e) w') :
    ∃ a' x rest w₁, (x :: rest) <:+ xs ∧ call a' x (walked a' (x :: rest) w₁) (.error e) w' := by
  generalize ho : Except.error e = o at h
  induction h with
  | done => cases ho
  | next _ _ ih =>
    obtain ⟨a', x, rest, w₁, hsuffix, hcall⟩ := ih ho
    exact ⟨a', x, rest, w₁, hsuffix.trans (List.suffix_cons _ _), hcall⟩
  | failed hcall =>
    cases ho
    exact ⟨_, _, _, _, List.suffix_refl _, hcall⟩

theorem exists_leftFold {next : α → Value → World → World} (step : α → Value → Except Error α)
    (hwalked : ∀ a xs (w : World), w.Enlarges (walked a xs w))
    (hnext : ∀ a x (w : World), w.Enlarges (next a x w)) (a : α) (xs : List Value) (w : World) :
    ∃ w', w.Enlarges w' ∧ LeftFold walked (fun a x w o w' => o = step a x ∧ w' = next a x w) a xs w
      (xs.foldlM step a) w' := by
  induction xs generalizing a w with
  | nil => exact ⟨_, hwalked a [] w, .done⟩
  | cons x xs ih =>
    have hlarger := (hwalked a (x :: xs) w).trans (hnext a x _)
    rw [List.foldlM_cons]
    cases hstep : step a x with
    | ok a' =>
      obtain ⟨w', hrest, hfold⟩ := ih a' (next a x (walked a (x :: xs) w))
      exact ⟨w', hlarger.trans hrest, .next ⟨hstep.symm, rfl⟩ hfold⟩
    | error e => exact ⟨_, hlarger, .failed ⟨hstep.symm, rfl⟩⟩

namespace Throughout
variable {P Q : World → Prop}

theorem here (h : Throughout P walked call a xs w) : P w := by
  cases xs with
  | nil => exact h
  | cons x xs => exact h.1

theorem of_step (hQ : ∀ w, Q w → P w)
    (hstep : ∀ a x xs w, Q w → ∀ a' w', call a x (walked a (x :: xs) w) (.ok a') w' → Q w')
    (h : Q w) : Throughout P walked call a xs w := by
  induction xs generalizing a w with
  | nil => exact hQ w h
  | cons x xs ih => exact ⟨hQ w h, fun a' w' hcall => ih (hstep a x xs w h a' w' hcall)⟩

end Throughout

end

namespace Library

def foldNames : List String := ["foldl", "empty?", "head", "tail", "="]

def foldBindings (f acc : Value) (xs : List Value) : List (String × Value) :=
  [("f", f), ("acc", acc), ("xs", .list xs)]

/-- The world once `foldl` has found whether elements are left: there are the frame of its call and
that of the test. -/
def foldFrames (f acc : Value) (xs : List Value) (w : World) : World :=
  (w.newFrame (foldBindings f acc xs) globalFrame).newFrame [("xs", .list xs)] globalFrame

theorem enlarges_foldFrames (f acc : Value) (xs : List Value) (w : World) :
    w.Enlarges (foldFrames f acc xs w) :=
  (World.Enlarges.newFrame w _ globalFrame).trans (.newFrame _ _ globalFrame)

theorem hasFrame_foldFrames {w : World} (hw : globalFrame < w.nextFrame) (f acc : Value)
    (xs : List Value) :
    (foldFrames f acc xs w).HasFrame w.nextFrame (foldBindings f acc xs) globalFrame :=
  (World.hasFrame_newFrame hw).enlarge (.newFrame _ _ globalFrame)

section
variable {w₀ : World} (hopen : Opened w₀) {depth : Nat} (hdepth : depth + 3 < maxEvalDepth)
  {w w' : World} {f acc x : Value} {xs : List Value} {o : Except Error Value}
include hopen hdepth

section
variable {id : FrameId} (hframe : w.HasFrame id (foldBindings f acc (x :: xs)) globalFrame)
  (hnames : w.KeepsNames foldNames w₀)
include hframe hnames

theorem bigStep_foldl_call_iff : BigStep (.expr (depth + 1) id
    (call "f" [.symbol "acc", call "head" [.symbol "xs"]])) w o w' ↔
      CallEnds (depth + 1) f [acc, x] w o w' := by
  have hsees : w.Sees id foldNames w₀ := hframe.sees hnames rfl
  have hf : BigStep (.expr (depth + 2) id (.symbol "f")) w (.ok f) w :=
    .expr_symbol (by omega) (hframe.bound rfl)
  have hacc : BigStep (.expr (depth + 2) id (.symbol "acc")) w (.ok acc) w :=
    .expr_symbol (by omega) (hframe.bound rfl)
  have hhead : BigStep (.expr (depth + 2) id (call "head" [.symbol "xs"])) w (.ok x) w :=
    bigStep_apply_unary .head hdepth (hsees.unary hopen .head (by decide)) (hframe.bound rfl)
      fun _ => rfl
  rw [bigStep_expr_iff (by omega)]
  exact bigStep_application_iff_call rfl hf (.exprsCons hacc (.exprs_one hhead))

theorem bigStep_foldl_tail :
    BigStep (.expr (depth + 1) id (call "tail" [.symbol "xs"])) w (.ok (.list xs)) w := by
  have hsees : w.Sees id foldNames w₀ := hframe.sees hnames rfl
  exact bigStep_apply_unary .tail (by omega) (hsees.unary hopen .tail (by decide))
    (hframe.bound rfl) fun _ => rfl

end

variable (hw : globalFrame < w.nextFrame) (hnames : w.KeepsNames foldNames w₀)
include hw hnames

theorem bigStep_foldl_iff (xs : List Value) :
    BigStep (.expr depth w.nextFrame foldl.body)
        (w.newFrame (foldBindings f acc xs) globalFrame) o w' ↔
      BigStep (.expr depth w.nextFrame (if xs.isEmpty then .symbol "acc" else
          call "foldl" [.symbol "f", call "f" [.symbol "acc", call "head" [.symbol "xs"]],
            call "tail" [.symbol "xs"]]))
        (foldFrames f acc xs w) o w' := by
  have hframe : (w.newFrame (foldBindings f acc xs) globalFrame).HasFrame w.nextFrame
      (foldBindings f acc xs) globalFrame := World.hasFrame_newFrame hw
  have hkept := hnames.enlarge hw (.newFrame w (foldBindings f acc xs) globalFrame)
  have hxs : BigStep (.expr (depth + 2) w.nextFrame (.symbol "xs"))
      (w.newFrame (foldBindings f acc xs) globalFrame) (.ok (.list xs))
      (w.newFrame (foldBindings f acc xs) globalFrame) :=
    .expr_symbol (by omega) (hframe.bound rfl)
  have htest : BigStep (.expr (depth + 1) w.nextFrame (call "empty?" [.symbol "xs"]))
      (w.newFrame (foldBindings f acc xs) globalFrame) (.ok (.bool xs.isEmpty))
      (foldFrames f acc xs w) :=
    bigStep_emptyTest hopen (by decide) (by decide) (by omega) (hframe.sees hkept rfl)
      hframe.exists_parent hkept hxs
  rw [bigStep_expr_iff (by omega)]
  exact bigStep_ite_iff htest

theorem bigStep_foldl_nil_iff :
    BigStep (.expr depth w.nextFrame foldl.body)
        (w.newFrame (foldBindings f acc []) globalFrame) o w' ↔
      o = .ok acc ∧ w' = foldFrames f acc [] w := by
  rw [bigStep_foldl_iff hopen hdepth hw hnames]
  have hframe := hasFrame_foldFrames hw f acc []
  have hacc : BigStep (.expr depth w.nextFrame (.symbol "acc")) (foldFrames f acc [] w) (.ok acc)
      (foldFrames f acc [] w) := .expr_symbol (by omega) (hframe.bound rfl)
  exact hacc.ends_iff

/-- At an element `foldl` calls its procedure from one level deeper and then goes on with what is
left. The call must leave the frame and the names that `foldl` still goes by. -/
theorem bigStep_foldl_cons_iff
    (hcall : ∀ v w₁, CallEnds (depth + 1) f [acc, x] (foldFrames f acc (x :: xs) w) (.ok v) w₁ →
      w₁.KeepsNames foldNames w₀ ∧
        w₁.HasFrame w.nextFrame (foldBindings f acc (x :: xs)) globalFrame) :
    BigStep (.expr depth w.nextFrame foldl.body)
        (w.newFrame (foldBindings f acc (x :: xs)) globalFrame) o w' ↔
      (∃ e, o = .error e ∧
        CallEnds (depth + 1) f [acc, x] (foldFrames f acc (x :: xs) w) (.error e) w') ∨
      ∃ v w₁, CallEnds (depth + 1) f [acc, x] (foldFrames f acc (x :: xs) w) (.ok v) w₁ ∧
        BigStep (.expr depth w₁.nextFrame foldl.body)
          (w₁.newFrame (foldBindings f v xs) globalFrame) o w' := by
  rw [bigStep_foldl_iff hopen hdepth hw hnames]
  have hframe := hasFrame_foldFrames hw f acc (x :: xs)
  have hkept := hnames.enlarge hw (enlarges_foldFrames f acc (x :: xs) w)
  generalize foldFrames f acc (x :: xs) w = w₂ at *
  have hsees : w₂.Sees w.nextFrame foldNames w₀ := hframe.sees hkept rfl
  have hf : BigStep (.expr (depth + 1) w.nextFrame (.symbol "f")) w₂ (.ok f) w₂ :=
    .expr_symbol (by omega) (hframe.bound rfl)
  have hfoldl : BigStep (.expr (depth + 1) w.nextFrame (.symbol "foldl")) w₂
      (.ok (.closure (foldl.closure 2))) w₂ :=
    .expr_symbol (by omega) (hsees.entry hopen (i := 2) rfl (by decide))
  have hcalled {o : Except Error Value} {w' : World} :
      BigStep (.expr (depth + 1) w.nextFrame (call "f" [.symbol "acc", call "head" [.symbol "xs"]]))
        w₂ o w' ↔ CallEnds (depth + 1) f [acc, x] w₂ o w' :=
    bigStep_foldl_call_iff hopen hdepth hframe hkept
  have htail (v : Value) (w₁ : World) (hv : BigStep (.expr (depth + 1) w.nextFrame (call "f"
      [.symbol "acc", call "head" [.symbol "xs"]])) w₂ (.ok v) w₁) :
      BigStep (.exprs depth w.nextFrame [call "tail" [.symbol "xs"]]) w₁ (.ok [.list xs]) w₁ := by
    obtain ⟨hkept, hframe⟩ := hcall v w₁ (hcalled.1 hv)
    exact .exprs_one (bigStep_foldl_tail hopen hdepth hframe hkept)
  have hoperands {o : Except Error (List Value)} {w' : World} :
      BigStep (.exprs depth w.nextFrame [.symbol "f", call "f" [.symbol "acc",
          call "head" [.symbol "xs"]], call "tail" [.symbol "xs"]]) w₂ o w' ↔
        ∃ o', BigStep (.expr (depth + 1) w.nextFrame (call "f" [.symbol "acc",
          call "head" [.symbol "xs"]])) w₂ o' w' ∧ o = o'.map fun v => [f, v, .list xs] := by
    simp only [bigStep_exprs_cons_iff_of_ok hf, bigStep_exprs_cons_iff_of_rest htail]
    constructor
    · rintro ⟨_, ⟨o', h, rfl⟩, rfl⟩
      exact ⟨o', h, by cases o' <;> rfl⟩
    · rintro ⟨o', h, rfl⟩
      exact ⟨_, ⟨o', h, rfl⟩, by cases o' <;> rfl⟩
  have hbody {v : Value} {w₁ : World} : CallEnds depth (.closure (foldl.closure 2))
      [f, v, .list xs] w₁ o w' ↔ BigStep (.expr depth w₁.nextFrame foldl.body)
        (w₁.newFrame (foldBindings f v xs) globalFrame) o w' :=
    callEnds_closure_iff rfl
  have hform : Form.form? (.symbol "foldl") = none := rfl
  rw [bigStep_expr_iff (by omega)]
  refine (bigStep_application_iff_operand hform hfoldl hoperands).trans ?_
  simp only [hcalled, hbody]

end

/-- What makes a walk of `foldl` a fold: an invariant under which the procedure does at every
element what the call does. What has been made so far is passed on as a value. -/
structure FoldRule {α : Type} (w₀ : World) (depth : Nat) (f : Value) (value : α → Value)
    (call : α → Value → World → Except Error α → World → Prop)
    (Inv : α → List Value → World → Prop) : Prop where
  exists_global : ∀ {a xs w}, Inv a xs w → globalFrame < w.nextFrame
  names : ∀ {a xs w}, Inv a xs w → w.KeepsNames foldNames w₀
  call_iff : ∀ {a x xs w}, Inv a (x :: xs) w → ∀ {o w'},
    CallEnds (depth + 1) f [value a, x] (foldFrames f (value a) (x :: xs) w) o w' ↔
      ∃ o', call a x (foldFrames f (value a) (x :: xs) w) o' w' ∧ o = o'.map value
  next : ∀ {a x xs w}, Inv a (x :: xs) w → ∀ {a' w'},
    call a x (foldFrames f (value a) (x :: xs) w) (.ok a') w' → Inv a' xs w' ∧
      w'.HasFrame w.nextFrame (foldBindings f (value a) (x :: xs)) globalFrame

theorem FoldRule.bigStep_foldl_iff {α : Type} {w₀ : World} (hopen : Opened w₀) {depth : Nat}
    (hdepth : depth + 3 < maxEvalDepth) {f : Value} {value : α → Value}
    {call : α → Value → World → Except Error α → World → Prop}
    {Inv : α → List Value → World → Prop} (hrule : FoldRule w₀ depth f value call Inv) {a : α}
    {xs : List Value} {w w' : World} {o : Except Error Value} (h : Inv a xs w) :
    BigStep (.expr depth w.nextFrame foldl.body)
        (w.newFrame (foldBindings f (value a) xs) globalFrame) o w' ↔
      ∃ o', LeftFold (fun a => foldFrames f (value a)) call a xs w o' w' ∧ o = o'.map value := by
  have hw := hrule.exists_global h
  have hnames := hrule.names h
  induction xs generalizing a w with
  | nil =>
    simp only [bigStep_foldl_nil_iff hopen hdepth hw hnames, leftFold_nil_iff]
    constructor
    · rintro ⟨rfl, rfl⟩
      exact ⟨_, ⟨rfl, rfl⟩, rfl⟩
    · rintro ⟨_, ⟨rfl, rfl⟩, rfl⟩
      exact ⟨rfl, rfl⟩
  | cons x xs ih =>
    have hnext {v : Value} {w₁ : World} (hv : CallEnds (depth + 1) f [value a, x]
        (foldFrames f (value a) (x :: xs) w) (.ok v) w₁) : ∃ a', v = value a' ∧
          call a x (foldFrames f (value a) (x :: xs) w) (.ok a') w₁ := by
      obtain ⟨o', hcall, ho⟩ := (hrule.call_iff h).1 hv
      cases o' with
      | ok a' => exact ⟨a', Except.ok.inj ho, hcall⟩
      | error e => cases ho
    have hkept (v : Value) (w₁ : World) (hv : CallEnds (depth + 1) f [value a, x]
        (foldFrames f (value a) (x :: xs) w) (.ok v) w₁) : w₁.KeepsNames foldNames w₀ ∧
          w₁.HasFrame w.nextFrame [("f", f), ("acc", value a), ("xs", .list (x :: xs))]
            globalFrame := by
      obtain ⟨a', rfl, hcall⟩ := hnext hv
      obtain ⟨hinv, hframe⟩ := hrule.next h hcall
      exact ⟨hrule.names hinv, hframe⟩
    simp only [bigStep_foldl_cons_iff hopen hdepth hw hnames hkept, leftFold_cons_iff]
    constructor
    · rintro (⟨e, rfl, hcall⟩ | ⟨v, w₁, hv, hrest⟩)
      · obtain ⟨o', hcall, ho⟩ := (hrule.call_iff h).1 hcall
        cases o' with
        | ok a' => cases ho
        | error e' =>
          cases ho
          exact ⟨.error e, .inl ⟨e, rfl, hcall⟩, rfl⟩
      · obtain ⟨a', rfl, hcall⟩ := hnext hv
        obtain ⟨hinv, -⟩ := hrule.next h hcall
        obtain ⟨o', hfold, rfl⟩ := (ih hinv (hrule.exists_global hinv) (hrule.names hinv)).1 hrest
        exact ⟨o', .inr ⟨a', w₁, hcall, hfold⟩, rfl⟩
    · rintro ⟨o', (⟨e, rfl, hcall⟩ | ⟨a', w₁, hcall, hfold⟩), rfl⟩
      · exact .inl ⟨e, rfl, (hrule.call_iff h).2 ⟨_, hcall, rfl⟩⟩
      · obtain ⟨hinv, -⟩ := hrule.next h hcall
        refine .inr ⟨value a', w₁, (hrule.call_iff h).2 ⟨_, hcall, rfl⟩, ?_⟩
        exact (ih hinv (hrule.exists_global hinv) (hrule.names hinv)).2 ⟨o', hfold, rfl⟩

theorem apart_foldFrames {hidden : FrameId → Prop} {w : World} {vs xs : List Value}
    (h : w.Apart hidden vs) (hxs : xs ⊆ vs) (f acc : Value) :
    (foldFrames f acc xs w).Apart (w.hideNext hidden) vs := by
  have hframe := h.newFrame (foldBindings f acc xs) globalFrame
  refine hframe.bypass (.newFrame hframe.hides hframe.global fun name v hmem => ?_)
  obtain ⟨-, rfl⟩ := Prod.mk.inj (List.mem_singleton.1 hmem)
  exact Value.Within.list_iff.2 fun x hx => hframe.clear x (hxs hx)

/-- The procedure and the values of the walk do not lead to the frames that `foldl` made. -/
theorem foldRule_call {w₀ : World} {depth : Nat} {f : Value} :
    FoldRule w₀ depth f id (fun acc x => CallEnds (depth + 1) f [acc, x]) fun acc xs w =>
      (∃ hidden, w.Apart hidden (f :: acc :: xs)) ∧
        Throughout (·.KeepsNames foldNames w₀) (foldFrames f)
          (fun acc x => CallEnds (depth + 1) f [acc, x]) acc xs w where
  exists_global := by
    rintro acc xs w ⟨⟨hidden, hapart⟩, -⟩
    exact hapart.global.1
  names := fun h => h.2.here
  call_iff := by
    intro acc x xs w h o w'
    constructor
    · intro hcall
      exact ⟨o, hcall, by cases o <;> rfl⟩
    · rintro ⟨o', hcall, rfl⟩
      cases o' <;> exact hcall
  next := by
    rintro acc x xs w ⟨⟨hidden, hapart⟩, hnames⟩ acc' w' hcall
    have hxs : x :: xs ⊆ f :: acc :: x :: xs := by grind
    have hframes := apart_foldFrames hapart hxs f acc
    obtain ⟨hafter, hkept⟩ := hframes.call hcall (.head _) (by simp)
    have hframe := hasFrame_foldFrames hapart.global.1 f acc (x :: xs)
    exact ⟨⟨⟨_, hafter.mono (by grind)⟩, hnames.2 acc' w' hcall⟩,
      hframe.of_frames_eq (hkept _ (.inr rfl))⟩

end Library

/-- Applying `foldl` of a standard session to a procedure, a value and a list calls the procedure
with what has been made so far and every element from left to right, each time from one level
deeper, in the world that the call before left. The last result is the value of the application; the
first error is its error, and the call that failed is the last one. The list may be as long as it
will. -/
theorem foldl_application {w₀ w w₁ : World} (hopen : Opened w₀) {depth : Nat}
    (hdepth : depth + 3 < maxEvalDepth) {frame : FrameId} {head f acc : Value}
    {operands xs : List Value} (hready : Ready w frame (.list (head :: operands)))
    (happlies : AppliesNamed w₀ "foldl" depth frame head operands w [f, acc, .list xs] w₁)
    (hnames : Throughout (·.KeepsNames foldNames w₀) (foldFrames f)
      (fun acc x => CallEnds (depth + 1) f [acc, x]) acc xs w₁) :
    (∀ o w', EvalEnds depth frame (.list (head :: operands)) w o w' ↔
      LeftFold (foldFrames f) (fun acc x => CallEnds (depth + 1) f [acc, x]) acc xs w₁ o w') ∧
    ∀ e w', EvalEnds depth frame (.list (head :: operands)) w (.error e) w' →
      ∃ acc' x rest w₂, (x :: rest) <:+ xs ∧
        CallEnds (depth + 1) f [acc', x] (foldFrames f acc' (x :: rest) w₂) (.error e) w' := by
  replace happlies := happlies.entry hopen (i := 2) rfl
  have hapart := (hready.applies happlies).items xs (by simp)
  have hstate : w₁.Apart (fun _ => False) (f :: acc :: xs) := hapart.mono (by grind)
  have hfold (o : Except Error Value) (w' : World) :
      EvalEnds depth frame (.list (head :: operands)) w o w' ↔
        LeftFold (foldFrames f) (fun acc x => CallEnds (depth + 1) f [acc, x]) acc xs w₁ o w' := by
    refine (happlies.evalEnds_iff (by omega) rfl).trans
      ((foldRule_call.bigStep_foldl_iff hopen hdepth ⟨⟨_, hstate⟩, hnames⟩).trans ?_)
    constructor
    · rintro ⟨o', h, rfl⟩
      cases o' <;> exact h
    · intro h
      exact ⟨o, h, by cases o <;> rfl⟩
  exact ⟨hfold, fun e w' h => ((hfold _ w').1 h).error_of_call⟩

/-- A fold with `+` over a list that holds code: it adds the first element, fails at the code, which
is not evaluated, and does not come to the last element. -/
theorem foldl_application_code : ∃ w w', Opened w ∧
    EvalEnds 0 globalFrame (call "foldl" [.symbol "+", .int 1,
      (Value.list [.int 2, .list [.symbol "f"], .string "x"]).quoted]) w
      (.error (.type (.addition .number .list))) w' := by
  have hopen : Opened (installAll entries (start (.standard "") ⟨[], ""⟩ .empty)) :=
    opened_iff.2 ⟨_, _, _, rfl⟩
  generalize installAll entries _ = w at hopen
  have hready : Ready w globalFrame (call "foldl" [.symbol "+", .int 1,
      (Value.list [.int 2, .list [.symbol "f"], .string "x"]).quoted]) :=
    hopen.ready (.refl w) (by simp [call, Value.quoted, Value.int, Value.Within.list_iff,
      Value.Within.symbol, Value.Within.number, Value.Within.string])
  have happlies : AppliesNamed w "foldl" 0 globalFrame (.symbol "foldl") [.symbol "+", .int 1,
      (Value.list [.int 2, .list [.symbol "f"], .string "x"]).quoted] w
      [.builtin (.binary .add), .int 1, .list [.int 2, .list [.symbol "f"], .string "x"]] w :=
    hopen.appliesNamed (i := 2) rfl (by decide) rfl
      (.exprsCons (.expr_symbol (by decide) (hopen.lookup?_binary .add))
        (.exprsCons (.expr_int (by decide) 1) (.exprs_one (.within (by decide) .quote))))
  have hsum (w : World) : CallEnds 1 (.builtin (.binary .add)) [.int 1, .int 2] w
      (.ok (.int 3)) w := .builtin_pure fun _ => .binary (by decide) fun _ => rfl
  have hfails (w : World) : CallEnds 1 (.builtin (.binary .add)) [.int 3, .list [.symbol "f"]] w
      (.error (.type (.addition .number .list))) w :=
    .builtin_pure fun _ => .binary (by decide) fun _ => rfl
  have hnames : w.KeepsNames foldNames w := fun _ _ => rfl
  refine ⟨w, _, hopen, ((foldl_application hopen (by decide) hready happlies
    ⟨hnames, fun a' w' hcall => ?_⟩).1 _ _).2 (.next (hsum _) (.failed (hfails _)))⟩
  obtain ⟨ha, rfl⟩ := hcall.unique (hsum _)
  cases ha
  exact ⟨hnames.enlarge hready.frame (enlarges_foldFrames _ _ _ w),
    fun _ _ hcall => by cases (hcall.unique (hfails _)).1⟩

end Lisplet
