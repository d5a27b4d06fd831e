import Lisplet.Proofs.LeftFold

/-! The list functions of the library: `last`, which walks by itself, and those that fold with a
procedure made in the frame of their call. That frame is hidden from all code that the functions do
not bring with them, and so is the one in which such a procedure runs. -/
namespace Lisplet
open Library Session

namespace Library

def listNames : List String := foldNames ++ ["++", "cons", "append", "last"]

theorem bigStep_foldWith_iff {w₀ : World} (hopen : Opened w₀) {depth : Nat}
    (hdepth : depth + 2 < maxEvalDepth) {w w' : World} {o : Except Error Value} {id : FrameId}
    {bindings : List (String × Value)} (hframe : w.HasFrame id bindings globalFrame)
    (hsees : w.Sees id listNames w₀) {xs : List Value}
    (hxs : (Std.TreeMap.ofList bindings)["xs"]? = some (.list xs)) {name : String}
    (hname : name ≠ "x") {body start a : Value}
    (hstart : ∀ w, BigStep (.expr (depth + 1) id start) w (.ok a) w) :
    BigStep (.expr depth id (foldWith name body start)) w o w' ↔
      BigStep (.expr depth w.nextFrame foldl.body) (w.newClosure.newFrame
        (foldBindings (w.closure [name, "x"] body id none) a xs) globalFrame) o w' := by
  have hdistinct : [name, "x"].Nodup := by simpa using hname
  have hparams := Form.params_map_symbol hdistinct
  have hlambda : BigStep (.expr (depth + 1) id
      (SpecialForm.lambda.applied [.list [.symbol name, .symbol "x"], body])) w
      (.ok (w.closure [name, "x"] body id none)) w.newClosure :=
    .within (by omega) (.lambda hparams)
  have hlist : BigStep (.expr (depth + 1) id (.symbol "xs")) w.newClosure (.ok (.list xs))
      w.newClosure :=
    .expr_symbol (by omega) ((hframe.enlarge (.newClosure w)).bound hxs)
  have hargs : BigStep (.exprs depth id [SpecialForm.lambda.applied
      [.list [.symbol name, .symbol "x"], body], start, .symbol "xs"]) w
      (.ok [w.closure [name, "x"] body id none, a, .list xs]) w.newClosure :=
    .exprsCons hlambda (.exprsCons (hstart _) (.exprs_one hlist))
  exact bigStep_apply_closure_iff (by omega) rfl (hsees.entry hopen (i := 2) rfl (by decide))
    hargs rfl

section
variable {w₀ : World} (hopen : Opened w₀) {depth : Nat} (hdepth : depth + 3 < maxEvalDepth)
include hopen hdepth

theorem exists_bigStep_foldl {α : Type} {value : α → Value} {step : α → Value → Except Error α}
    {id n : Nat} {bindings : List (String × Value)} {name : String} {body : Value}
    (hstep : ∀ {w : World}, w.KeepsNames listNames w₀ → w.HasFrame id bindings globalFrame →
      ∀ a x, BigStep (.expr (depth + 1) w.nextFrame body)
        (w.newFrame [(name, value a), ("x", x)] id) ((step a x).map value)
        (w.newFrame [(name, value a), ("x", x)] id)) {w : World}
    (hnames : w.KeepsNames listNames w₀) (hframe : w.HasFrame id bindings globalFrame) (a : α)
    (xs : List Value) :
    ∃ w', w.Enlarges w' ∧ BigStep (.expr depth w.nextFrame foldl.body)
      (w.newFrame (foldBindings (.closure ⟨n, [name, "x"], body, id, none⟩) (value a) xs)
        globalFrame) ((xs.foldlM step a).map value) w' := by
  generalize hf : Value.closure ⟨n, [name, "x"], body, id, none⟩ = f
  have hrule : FoldRule w₀ depth f value
      (fun a x w o w' => o = step a x ∧ w' = w.newFrame [(name, value a), ("x", x)] id)
      fun _ _ w => w.KeepsNames listNames w₀ ∧ w.HasFrame id bindings globalFrame := by
    refine ⟨fun h => h.2.exists_parent, fun h => h.1.mono (by decide), ?_, ?_⟩
    · intro a x xs w h o w'
      have hlarger := enlarges_foldFrames f (value a) (x :: xs) w
      have hends := hstep (h.1.enlarge h.2.exists_parent hlarger) (h.2.enlarge hlarger) a x
      subst hf
      rw [callEnds_closure_iff rfl]
      refine hends.ends_iff.trans ?_
      constructor
      · rintro ⟨rfl, rfl⟩
        exact ⟨_, ⟨rfl, rfl⟩, rfl⟩
      · rintro ⟨_, ⟨rfl, rfl⟩, rfl⟩
        exact ⟨rfl, rfl⟩
    · rintro a x xs w h a' w' ⟨-, rfl⟩
      have hlarger := (enlarges_foldFrames f (value a) (x :: xs) w).trans
        (.newFrame _ [(name, value a), ("x", x)] id)
      have hframe := hasFrame_foldFrames h.2.exists_parent f (value a) (x :: xs)
      exact ⟨⟨h.1.enlarge h.2.exists_parent hlarger, h.2.enlarge hlarger⟩,
        hframe.enlarge (.newFrame _ _ id)⟩
  obtain ⟨w', hlarger, hfold⟩ := exists_leftFold step (fun a => enlarges_foldFrames f (value a))
    (fun a x w => World.Enlarges.newFrame w [(name, value a), ("x", x)] id) a xs w
  exact ⟨w', hlarger, (hrule.bigStep_foldl_iff hopen hdepth ⟨hnames, hframe⟩).2 ⟨_, hfold, rfl⟩⟩

variable {w : World} (hw : globalFrame < w.nextFrame) (hnames : w.KeepsNames listNames w₀)
include hw hnames

theorem exists_bigStep_foldWith {α : Type} (value : α → Value) (step : α → Value → Except Error α)
    {name : String} (hname : name ≠ "x") {body start : Value} {a : α}
    (hstart : ∀ id w, BigStep (.expr (depth + 1) id start) w (.ok (value a)) w) {xs : List Value}
    (hstep : ∀ {id : FrameId} {w : World}, w.KeepsNames listNames w₀ →
      w.HasFrame id [("xs", .list xs)] globalFrame →
      ∀ a x, BigStep (.expr (depth + 1) w.nextFrame body)
        (w.newFrame [(name, value a), ("x", x)] id) ((step a x).map value)
        (w.newFrame [(name, value a), ("x", x)] id)) :
    ∃ w', w.Enlarges w' ∧ BigStep (.expr depth w.nextFrame (foldWith name body start))
      (w.newFrame [("xs", .list xs)] globalFrame) ((xs.foldlM step a).map value) w' := by
  have hcall : w.Enlarges (w.newFrame [("xs", .list xs)] globalFrame) := .newFrame w _ _
  have hframe : (w.newFrame [("xs", .list xs)] globalFrame).HasFrame w.nextFrame
      [("xs", .list xs)] globalFrame := World.hasFrame_newFrame hw
  have hkept := hnames.enlarge hw hcall
  have hmade := World.Enlarges.newClosure (w.newFrame [("xs", .list xs)] globalFrame)
  obtain ⟨w', hlarger, hends⟩ := exists_bigStep_foldl hopen hdepth hstep
    (hkept.enlarge hframe.exists_parent hmade) (hframe.enlarge hmade) a xs
  exact ⟨w', (hcall.trans hmade).trans hlarger, (bigStep_foldWith_iff hopen (by omega) hframe
    (hframe.sees hkept rfl) rfl hname (hstart _)).2 hends⟩

end

def counted (n : Nat) : Except Error Value :=
  if n ≤ Int64.maxValue.toInt then .ok (.int (Int64.ofNat n))
  else .error (.ofArithmetic (.overflow .addition))

theorem foldlM_successor {n : Int64} (hn : 0 ≤ n.toInt) (xs : List Value) :
    xs.foldlM (fun n _ => successor n) n =
      if n.toInt + xs.length ≤ Int64.maxValue.toInt then .ok (Int64.ofInt (n.toInt + xs.length))
      else .error (.ofArithmetic (.overflow .addition)) := by
  induction xs generalizing n with
  | nil =>
    rw [if_pos (by simpa using n.toInt_le)]
    simp [pure, Except.pure]
  | cons x xs ih =>
    rw [List.foldlM_cons, successor, List.length_cons]
    by_cases hmax : n.toInt + 1 ≤ Int64.maxValue.toInt
    · have hmin : Int64.minValue.toInt ≤ n.toInt + 1 :=
        Int.le_trans (by decide) (Int.add_nonneg hn Int.one_nonneg)
      have hnext := InRange.toInt_ofInt ⟨hmin, hmax⟩
      have hsum : (Int64.ofInt (n.toInt + 1)).toInt + xs.length = n.toInt + ↑(xs.length + 1) := by
        omega
      rw [if_pos hmax, ← hsum]
      exact ih (by omega)
    · rw [if_neg hmax, if_neg (by omega)]
      rfl

theorem foldlM_prepend (xs us : List Value) :
    xs.foldlM (fun us x => (Except.ok (x :: us) : Except Error (List Value))) us =
      .ok (xs.reverse ++ us) := by
  induction xs generalizing us with
  | nil => rfl
  | cons x xs ih =>
    rw [List.reverse_cons, List.append_assoc]
    exact ih (x :: us)

section
variable {w₀ : World} (hopen : Opened w₀) {depth : Nat} (hdepth : depth + 3 < maxEvalDepth)
  {w : World} (hw : globalFrame < w.nextFrame) (hnames : w.KeepsNames listNames w₀)
include hopen hdepth hw hnames

theorem exists_bigStep_length (xs : List Value) :
    ∃ w', w.Enlarges w' ∧ BigStep (.expr depth w.nextFrame length.body)
      (w.newFrame [("xs", .list xs)] globalFrame) (counted xs.length) w' := by
  have hzero (id : FrameId) (w : World) :
      BigStep (.expr (depth + 1) id (.int 0)) w (.ok (.int 0)) w := .expr_int (by omega) 0
  have hstep {id : FrameId} {w : World} (hnames : w.KeepsNames listNames w₀)
      (hframe : w.HasFrame id [("xs", .list xs)] globalFrame) (n : Int64) (x : Value) :
      BigStep (.expr (depth + 1) w.nextFrame counting)
        (w.newFrame [("n", .int n), ("x", x)] id) ((successor n).map .int)
        (w.newFrame [("n", .int n), ("x", x)] id) := by
    obtain ⟨hinner, houter, hkept⟩ := hnames.inside hframe [("n", .int n), ("x", x)]
    have hsees := hinner.sees (houter.sees hkept rfl) rfl
    exact bigStep_apply_unary .increment (by omega) (hsees.unary hopen .increment (by decide))
      (hinner.bound rfl) fun w => increment_ends n w
  have hends := exists_bigStep_foldWith hopen hdepth hw hnames Value.int (fun n _ => successor n)
    (by decide) hzero hstep
  have hcount : (xs.foldlM (fun n _ => successor n) 0).map Value.int = counted xs.length := by
    have hzero : (0 : Int64).toInt = 0 := rfl
    rw [foldlM_successor (by decide), hzero, Int.zero_add, counted]
    split <;> rfl
  rwa [hcount] at hends

theorem exists_bigStep_reverse (xs : List Value) :
    ∃ w', w.Enlarges w' ∧ BigStep (.expr depth w.nextFrame reverse.body)
      (w.newFrame [("xs", .list xs)] globalFrame) (.ok (.list xs.reverse)) w' := by
  have hnil (id : FrameId) (w : World) :
      BigStep (.expr (depth + 1) id (.quoted .nil)) w (.ok .nil) w := .within (by omega) .quote
  have hstep {id : FrameId} {w : World} (hnames : w.KeepsNames listNames w₀)
      (hframe : w.HasFrame id [("xs", .list xs)] globalFrame) (us : List Value) (x : Value) :
      BigStep (.expr (depth + 1) w.nextFrame prepending)
        (w.newFrame [("acc", .list us), ("x", x)] id) (.ok (.list (x :: us)))
        (w.newFrame [("acc", .list us), ("x", x)] id) := by
    obtain ⟨hinner, houter, hkept⟩ := hnames.inside hframe [("acc", .list us), ("x", x)]
    have hsees := hinner.sees (houter.sees hkept rfl) rfl
    exact bigStep_apply_binary .cons nofun (by omega) (hsees.binary hopen .cons (by decide))
      (hinner.bound rfl) (hinner.bound rfl) fun _ _ => rfl
  have hends := exists_bigStep_foldWith hopen hdepth hw hnames Value.list
    (fun us x => .ok (x :: us)) (by decide) hnil hstep
  rw [foldlM_prepend, List.append_nil] at hends
  exact hends

end

/-- The world once `last` has found whether an element comes after the first one. -/
def lastFrames (xs : List Value) (w : World) : World :=
  (w.newFrame [("xs", .list xs)] globalFrame).newFrame [("xs", .list xs.tail)] globalFrame

theorem enlarges_lastFrames (xs : List Value) (w : World) : w.Enlarges (lastFrames xs w) :=
  (World.Enlarges.newFrame w _ globalFrame).trans (.newFrame _ _ globalFrame)

section
variable {w₀ : World} (hopen : Opened w₀) {depth : Nat} {w w' : World} {xs : List Value}
  {o : Except Error Value}
include hopen

theorem bigStep_last_rest (hdepth : depth + 1 < maxEvalDepth) {id : FrameId}
    (hframe : w.HasFrame id [("xs", .list xs)] globalFrame) (hnames : w.KeepsNames listNames w₀) :
    BigStep (.expr depth id (call "tail" [.symbol "xs"])) w (.ok (.list xs.tail)) w := by
  have hsees : w.Sees id listNames w₀ := hframe.sees hnames rfl
  exact bigStep_apply_unary .tail hdepth (hsees.unary hopen .tail (by decide))
    (hframe.bound rfl) fun _ => rfl

variable (hdepth : depth + 3 < maxEvalDepth)
include hdepth

variable (hw : globalFrame < w.nextFrame) (hnames : w.KeepsNames listNames w₀)
include hw hnames

theorem bigStep_last_iff :
    BigStep (.expr depth w.nextFrame last.body) (w.newFrame [("xs", .list xs)] globalFrame) o w' ↔
      BigStep (.expr depth w.nextFrame (if xs.tail.isEmpty then call "head" [.symbol "xs"] else
        call "last" [call "tail" [.symbol "xs"]])) (lastFrames xs w) o w' := by
  have hframe : (w.newFrame [("xs", .list xs)] globalFrame).HasFrame w.nextFrame
      [("xs", .list xs)] globalFrame := World.hasFrame_newFrame hw
  have hkept := hnames.enlarge hw (.newFrame w [("xs", .list xs)] globalFrame)
  have hrest := bigStep_last_rest hopen hdepth hframe hkept
  have htest : BigStep (.expr (depth + 1) w.nextFrame (call "empty?" [call "tail" [.symbol "xs"]]))
      (w.newFrame [("xs", .list xs)] globalFrame) (.ok (.bool xs.tail.isEmpty)) (lastFrames xs w) :=
    bigStep_emptyTest hopen (by decide) (by decide) (by omega) (hframe.sees hkept rfl)
      hframe.exists_parent hkept hrest
  rw [bigStep_expr_iff (by omega)]
  exact bigStep_ite_iff htest

theorem bigStep_last_head (hxs : xs.tail.isEmpty) :
    BigStep (.expr depth w.nextFrame last.body) (w.newFrame [("xs", .list xs)] globalFrame)
      (.ok (xs.headD (.string "err-empty-list"))) (lastFrames xs w) := by
  have hframe : (lastFrames xs w).HasFrame w.nextFrame [("xs", .list xs)] globalFrame :=
    (World.hasFrame_newFrame hw).enlarge (.newFrame _ _ globalFrame)
  have hsees : (lastFrames xs w).Sees w.nextFrame listNames w₀ :=
    hframe.sees (hnames.enlarge hw (enlarges_lastFrames xs w)) rfl
  rw [bigStep_last_iff hopen hdepth hw hnames, if_pos hxs]
  exact bigStep_apply_unary .head (by omega) (hsees.unary hopen .head (by decide))
    (hframe.bound rfl) fun _ => rfl

theorem bigStep_last_tail_iff (hxs : ¬ xs.tail.isEmpty) :
    BigStep (.expr depth w.nextFrame last.body) (w.newFrame [("xs", .list xs)] globalFrame) o w' ↔
      BigStep (.expr depth (lastFrames xs w).nextFrame last.body)
        ((lastFrames xs w).newFrame [("xs", .list xs.tail)] globalFrame) o w' := by
  have hframe : (lastFrames xs w).HasFrame w.nextFrame [("xs", .list xs)] globalFrame :=
    (World.hasFrame_newFrame hw).enlarge (.newFrame _ _ globalFrame)
  have hkept := hnames.enlarge hw (enlarges_lastFrames xs w)
  have hsees : (lastFrames xs w).Sees w.nextFrame listNames w₀ := hframe.sees hkept rfl
  have hrest := bigStep_last_rest hopen (Nat.lt_of_succ_lt hdepth) hframe hkept
  rw [bigStep_last_iff hopen hdepth hw hnames, if_neg hxs]
  exact bigStep_apply_closure_iff (by omega) rfl (hsees.entry hopen (i := 7) rfl (by decide))
    (.exprs_one hrest) rfl

omit hw hnames in
theorem exists_bigStep_last (xs : List Value) {w : World} (hw : globalFrame < w.nextFrame)
    (hnames : w.KeepsNames listNames w₀) :
    ∃ w', w.Enlarges w' ∧ BigStep (.expr depth w.nextFrame last.body)
      (w.newFrame [("xs", .list xs)] globalFrame)
      (.ok (xs.getLastD (.string "err-empty-list"))) w' := by
  induction xs generalizing w with
  | nil => exact ⟨_, enlarges_lastFrames [] w, bigStep_last_head hopen hdepth hw hnames rfl⟩
  | cons x xs ih =>
    have hlarger := enlarges_lastFrames (x :: xs) w
    cases xs with
    | nil => exact ⟨_, hlarger, bigStep_last_head hopen hdepth hw hnames rfl⟩
    | cons y ys =>
      obtain ⟨w', hrest, hends⟩ := ih (Nat.lt_of_lt_of_le hw hlarger.le)
        (hnames.enlarge hw hlarger)
      have hmore : ¬ (x :: y :: ys).tail.isEmpty := Bool.false_ne_true
      exact ⟨w', hlarger.trans hrest, (bigStep_last_tail_iff hopen hdepth hw hnames hmore).2 hends⟩

end

end Library

end Lisplet
