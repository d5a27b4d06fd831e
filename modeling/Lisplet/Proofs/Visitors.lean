import Lisplet.Proofs.ListFunctions

/-! `map` and `filter`, which call a procedure on the elements of a list. They fold with a procedure
of their own that makes that call; it runs in a frame inside the one of their call, and the
procedure they are given leaves both alone. -/
namespace Lisplet
open Library Session

/-- The functions of the library that call a procedure on every element of a list. -/
inductive Library.Visitor where
  | mapping
  | filtering

namespace Library.Visitor

def entry : Visitor → Entry
  | mapping => map
  | filtering => filter

def parameter : Visitor → String
  | mapping => "f"
  | filtering => "keep?"

def body : Visitor → Value
  | mapping => collecting
  | filtering => selecting

def made (visitor : Visitor) (seen : List (Value × Value)) : Value :=
  match visitor with
  | mapping => .list (seen.map Prod.snd)
  | filtering => .list ((seen.filter (·.2.isTruthy)).map Prod.fst)

section
variable (visitor : Visitor) (depth : Nat) (f : Value) (xs : List Value) (w : World)

def bindings : List (String × Value) := [(visitor.parameter, f), ("xs", .list xs)]

def here (seen : List (Value × Value)) (x : Value) : List (String × Value) :=
  [("acc", visitor.made seen), ("x", x)]

def folding : Value := w.closure ["acc", "x"] visitor.body w.nextFrame none

def begun : World := (w.newFrame (visitor.bindings f xs) globalFrame).newClosure

def walked (seen : List (Value × Value)) : List Value → World → World :=
  foldFrames (visitor.folding w) (visitor.made seen)

/-- At an element the procedure is called with it, and what it yields is taken down. -/
def visit (seen : List (Value × Value)) (x : Value) (w₁ : World)
    (o : Except Error (List (Value × Value))) (w' : World) : Prop :=
  ∃ o', CallEnds (depth + 2) f [x] (w₁.newFrame (visitor.here seen x) w.nextFrame) o' w' ∧
    o = o'.map fun v => seen ++ [(x, v)]

/-- The elements are visited from left to right, each in the world that the visit before left. An
error ends the visits. -/
def Visits (o : Except Error (List (Value × Value))) (w' : World) : Prop :=
  LeftFold (visitor.walked w) (visitor.visit depth f w) [] xs (visitor.begun f xs w) o w'

def KeepsNames (w₀ : World) : Prop :=
  Throughout (·.KeepsNames listNames w₀) (visitor.walked w) (visitor.visit depth f w) [] xs
    (visitor.begun f xs w)

end

/-- The frame of a visit inside that of the call, and the names that the list functions go by. -/
structure Stands (visitor : Visitor) (w₀ : World) (f : Value) (xs : List Value)
    (seen : List (Value × Value)) (x : Value) (outer inner : FrameId) (w : World) : Prop where
  inner : w.HasFrame inner (visitor.here seen x) outer
  outer : w.HasFrame outer (visitor.bindings f xs) globalFrame
  names : w.KeepsNames listNames w₀

theorem Stands.sees {visitor : Visitor} {w₀ w : World} {f x : Value} {xs : List Value}
    {seen : List (Value × Value)} {outer inner : FrameId}
    (h : visitor.Stands w₀ f xs seen x outer inner w) : w.Sees inner listNames w₀ :=
  h.inner.sees (h.outer.sees h.names (by cases visitor <;> rfl)) rfl

section
variable {w₀ : World} (hopen : Opened w₀) {depth : Nat} (hdepth : depth + 3 < maxEvalDepth)
  {f x : Value} {seen : List (Value × Value)} {xs : List Value} {w w' : World}
  {outer inner : FrameId} {o : Except Error Value}
include hdepth

theorem bigStep_parameter_iff {visitor : Visitor}
    (h : visitor.Stands w₀ f xs seen x outer inner w) :
    BigStep (.expr (depth + 2) inner (call visitor.parameter [.symbol "x"])) w o w' ↔
      CallEnds (depth + 2) f [x] w o w' := by
  have hform : Form.form? (.symbol visitor.parameter) = none := by cases visitor <;> rfl
  have hprocedure : w.store.lookup? inner visitor.parameter = some f := by
    have houter : w.store.lookup? outer visitor.parameter = some f :=
      h.outer.bound (by cases visitor <;> rfl)
    rw [h.inner.lookup?_eq, houter]
    cases visitor <;> rfl
  rw [bigStep_expr_iff (by omega)]
  exact bigStep_application_iff_call hform (.expr_symbol hdepth hprocedure)
    (.exprs_one (.expr_symbol hdepth (h.inner.bound rfl)))

include hopen

theorem bigStep_collecting_iff (h : mapping.Stands w₀ f xs seen x outer inner w)
    (hcall : ∀ v w', CallEnds (depth + 2) f [x] w (.ok v) w' →
      mapping.Stands w₀ f xs seen x outer inner w') :
    BigStep (.expr (depth + 1) inner collecting) w o w' ↔
      ∃ o', CallEnds (depth + 2) f [x] w o' w' ∧
        o = o'.map fun v => mapping.made (seen ++ [(x, v)]) := by
  have hform : Form.form? (.symbol "append") = none := rfl
  have happend : BigStep (.expr (depth + 2) inner (.symbol "append")) w
      (.ok (.builtin (.binary .append))) w :=
    .expr_symbol (by omega) (h.sees.binary hopen .append (by decide))
  have hcalled {o : Except Error Value} {w' : World} :
      BigStep (.expr (depth + 2) inner (call "f" [.symbol "x"])) w o w' ↔
        CallEnds (depth + 2) f [x] w o w' := bigStep_parameter_iff hdepth h
  have hacc (v : Value) (w₁ : World)
      (hv : BigStep (.expr (depth + 2) inner (call "f" [.symbol "x"])) w (.ok v) w₁) :
      BigStep (.exprs (depth + 1) inner [.symbol "acc"]) w₁ (.ok [mapping.made seen]) w₁ :=
    .exprs_one (.expr_symbol (by omega) ((hcall v w₁ (hcalled.1 hv)).inner.bound rfl))
  rw [bigStep_expr_iff (by omega)]
  refine (bigStep_application_iff_operand hform happend
    (bigStep_exprs_cons_iff_of_rest hacc)).trans ?_
  simp only [hcalled]
  apply exists_map_iff (CallEnds (depth + 2) f [x] w)
  intro v w₁ hv o w'
  have hmade : mapping.made (seen ++ [(x, v)]) = .list (seen.map Prod.snd ++ [v]) := by
    simp [made]
  have hends : CallEnds (depth + 1) (.builtin (.binary .append)) [v, mapping.made seen] w₁
      (.ok (mapping.made (seen ++ [(x, v)]))) w₁ := by
    rw [hmade]
    exact .builtin_pure fun _ => .binary nofun fun _ => rfl
  exact hends.ends_iff

theorem bigStep_selecting_iff (h : filtering.Stands w₀ f xs seen x outer inner w)
    (hcall : ∀ v w', CallEnds (depth + 2) f [x] w (.ok v) w' →
      filtering.Stands w₀ f xs seen x outer inner w') :
    BigStep (.expr (depth + 1) inner selecting) w o w' ↔
      ∃ o', CallEnds (depth + 2) f [x] w o' w' ∧
        o = o'.map fun v => filtering.made (seen ++ [(x, v)]) := by
  have hcalled {o : Except Error Value} {w' : World} :
      BigStep (.expr (depth + 2) inner (call "keep?" [.symbol "x"])) w o w' ↔
        CallEnds (depth + 2) f [x] w o w' := bigStep_parameter_iff hdepth h
  rw [bigStep_expr_iff (by omega)]
  refine bigStep_ite_iff_test.trans ?_
  simp only [hcalled]
  apply exists_map_iff (CallEnds (depth + 2) f [x] w)
  intro v w₁ hv o w'
  have hafter := hcall v w₁ hv
  by_cases htrue : v.isTruthy
  · have hmade : filtering.made (seen ++ [(x, v)]) =
        .list ((seen.filter (·.2.isTruthy)).map Prod.fst ++ [x]) := by
      simp [made, htrue]
    have hends : BigStep (.expr (depth + 1) inner (call "append" [.symbol "x", .symbol "acc"])) w₁
        (.ok (filtering.made (seen ++ [(x, v)]))) w₁ := by
      rw [hmade]
      exact bigStep_apply_binary .append nofun (by omega) (hafter.sees.binary hopen .append
        (by decide)) (hafter.inner.bound rfl) (hafter.inner.bound rfl) fun _ _ => rfl
    rw [if_pos htrue]
    exact hends.ends_iff
  · have hmade : filtering.made (seen ++ [(x, v)]) = filtering.made seen := by
      simp [made, htrue]
    have hends : BigStep (.expr (depth + 1) inner (.symbol "acc")) w₁
        (.ok (filtering.made (seen ++ [(x, v)]))) w₁ := by
      rw [hmade]
      exact .expr_symbol (by omega) (hafter.inner.bound rfl)
    rw [if_neg htrue]
    exact hends.ends_iff

theorem bigStep_body_iff {visitor : Visitor} (h : visitor.Stands w₀ f xs seen x outer inner w)
    (hcall : ∀ v w', CallEnds (depth + 2) f [x] w (.ok v) w' →
      visitor.Stands w₀ f xs seen x outer inner w') :
    BigStep (.expr (depth + 1) inner visitor.body) w o w' ↔
      ∃ o', CallEnds (depth + 2) f [x] w o' w' ∧
        o = o'.map fun v => visitor.made (seen ++ [(x, v)]) := by
  cases visitor with
  | mapping => exact bigStep_collecting_iff hopen hdepth h hcall
  | filtering => exact bigStep_selecting_iff hopen hdepth h hcall

end

/-- What holds in all worlds from which the visits go on: neither the procedure nor the elements
that are left lead to the frame of the call. -/
structure Goes (visitor : Visitor) (w₀ : World) (depth : Nat) (f : Value) (xs : List Value)
    (w : World) (seen : List (Value × Value)) (rest : List Value) (w₁ : World) : Prop where
  apart : ∃ hidden, w₁.Apart hidden (f :: rest) ∧ hidden w.nextFrame
  frame : w₁.HasFrame w.nextFrame (visitor.bindings f xs) globalFrame
  names : Throughout (·.KeepsNames listNames w₀) (visitor.walked w) (visitor.visit depth f w) seen
    rest w₁

namespace Goes
variable {visitor : Visitor} {w₀ : World} {depth : Nat} {f x v : Value} {xs rest : List Value}
  {seen : List (Value × Value)} {w w₁ w' : World}

theorem exists_global (h : visitor.Goes w₀ depth f xs w seen rest w₁) :
    globalFrame < w₁.nextFrame := h.frame.exists_parent

theorem begun (hapart : w.Apart (fun _ => False) [f, .list xs])
    (hnames : visitor.KeepsNames depth f xs w w₀) :
    visitor.Goes w₀ depth f xs w [] xs (visitor.begun f xs w) := by
  have hcalled := (hapart.items xs (by simp)).newFrame (visitor.bindings f xs) globalFrame
  have hbegun := hcalled.bypass (.newClosure hcalled.hides)
  have hframe : (w.newFrame (visitor.bindings f xs) globalFrame).HasFrame w.nextFrame
      (visitor.bindings f xs) globalFrame := World.hasFrame_newFrame hapart.global.1
  exact ⟨⟨_, hbegun.mono (by grind), .inr rfl⟩, hframe.enlarge (.newClosure _), hnames⟩

theorem stands (h : visitor.Goes w₀ depth f xs w seen (x :: rest) w₁) :
    visitor.Stands w₀ f xs seen x w.nextFrame (visitor.walked w seen (x :: rest) w₁).nextFrame
      ((visitor.walked w seen (x :: rest) w₁).newFrame (visitor.here seen x) w.nextFrame) := by
  have hlarger : w₁.Enlarges (visitor.walked w seen (x :: rest) w₁) :=
    enlarges_foldFrames _ _ _ w₁
  have hkept := h.names.here.enlarge h.exists_global hlarger
  obtain ⟨hinner, houter, hnames⟩ := hkept.inside (h.frame.enlarge hlarger)
    (visitor.here seen x)
  exact ⟨hinner, houter, hnames⟩

theorem after (h : visitor.Goes w₀ depth f xs w seen (x :: rest) w₁)
    (hcall : CallEnds (depth + 2) f [x] ((visitor.walked w seen (x :: rest) w₁).newFrame
      (visitor.here seen x) w.nextFrame) (.ok v) w') :
    visitor.Stands w₀ f xs seen x w.nextFrame (visitor.walked w seen (x :: rest) w₁).nextFrame w' ∧
      visitor.Goes w₀ depth f xs w (seen ++ [(x, v)]) rest w' ∧
      w'.HasFrame w₁.nextFrame (foldBindings (visitor.folding w) (visitor.made seen) (x :: rest))
        globalFrame := by
  have hstands := h.stands
  have hnames := h.names.2 (seen ++ [(x, v)]) w' ⟨_, hcall, rfl⟩
  obtain ⟨hidden, hapart, houter⟩ := h.apart
  have helements : x :: rest ⊆ f :: x :: rest := List.subset_cons_self f _
  have hwalked := apart_foldFrames hapart helements (visitor.folding w) (visitor.made seen)
  have hframes := hwalked.newFrame (visitor.here seen x) w.nextFrame
  obtain ⟨hafter, hkept⟩ := hframes.call hcall (.head _) (by simp)
  have hframe := (hasFrame_foldFrames h.exists_global (visitor.folding w) (visitor.made seen)
    (x :: rest)).enlarge (.newFrame _ (visitor.here seen x) w.nextFrame)
  have hcalled := hstands.outer.of_frames_eq (hkept _ (.inl (.inl houter)))
  exact ⟨⟨hstands.inner.of_frames_eq (hkept _ (.inr rfl)), hcalled, hnames.here⟩,
    ⟨⟨_, hafter.mono (by grind), .inl (.inl houter)⟩, hcalled, hnames⟩,
    hframe.of_frames_eq (hkept _ (.inl (.inr rfl)))⟩

end Goes

theorem foldRule {w₀ : World} (hopen : Opened w₀) {depth : Nat} (hdepth : depth + 3 < maxEvalDepth)
    (visitor : Visitor) (f : Value) (xs : List Value) (w : World) :
    FoldRule w₀ depth (visitor.folding w) visitor.made (visitor.visit depth f w)
      (visitor.Goes w₀ depth f xs w) where
  exists_global h := h.exists_global
  names h := h.names.here.mono (by decide)
  call_iff := by
    intro seen x rest w₁ h o w'
    refine (callEnds_closure_iff rfl).trans ((bigStep_body_iff hopen hdepth h.stands
      fun v w' hv => (h.after hv).1).trans ?_)
    constructor
    · rintro ⟨o', hcall, rfl⟩
      exact ⟨_, ⟨o', hcall, rfl⟩, by cases o' <;> rfl⟩
    · rintro ⟨_, ⟨o', hcall, rfl⟩, rfl⟩
      exact ⟨o', hcall, by cases o' <;> rfl⟩
  next := by
    rintro seen x rest w₁ h seen' w' ⟨o', hcall, ho⟩
    cases o' with
    | ok v =>
      cases ho
      exact (h.after hcall).2
    | error e => cases ho

theorem fst_eq_of_leftFold {visitor : Visitor} {depth : Nat} {f : Value} {rest : List Value}
    {seen : List (Value × Value)} {w w₁ w' : World} {o : Except Error (List (Value × Value))}
    (h : LeftFold (visitor.walked w) (visitor.visit depth f w) seen rest w₁ o w') :
    ∀ all, o = .ok all → all.map Prod.fst = seen.map Prod.fst ++ rest := by
  induction h with
  | done =>
    rintro _ ⟨⟩
    exact (List.append_nil _).symm
  | next hcall _ ih =>
    obtain ⟨o', -, ho⟩ := hcall
    cases o' with
    | ok v =>
      cases ho
      simpa using ih
    | error e => cases ho
  | failed _ => exact fun _ ho => nomatch ho

theorem Visits.fst_eq {visitor : Visitor} {depth : Nat} {f : Value} {xs : List Value}
    {seen : List (Value × Value)} {w w' : World} (h : visitor.Visits depth f xs w (.ok seen) w') :
    seen.map Prod.fst = xs :=
  fst_eq_of_leftFold h seen rfl

theorem exists_entry : ∀ visitor : Visitor, ∃ i : Nat, entries[i]? = some visitor.entry
  | mapping => ⟨5, rfl⟩
  | filtering => ⟨6, rfl⟩

section
variable (visitor : Visitor) {w₀ : World} (hopen : Opened w₀) {depth : Nat}
  (hdepth : depth + 3 < maxEvalDepth) {frame : FrameId} {head f : Value}
  {operands xs : List Value} {w w₁ w' : World} {o : Except Error Value}
include hopen hdepth

theorem evalEnds_iff (hready : Ready w frame (.list (head :: operands)))
    (happlies : AppliesNamed w₀ visitor.entry.name depth frame head operands w [f, .list xs] w₁)
    (hnames : visitor.KeepsNames depth f xs w₁ w₀) :
    EvalEnds depth frame (.list (head :: operands)) w o w' ↔
      ∃ o', visitor.Visits depth f xs w₁ o' w' ∧ o = o'.map visitor.made := by
  obtain ⟨i, hentry⟩ := exists_entry visitor
  replace happlies := happlies.entry hopen hentry
  have hapart := hready.applies happlies
  have hcount : visitor.entry.params.length = [f, .list xs].length := by cases visitor <;> rfl
  have hbody : visitor.entry.body = foldWith "acc" visitor.body (.quoted .nil) := by
    cases visitor <;> rfl
  have hbindings : visitor.entry.params.zip [f, .list xs] = visitor.bindings f xs := by
    cases visitor <;> rfl
  have hnil : visitor.made [] = .nil := by cases visitor <;> rfl
  have hframe : (w₁.newFrame (visitor.bindings f xs) globalFrame).HasFrame w₁.nextFrame
      (visitor.bindings f xs) globalFrame := World.hasFrame_newFrame hapart.global.1
  have hkept : (w₁.newFrame (visitor.bindings f xs) globalFrame).KeepsNames listNames w₀ :=
    hnames.here.of_frames_eq rfl
  have hgoes : visitor.Goes w₀ depth f xs w₁ [] xs (visitor.begun f xs w₁) := .begun hapart hnames
  refine (happlies.evalEnds_iff (by omega) hcount).trans ?_
  refine Iff.trans ?_ ((foldRule hopen hdepth visitor f xs w₁).bigStep_foldl_iff hopen hdepth hgoes)
  change BigStep (.expr depth w₁.nextFrame visitor.entry.body)
    (w₁.newFrame (visitor.entry.params.zip [f, .list xs]) globalFrame) o w' ↔ _
  rw [hbody, hbindings, hnil]
  have hsees := hframe.sees hkept (by cases visitor <;> rfl)
  exact bigStep_foldWith_iff hopen (by omega) hframe hsees (by cases visitor <;> rfl) (by decide)
    fun w => .within (by omega) .quote

end

end Library.Visitor

/-- The list functions of a standard session. `length`, `reverse` and `last` compute the number of
elements, the elements backwards and the last element; an empty list has a text in its place, and a
number of elements beyond the integers of the language would be an overflow. `map` and `filter` end
as the visits to the elements end: they make the list of what the procedure yielded, or of the
elements for which that was true, or fail with the error of the visit that failed, which is the last
one. -/
theorem list_functions {w₀ w w₁ : World} (hopen : Opened w₀) {depth : Nat}
    (hdepth : depth + 3 < maxEvalDepth) {frame : FrameId} {head : Value} {operands : List Value}
    (hready : Ready w frame (.list (head :: operands))) :
    (∀ xs, AppliesNamed w₀ "length" depth frame head operands w [.list xs] w₁ →
      w₁.KeepsNames listNames w₀ →
      Computes depth frame (.list (head :: operands)) w (counted xs.length) w₁) ∧
    (∀ xs, AppliesNamed w₀ "reverse" depth frame head operands w [.list xs] w₁ →
      w₁.KeepsNames listNames w₀ →
      Computes depth frame (.list (head :: operands)) w (.ok (.list xs.reverse)) w₁) ∧
    (∀ xs, AppliesNamed w₀ "last" depth frame head operands w [.list xs] w₁ →
      w₁.KeepsNames listNames w₀ →
      Computes depth frame (.list (head :: operands)) w
        (.ok (xs.getLastD (.string "err-empty-list"))) w₁) ∧
    (∀ f xs, AppliesNamed w₀ "map" depth frame head operands w [f, .list xs] w₁ →
      Visitor.mapping.KeepsNames depth f xs w₁ w₀ →
      ∀ o w', EvalEnds depth frame (.list (head :: operands)) w o w' ↔
        ∃ o', Visitor.mapping.Visits depth f xs w₁ o' w' ∧
          o = o'.map fun seen => .list (seen.map Prod.snd)) ∧
    (∀ f xs, AppliesNamed w₀ "filter" depth frame head operands w [f, .list xs] w₁ →
      Visitor.filtering.KeepsNames depth f xs w₁ w₀ →
      ∀ o w', EvalEnds depth frame (.list (head :: operands)) w o w' ↔
        ∃ o', Visitor.filtering.Visits depth f xs w₁ o' w' ∧
          o = o'.map fun seen => .list ((seen.filter (·.2.isTruthy)).map Prod.fst)) ∧
    ∀ (visitor : Visitor) f xs seen w', visitor.Visits depth f xs w₁ (.ok seen) w' →
      seen.map Prod.fst = xs := by
  have hexists {args : List Value} {name : String}
      (happlies : AppliesNamed w₀ name depth frame head operands w args w₁) :
      globalFrame < w₁.nextFrame := by
    obtain ⟨procedure, -, happlies⟩ := happlies
    exact (hready.applies happlies).global.1
  refine ⟨fun xs happlies hnames => ?_, fun xs happlies hnames => ?_, fun xs happlies hnames => ?_,
    fun f xs happlies hnames o w' => ?_, fun f xs happlies hnames o w' => ?_,
    fun visitor f xs seen w' h => h.fst_eq⟩
  · exact (happlies.entry hopen (i := 3) rfl).computes (by omega) rfl
      (exists_bigStep_length hopen hdepth (hexists happlies) hnames xs)
  · exact (happlies.entry hopen (i := 4) rfl).computes (by omega) rfl
      (exists_bigStep_reverse hopen hdepth (hexists happlies) hnames xs)
  · exact (happlies.entry hopen (i := 7) rfl).computes (by omega) rfl
      (exists_bigStep_last hopen hdepth xs (hexists happlies) hnames)
  · exact Visitor.mapping.evalEnds_iff hopen hdepth hready happlies hnames
  · exact Visitor.filtering.evalEnds_iff hopen hdepth hready happlies hnames

theorem list_functions_filter_not : ∃ w w', Opened w ∧
    EvalEnds 0 globalFrame (call "filter" [.symbol "not",
      (Value.list [.int 0, .list [.symbol "f"], .nil]).quoted]) w
      (.ok (.list [.int 0, .nil])) w' := by
  have hopen : Opened (installAll entries (start (.standard "") ⟨[], ""⟩ .empty)) :=
    opened_iff.2 ⟨_, _, _, rfl⟩
  generalize installAll entries _ = w at hopen
  have hready : Ready w globalFrame (call "filter" [.symbol "not",
      (Value.list [.int 0, .list [.symbol "f"], .nil]).quoted]) :=
    hopen.ready (.refl w) (by simp [call, Value.quoted, Value.int, Value.Within.list_iff,
      Value.Within.symbol, Value.Within.number])
  have happlies : AppliesNamed w "filter" 0 globalFrame (.symbol "filter") [.symbol "not",
      (Value.list [.int 0, .list [.symbol "f"], .nil]).quoted] w
      [.builtin (.unary .not), .list [.int 0, .list [.symbol "f"], .nil]] w :=
    hopen.appliesNamed (i := 6) rfl (by decide) rfl
      (.exprsCons (.expr_symbol (by decide) (hopen.lookup?_unary .not))
        (.exprs_one (.within (by decide) .quote)))
  have hnot (x : Value) (w : World) :
      CallEnds 2 (.builtin (.unary .not)) [x] w (.ok (.bool !x.isTruthy)) w :=
    .builtin_pure fun _ => .unary rfl
  have hnames : Visitor.filtering.KeepsNames 0 (.builtin (.unary .not))
      [.int 0, .list [.symbol "f"], .nil] w w := by
    refine Throughout.of_step
      (Q := fun w' => globalFrame < w'.nextFrame ∧ w'.KeepsNames listNames w)
      (fun w' h => h.2) ?_ ?_
    · rintro seen x xs w₁ ⟨hw, hkept⟩ seen' w' ⟨o', hcall, -⟩
      obtain ⟨-, rfl⟩ := hcall.unique (hnot x _)
      have hlarger := (enlarges_foldFrames (Visitor.filtering.folding w)
        (Visitor.filtering.made seen) (x :: xs) w₁).trans
        (.newFrame _ (Visitor.filtering.here seen x) w.nextFrame)
      exact ⟨Nat.lt_of_lt_of_le hw hlarger.le, hkept.enlarge hw hlarger⟩
    · have hlarger := (World.Enlarges.newFrame w (Visitor.filtering.bindings
        (.builtin (.unary .not)) [.int 0, .list [.symbol "f"], .nil]) globalFrame).trans
        (.newClosure _)
      have hkept : w.KeepsNames listNames w := fun _ _ => rfl
      exact ⟨Nat.lt_of_lt_of_le hready.frame hlarger.le, hkept.enlarge hready.frame hlarger⟩
  have hdepth : 0 + 3 < maxEvalDepth := by decide
  obtain ⟨-, -, -, -, hfilter, -⟩ := list_functions hopen hdepth hready
  exact ⟨w, _, hopen, (hfilter _ _ happlies hnames _ _).2 ⟨_, .next ⟨_, hnot _ _, rfl⟩
    (.next ⟨_, hnot _ _, rfl⟩ (.next ⟨_, hnot _ _, rfl⟩ .done)), rfl⟩⟩

end Lisplet
