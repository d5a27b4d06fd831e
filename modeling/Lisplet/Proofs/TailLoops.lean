import Lisplet.Proofs.Definitions

/-! Loops that count down by calls in tail position. A turn of such a loop is a call at the depth of
the call before, in a world that has only become larger, so the loop ends whatever the number that
it counts down from. -/
namespace Lisplet
open Library Session Countdown

structure CountingLoop extends Definition where
  source : String
  arguments : Int64 → List Int64
  final : Int64 → Value

namespace CountingLoop

def throughIf : CountingLoop where
  name := "count-down"
  params := ["n"]
  body := SpecialForm.ite.applied [test, .quoted (.symbol "done"), call "count-down" [next]]
  source := "(define count-down (lambda (n) (if (= n 0) 'done (count-down (- n 1)))))"
  arguments n := [n]
  final _ := .symbol "done"

def throughCond : CountingLoop where
  name := "count-cond"
  params := ["n", "acc"]
  body := SpecialForm.cond.applied (SpecialForm.clauseList [(test, .symbol "acc"),
    (.symbol "t", call "count-cond" [next, call "+" [.symbol "acc", .int 1]])])
  source :=
    "(define count-cond (lambda (n acc) (cond ((= n 0) acc) (t (count-cond (- n 1) (+ acc 1))))))"
  arguments n := [n, 0]
  final n := .int n

def throughBegin : CountingLoop where
  name := "count-begin"
  params := ["n"]
  body := SpecialForm.begin.applied [.symbol "n",
    SpecialForm.ite.applied [test, .int 0, call "count-begin" [next]]]
  source := "(define count-begin (lambda (n) (begin n (if (= n 0) 0 (count-begin (- n 1))))))"
  arguments n := [n]
  final _ := .int 0

def throughLet : CountingLoop where
  name := "count-let"
  params := ["n"]
  body := SpecialForm.letIn.applied [.symbol "m", next,
    SpecialForm.ite.applied [call "<" [.symbol "m", .int 0], .quoted (.symbol "ok"),
      call "count-let" [.symbol "m"]]]
  source := "(define count-let (lambda (n) (let m (- n 1) (if (< m 0) 'ok (count-let m)))))"
  arguments n := [n]
  final _ := .symbol "ok"

def throughEval : CountingLoop where
  name := "count-eval"
  params := ["n"]
  body := SpecialForm.ite.applied [test, .quoted (.symbol "ok"),
    SpecialForm.eval.applied [SpecialForm.list.applied [.symbol "count-eval", next]]]
  source := "(define count-eval (lambda (n) (if (= n 0) 'ok (eval (list count-eval (- n 1))))))"
  arguments n := [n]
  final _ := .symbol "ok"

/-- The loops, one for every form that has something in tail position. -/
def all : List CountingLoop := [throughIf, throughCond, throughBegin, throughLet, throughEval]

set_option maxRecDepth 100000 in
theorem parseAll_source {loop : CountingLoop} (h : loop ∈ all) :
    Value.parseAll {} loop.source = .ok [loop.expression] := by
  have hreads : ∃ cs, loop.source = String.ofList cs ∧
      readsAs [loop.expression] (readAll loop.source cs) = true := by
    simp only [all, List.mem_cons, List.not_mem_nil, or_false] at h
    obtain rfl | rfl | rfl | rfl | rfl := h
    all_goals exact ⟨_, rfl, by decide +kernel⟩
  obtain ⟨cs, hcs, h⟩ := hreads
  exact parseAll_of_readsAs hcs h

end CountingLoop

/-- A procedure whose calls each compute what the next call does in every larger world computes
what the last one does. -/
theorem callComputes_of_turns {w₀ : World} {depth : Nat} {f : Value} (args : Int → List Value)
    {n : Int} {o : Except Error Value} (hn : 0 ≤ n) (hrange : InRange n)
    (hstop : ∀ w, w₀.Enlarges w → CallComputes depth f (args 0) w o)
    (hturn : ∀ i w, 0 < i → i ≤ n → InRange i → InRange (i - 1) → w₀.Enlarges w →
      (∀ w₁, w.Enlarges w₁ → CallComputes depth f (args (i - 1)) w₁ o) →
      CallComputes depth f (args i) w o) : CallComputes depth f (args n) w₀ o := by
  have hall (k : Nat) (hk : k ≤ n) (w : World) (hw : w₀.Enlarges w) :
      CallComputes depth f (args k) w o := by
    induction k generalizing w with
    | zero => exact hstop w hw
    | succ k ih =>
      have hbefore : ((k + 1 : Nat) : Int) - 1 = k := by omega
      refine hturn _ w (by omega) hk (hrange.below (by omega) hk)
        (hrange.below (by omega) (by omega)) hw fun w₁ hlarger => ?_
      rw [hbefore]
      exact ih (by omega) w₁ (hw.trans hlarger)
  have hcast := Int.toNat_of_nonneg hn
  exact hcast ▸ hall n.toNat (Int.le_of_eq hcast) w₀ (.refl w₀)

namespace CountingLoop

section
variable {w₀ : World} {k : Nat} {depth : Nat} (hdepth : depth + 3 < maxEvalDepth) {n : Int}
  (hn : 0 ≤ n) (hrange : InRange n)
include hdepth hn hrange

theorem callComputes_of_ite {name : String} {c : Closure} (hc : w₀.Recursive name c)
    (hparams : c.params = ["n"])
    (hothers : ∀ v : Value, ((name :: operators.map Prod.fst).all fun key =>
      ((Std.TreeMap.ofList [("n", v)])[key]?).isNone) = true)
    {stop v : Value} (again : Value)
    (hbody : ∀ {w id i}, w.store.lookup? id "n" = some (.integer i) →
      Computes depth id (SpecialForm.ite.applied [test, stop, again]) w (.ok v) w →
      Computes depth id c.body w (.ok v) w)
    (hstop : ∀ w id, BigStep (.expr depth id stop) w (.ok v) w)
    (hagain : ∀ {w id i}, InRange i → InRange (i - 1) → w.store.lookup? id "n" = some (.integer i) →
      w.Means id ((name, .closure c) :: operators) →
      CallComputes depth (.closure c) [.integer (i - 1)] w (.ok v) →
      Computes depth id again w (.ok v) w) :
    CallComputes depth (.closure c) [.integer n] w₀ (.ok v) := by
  have hturn {i : Int} (hi : InRange i) {w : World} (hw : w₀.Enlarges w)
      (h : ∀ w₁ id, w.Enlarges w₁ → w₁.store.lookup? id "n" = some (.integer i) →
        w₁.Means id ((name, .closure c) :: operators) →
        Computes depth id (if i = 0 then stop else again) w₁ (.ok v) w₁) :
      CallComputes depth (.closure c) [.integer i] w (.ok v) := by
    refine hc.computes hw (by rw [hparams]; rfl) (by rw [hparams]; exact hothers _)
      fun w₁ id hlarger hframe hnames => ?_
    rw [hparams] at hframe
    have hn : w₁.store.lookup? id "n" = some (.integer i) := hframe.bound rfl
    exact hbody hn (computes_ite_test (by omega) hn hnames.tail hi (h w₁ id hlarger hn hnames))
  refine callComputes_of_turns (fun i => [.integer i]) hn hrange (fun w hw => ?_)
    fun i w hpos hle hi hnext hw ih => ?_
  · exact hturn (by decide) hw fun w₁ id _ _ _ => .of_bigStep (hstop w₁ id)
  · refine hturn hi hw fun w₁ id hlarger hn hnames => ?_
    rw [if_neg (by omega)]
    exact hagain hi hnext hn hnames (ih w₁ hlarger)

theorem callComputes_throughIf (hc : w₀.Recursive throughIf.name (throughIf.closure k)) :
    CallComputes depth (.closure (throughIf.closure k)) [.integer n] w₀ (.ok (.symbol "done")) := by
  refine callComputes_of_ite hdepth hn hrange hc rfl (fun _ => rfl) _ (fun _ h => h)
    (fun w id => .within (by omega) .quote) fun hi hnext hn hnames hcall => ?_
  exact hcall.apply (by omega) rfl hnames.head
    (.exprs_one (bigStep_next (by omega) hn hnames.tail hi hnext))

theorem callComputes_throughBegin (hc : w₀.Recursive throughBegin.name (throughBegin.closure k)) :
    CallComputes depth (.closure (throughBegin.closure k)) [.integer n] w₀ (.ok (.integer 0)) := by
  refine callComputes_of_ite hdepth hn hrange hc rfl (fun _ => rfl) (call "count-begin" [next])
    (fun {w id i} hn h => ?_)
    (fun w id => .expr_integer (by omega) 0) fun hi hnext hn hnames hcall => ?_
  · exact h.of_tail (.refl w) fun w' htail => .within (by omega)
      (.beginNext (.expr_symbol (by omega) hn) (.beginLast htail))
  · exact hcall.apply (by omega) rfl hnames.head
      (.exprs_one (bigStep_next (by omega) hn hnames.tail hi hnext))

theorem callComputes_throughEval (hc : w₀.Recursive throughEval.name (throughEval.closure k)) :
    CallComputes depth (.closure (throughEval.closure k)) [.integer n] w₀ (.ok (.symbol "ok")) := by
  refine callComputes_of_ite hdepth hn hrange hc rfl (fun _ => rfl) _ (fun _ h => h)
    (fun w id => .within (by omega) .quote) fun {w id i} hi hnext hn hnames hcall => ?_
  have hone : depth + 1 < maxEvalDepth := by omega
  have hnumber : BigStep (.expr (depth + 1 + 1) id next) w (.ok (.integer (i - 1))) w :=
    bigStep_next hdepth hn hnames.tail hi hnext
  have hcode := BigStep.list (.exprsCons (.expr_symbol (by omega) hnames.head)
    (.exprs_one hnumber))
  have hhead : BigStep (.expr (depth + 1) id (.closure (throughEval.closure k))) w
      (.ok (.closure (throughEval.closure k))) w := (BigStep.expr_procedure hone rfl).2
  obtain ⟨w', hlarger, hcall⟩ := hcall
  have happly := (bigStep_application_iff_call rfl hhead
    (.exprs_one (.expr_integer hone (i - 1)))).2 hcall
  exact computes_iff_bigStep.2 ⟨w', hlarger, .within (by omega)
    (.evalCode (.within hone hcode) nofun (.within (by omega) happly))⟩

theorem callComputes_throughCond (hc : w₀.Recursive throughCond.name (throughCond.closure k)) :
    CallComputes depth (.closure (throughCond.closure k)) [.integer n, .integer 0] w₀
      (.ok (.integer n)) := by
  have hone : depth + 1 < maxEvalDepth := by omega
  have htwo : depth + 1 + 1 < maxEvalDepth := by omega
  have hcalls : CallComputes depth (.closure (throughCond.closure k))
      [.integer n, .integer (n - n)] w₀ (.ok (.integer n)) := by
    refine callComputes_of_turns (fun i => [.integer i, .integer (n - i)]) hn hrange
      (fun w hw => ?_) fun i w hpos hle hi hnext hw ih => ?_
    · refine hc.computes hw rfl rfl fun w₁ id hlarger hframe hnames => ?_
      have htest : BigStep (.expr (depth + 1) id test) w₁ (.ok (.bool (decide ((0 : Int) = 0))))
          w₁ := bigStep_test htwo (hframe.bound rfl) hnames.tail (by decide)
      have hacc : w₁.store.lookup? id "acc" = some (.integer (n - 0)) := hframe.bound rfl
      rw [Int.sub_zero] at hacc
      exact .of_bigStep (.within (by omega)
        (.cond (.clausesFound htest rfl) (.expr_symbol (by omega) hacc)))
    · have hrest : InRange (n - i) := hrange.below (by omega) (by omega)
      have hmore : n - i + 1 = n - (i - 1) := by omega
      refine hc.computes hw rfl rfl fun w₁ id hlarger hframe hnames => ?_
      have htest : BigStep (.expr (depth + 1) id test) w₁ (.ok (.bool (decide (i = 0)))) w₁ :=
        bigStep_test htwo (hframe.bound rfl) hnames.tail hi
      have hacc : w₁.store.lookup? id "acc" = some (.integer (n - i)) := hframe.bound rfl
      have hadd : BigStep (.expr (depth + 1) id (call "+" [.symbol "acc", .int 1])) w₁
          (.ok (.integer (n - i + 1))) w₁ :=
        bigStep_add htwo hnames.tail (.expr_symbol htwo hacc) (.expr_integer htwo 1) hrest
          (by decide) (hrange.below (by omega) (by omega))
      rw [hmore] at hadd
      have hcall := (ih w₁ hlarger).apply hone rfl hnames.head
        (.exprsCons (bigStep_next htwo (hframe.bound rfl) hnames.tail hi hnext) (.exprs_one hadd))
      have htrue : w₁.store.lookup? id "t" = some (.bool true) :=
        hnames.tail ("t", _) (by simp [operators])
      refine hcall.of_tail (.refl w₁) fun w' htail => .within (by omega)
        (.cond (.clausesNext htest ?_ (.clausesFound (.expr_symbol hone htrue) rfl)) htail)
      exact decide_eq_false (Int.ne_of_gt hpos)
  rwa [Int.sub_self] at hcalls

omit hn hrange in
theorem computes_throughLet_body {w : World} {id : FrameId} {k : Nat} {i : Int}
    (hid : id < w.nextFrame) (hn : w.store.lookup? id "n" = some (.integer i))
    (hnames : w.Means id ((throughLet.name, .closure (throughLet.closure k)) :: operators))
    (hi : InRange i) (hnext : InRange (i - 1)) {o : Except Error Value}
    (h : ∀ w₁ inner, w.Enlarges w₁ → w₁.store.lookup? inner "m" = some (.integer (i - 1)) →
      w₁.Means inner ((throughLet.name, .closure (throughLet.closure k)) :: operators) →
      Computes depth inner (if i - 1 < 0 then .quoted (.symbol "ok") else
        call throughLet.name [.symbol "m"]) w₁ o w₁) :
    Computes depth id throughLet.body w o w := by
  have htwo : depth + 1 + 1 < maxEvalDepth := by omega
  have hempty := (World.Means.cons (p := ("n", _)) hn hnames).enlarge hid (.newFrame w [] id)
    |>.inside (World.hasFrame_newFrame hid) rfl
  have hvalue := bigStep_next htwo hempty.head hempty.tail.tail hi hnext
  have hlarger := World.Enlarges.newFrame w [("m", .integer (i - 1))] id
  have hframe : (w.newFrame [("m", .integer (i - 1))] id).HasFrame w.nextFrame
      [("m", .integer (i - 1))] id := World.hasFrame_newFrame hid
  have hothers : ((throughLet.name :: operators.map Prod.fst).all fun name =>
      ((Std.TreeMap.ofList [("m", Value.integer (i - 1))])[name]?).isNone) = true := rfl
  have hinner := (hnames.enlarge hid hlarger).inside hframe hothers
  have hm : (w.newFrame [("m", .integer (i - 1))] id).store.lookup? w.nextFrame "m" =
      some (.integer (i - 1)) := hframe.bound rfl
  have htest := bigStep_less htwo hinner.tail (.expr_symbol htwo hm) (.expr_integer htwo 0) hnext
    (by decide)
  refine (h _ _ hlarger hm hinner).of_tail hlarger fun w' htail => ?_
  refine .within (by omega) (.letOne (.bindingsCons hvalue .bindingsNil) ?_)
  rw [World.bind_newFrame [] id "m" rfl]
  exact .within (by omega) (.ite_decide htest htail)

theorem callComputes_throughLet (hc : w₀.Recursive throughLet.name (throughLet.closure k)) :
    CallComputes depth (.closure (throughLet.closure k)) [.integer n] w₀ (.ok (.symbol "ok")) := by
  refine callComputes_of_turns (fun i => [.integer i]) hn hrange (fun w hw => ?_)
    fun i w hpos hle hi hnext hw ih => ?_
  · refine hc.computes hw rfl rfl fun w₁ id hlarger hframe hnames => ?_
    refine computes_throughLet_body hdepth hframe.lt_nextFrame (hframe.bound rfl) hnames (by decide)
      (by decide) fun w₂ inner hlarger' hm hnames' => ?_
    exact .of_bigStep (.within (by omega) .quote)
  · refine hc.computes hw rfl rfl fun w₁ id hlarger hframe hnames => ?_
    refine computes_throughLet_body hdepth hframe.lt_nextFrame (hframe.bound rfl) hnames hi hnext
      fun w₂ inner hlarger' hm hnames' => ?_
    rw [if_neg (by omega)]
    exact (ih w₂ (hlarger.trans hlarger')).apply (by omega) rfl hnames'.head
      (.exprs_one (.expr_symbol (by omega) hm))

end

theorem callComputes_of_mem {loop : CountingLoop} (hloop : loop ∈ all) {w₀ : World} {k depth : Nat}
    (hdepth : depth + 3 < maxEvalDepth) {n : Int64} (hn : 0 ≤ n.toInt)
    (hc : w₀.Recursive loop.name (loop.closure k)) :
    CallComputes depth (.closure (loop.closure k)) ((loop.arguments n).map .int) w₀
      (.ok (loop.final n)) := by
  have hrange := inRange_toInt n
  simp only [all, List.mem_cons, List.not_mem_nil, or_false] at hloop
  obtain rfl | rfl | rfl | rfl | rfl := hloop
  · have h := callComputes_throughIf hdepth hn hrange hc
    rwa [Value.integer_toInt] at h
  · have h := callComputes_throughCond hdepth hn hrange hc
    rwa [Value.integer_toInt] at h
  · have h := callComputes_throughBegin hdepth hn hrange hc
    rwa [Value.integer_toInt] at h
  · have h := callComputes_throughLet hdepth hn hrange hc
    rwa [Value.integer_toInt] at h
  · have h := callComputes_throughEval hdepth hn hrange hc
    rwa [Value.integer_toInt] at h

end CountingLoop

namespace LetLoop

def body : Value := SpecialForm.ite.applied [call "<" [.symbol "x", .int 0], .int 0,
  call "foo" [call "-" [.symbol "x", .int 1]]]

def expression (n : Int64) : Value :=
  SpecialForm.letIn.applied [.symbol "foo",
    SpecialForm.lambda.applied [.list [.symbol "x"], body], call "foo" [.int n]]

def closure (k : Nat) (frame : FrameId) : Closure := ⟨k, ["x"], body, frame, none⟩

/-- What the frame of the `let` binds. The closure is bound there as a value and, since it was made
there, as a closure. -/
def bindings (k : Nat) (frame : FrameId) : List (String × Value) :=
  [("foo", .closure (closure k frame)), ("foo", .closure (closure k frame))]

section
variable {w₀ w : World} {k : Nat} {frame : FrameId} (hc : w₀.Recursive "foo" (closure k frame))
  {depth : Nat} (hdepth : depth + 1 + 1 < maxEvalDepth) (hw : w₀.Enlarges w)
include hc hdepth hw

theorem callComputes_of_test {i : Int} (hi : InRange i) {o : Except Error Value}
    (h : ∀ w₁ id, w.Enlarges w₁ → w₁.store.lookup? id "x" = some (.integer i) →
      w₁.Means id (("foo", .closure (closure k frame)) :: operators) →
      Computes depth id (if i < 0 then .int 0 else call "foo" [call "-" [.symbol "x", .int 1]])
        w₁ o w₁) :
    CallComputes depth (.closure (closure k frame)) [.integer i] w o := by
  refine hc.computes hw rfl rfl fun w₁ id hlarger hframe hnames => ?_
  have hx : w₁.store.lookup? id "x" = some (.integer i) := hframe.bound rfl
  have htest := bigStep_less hdepth hnames.tail (.expr_symbol hdepth hx) (.expr_integer hdepth 0) hi
    (by decide)
  exact (h w₁ id hlarger hx hnames).of_tail (.refl w₁) fun w' htail =>
    .within (by omega) (.ite_decide htest htail)

theorem callComputes_below : CallComputes depth (.closure (closure k frame)) [.integer (-1)] w
    (.ok (.int 0)) :=
  callComputes_of_test hc hdepth hw (by decide) fun _ _ _ _ _ =>
    .of_bigStep (.expr_int (by omega) 0)

theorem callComputes_turn {i : Int} (hi : InRange i) (hnext : InRange (i - 1)) (hle : 0 ≤ i)
    {o : Except Error Value}
    (h : ∀ w₁, w.Enlarges w₁ →
      CallComputes depth (.closure (closure k frame)) [.integer (i - 1)] w₁ o) :
    CallComputes depth (.closure (closure k frame)) [.integer i] w o := by
  refine callComputes_of_test hc hdepth hw hi fun w₁ id hlarger hx hnames => ?_
  have hsub := bigStep_sub hdepth hnames.tail (.expr_symbol hdepth hx) (.expr_integer hdepth 1) hi
    (by decide) hnext
  rw [if_neg (by omega)]
  exact (h w₁ hlarger).apply (by omega) rfl hnames.head (.exprs_one hsub)

end

theorem bigStep_expression {w w' : World} {depth : Nat} {frame : FrameId} {n : Int64}
    {o : Except Error Value} (hdepth : depth + 1 < maxEvalDepth)
    (h : BigStep (.expr depth w.nextFrame (call "foo" [.int n]))
      (w.newClosure.newFrame (bindings w.store.closures w.nextFrame) frame) o w') :
    BigStep (.expr depth frame (expression n)) w o w' := by
  refine .within (by omega) (.letOne
    (.bindingsCons (.within (by omega) (.lambda rfl)) .bindingsNil) ?_)
  have hmade : (closure w.store.closures w.nextFrame).frame = w.newClosure.nextFrame := rfl
  exact (World.bind_newFrame_closure [] frame "foo" hmade) ▸ h

theorem computes_expression {w : World} (hw : w.Standard) {depth : Nat}
    (hdepth : depth + 3 < maxEvalDepth) {n : Int64} (hn : 0 ≤ n.toInt) :
    Computes depth globalFrame (expression n) w (.ok (.int 0)) w := by
  have hone : depth + 1 < maxEvalDepth := by omega
  have htwo : depth + 1 + 1 < maxEvalDepth := by omega
  obtain ⟨w₁, hw₁⟩ : ∃ w₁, w₁ = w.newClosure.newFrame (bindings w.store.closures w.nextFrame)
    globalFrame := ⟨_, rfl⟩
  have hframe : w₁.HasFrame w.nextFrame (bindings w.store.closures w.nextFrame) globalFrame :=
    hw₁ ▸ World.hasFrame_newFrame (w := w.newClosure) hw.exists_global
  have hlarger : w.Enlarges w₁ := hw₁ ▸ .trans (.newClosure w) (.newFrame _ _ _)
  have hname : w₁.store.lookup? w.nextFrame "foo" =
      some (.closure (closure w.store.closures w.nextFrame)) := hframe.bound rfl
  have hc : w₁.Recursive "foo" (closure w.store.closures w.nextFrame) :=
    ⟨hframe.lt_nextFrame,
      .cons hname ((hw.names.enlarge hw.exists_global hlarger).inside hframe rfl)⟩
  have hcalls := callComputes_of_turns (fun i => [.integer i]) hn (inRange_toInt n)
    (fun w' hw' => callComputes_turn hc htwo hw' (by decide) (by decide) (Int.le_refl 0)
      fun w₂ hw₂ => callComputes_below hc htwo (hw'.trans hw₂))
    fun i w' hpos _ hi hnext hw' ih =>
      callComputes_turn hc htwo hw' hi hnext (Int.le_of_lt hpos) ih
  rw [Value.integer_toInt] at hcalls
  have hcall := hcalls.apply hone rfl hname (.exprs_one (.expr_int hone n))
  exact hcall.of_tail hlarger fun w' htail => bigStep_expression hone (hw₁ ▸ htail)

end LetLoop

/-- Tail calls cost no depth. Each of the loops, defined in a session in which the operators mean
what they do in a registry, comes to its final value whatever the number that it counts down from;
so does the loop that a `let` binds. -/
theorem counting_loops {w₀ : World} (hw₀ : w₀.Standard) {depth : Nat}
    (hdepth : depth + 3 < maxEvalDepth) :
    (∀ loop ∈ CountingLoop.all, ∃ w,
      Run.Settles (load · {} loop.source) w₀ (.ok (.symbol loop.name)) w ∧
      ∀ n : Int64, 0 ≤ n.toInt → Computes depth globalFrame
        (call loop.name ((loop.arguments n).map .int)) w (.ok (loop.final n)) w) ∧
    ∀ n : Int64, 0 ≤ n.toInt →
      Computes depth globalFrame (LetLoop.expression n) w₀ (.ok (.int 0)) w₀ := by
  refine ⟨fun loop hloop => ?_, fun n hn => LetLoop.computes_expression hw₀ hdepth hn⟩
  refine ⟨_, loop.settles_load (CountingLoop.parseAll_source hloop) w₀, fun n hn => ?_⟩
  have hrecursive := loop.recursive_install hw₀
  exact (CountingLoop.callComputes_of_mem hloop hdepth hn hrecursive).apply (by omega) loop.plain
    hrecursive.names.head (.exprs_ints (by omega) _)

set_option maxRecDepth 100000 in
theorem counting_loops_greatest : ∃ w, w = start (.standard "") ⟨[], ""⟩ .empty ∧
    (∀ loop ∈ CountingLoop.all, ∃ w₁,
      Run.Settles (load · {} loop.source) w (.ok (.symbol loop.name)) w₁ ∧
      Computes 0 globalFrame (call loop.name ((loop.arguments Int64.maxValue).map .int)) w₁
        (.ok (loop.final Int64.maxValue)) w₁) ∧
    Value.parseAll {}
        "(let foo (lambda (x) (if (< x 0) 0 (foo (- x 1)))) (foo 9223372036854775807))" =
      .ok [LetLoop.expression Int64.maxValue] ∧
    Computes 0 globalFrame (LetLoop.expression Int64.maxValue) w (.ok (.int 0)) w := by
  obtain ⟨hloops, hlet⟩ := counting_loops (standard_start "" ⟨[], ""⟩ .empty)
    (show 0 + 3 < maxEvalDepth by decide)
  have hgreatest : 0 ≤ Int64.maxValue.toInt := by decide
  refine ⟨_, rfl, fun loop hloop => ?_, parseAll_of_readsAs rfl (by decide +kernel),
    hlet Int64.maxValue hgreatest⟩
  obtain ⟨w₁, hload, hends⟩ := hloops loop hloop
  exact ⟨w₁, hload, hends Int64.maxValue hgreatest⟩

end Lisplet
