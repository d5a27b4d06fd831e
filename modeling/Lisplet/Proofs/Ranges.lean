import Lisplet.Proofs.LibraryCalls

/-! `range` and the loop that it runs. The loop goes on as long as its counter is below the bound,
so the counter is at most the bound when it has been incremented: no increment overflows, not even
where the bound is the greatest integer. -/
namespace Lisplet
open Library Session

namespace Library

def integers (a b : Int64) : List Int64 :=
  (List.range (b.toInt - a.toInt).toNat).map fun i : Nat => Int64.ofInt (a.toInt + i)

theorem toInt_integers (a b : Int64) : (integers a b).map Int64.toInt =
    (List.range (b.toInt - a.toInt).toNat).map fun i : Nat => a.toInt + i := by
  rw [integers, List.map_map]
  refine List.map_congr_left fun i hi => ?_
  have hmin := a.minValue_le_toInt
  have hmax := b.toInt_le
  have hlt := List.mem_range.1 hi
  exact InRange.toInt_ofInt ⟨by omega, by omega⟩

theorem integers_of_le {a b : Int64} (h : b.toInt ≤ a.toInt) : integers a b = [] := by
  have hnone : (b.toInt - a.toInt).toNat = 0 := by omega
  rw [integers, hnone]
  rfl

theorem integers_of_lt {a b : Int64} (h : a.toInt < b.toInt) :
    integers a b = a :: integers (Int64.ofInt (a.toInt + 1)) b := by
  have hmin := a.minValue_le_toInt
  have hmax := b.toInt_le
  have hnext : (Int64.ofInt (a.toInt + 1)).toInt = a.toInt + 1 :=
    InRange.toInt_ofInt ⟨by omega, by omega⟩
  have hcount : (b.toInt - a.toInt).toNat = (b.toInt - (a.toInt + 1)).toNat + 1 := by omega
  have hfirst : Int64.ofInt (a.toInt + (0 : Nat)) = a := by simp
  rw [integers, integers, hnext, hcount, List.range_succ_eq_map, List.map_cons, List.map_map,
    hfirst]
  congr 2
  funext i
  have hsum : a.toInt + ((i + 1 : Nat) : Int) = a.toInt + 1 + i := by omega
  exact congrArg Int64.ofInt hsum

theorem holds_less (a b : Int) :
    Comparison.less.holds (some (compare a b)) = decide (a < b) := by
  cases h : compare a b with
  | lt => simp [Comparison.holds, compare_lt_iff_lt.1 h]
  | eq => simp [Comparison.holds, compare_eq_iff_eq.1 h]
  | gt => simp [Comparison.holds, Int.le_of_lt (compare_gt_iff_gt.1 h)]

def rangeNames : List String := ["range-into", "<", "append", "++"]

def rangeBindings (made : List Int64) (n bound : Int64) : List (String × Value) :=
  [("acc", .list (made.map .int)), ("n", .int n), ("to", .int bound)]

section
variable {w₀ : World} (hopen : Opened w₀) {depth : Nat} (hdepth : depth + 2 < maxEvalDepth)
  {w w' : World} (hw : globalFrame < w.nextFrame) (hnames : w.KeepsNames rangeNames w₀)
  {made : List Int64} {n bound : Int64} {o : Except Error Value}
include hopen hdepth hw hnames

theorem bigStep_rangeInto_iff :
    BigStep (.expr depth w.nextFrame rangeInto.body)
        (w.newFrame (rangeBindings made n bound) globalFrame) o w' ↔
      BigStep (.expr depth w.nextFrame (if decide (n.toInt < bound.toInt) then
          call "range-into" [call "append" [.symbol "n", .symbol "acc"], call "++" [.symbol "n"],
            .symbol "to"] else .symbol "acc"))
        (w.newFrame (rangeBindings made n bound) globalFrame) o w' := by
  have hframe : (w.newFrame (rangeBindings made n bound) globalFrame).HasFrame w.nextFrame
      (rangeBindings made n bound) globalFrame := World.hasFrame_newFrame hw
  have hsees := hframe.sees
    (hnames.enlarge hw (.newFrame w (rangeBindings made n bound) globalFrame)) rfl
  have htest : BigStep (.expr (depth + 1) w.nextFrame (call "<" [.symbol "n", .symbol "to"]))
      (w.newFrame (rangeBindings made n bound) globalFrame)
      (.ok (.bool (decide (n.toInt < bound.toInt))))
      (w.newFrame (rangeBindings made n bound) globalFrame) := by
    rw [← holds_less]
    exact bigStep_apply_binary (.compare .less) nofun hdepth (hsees.binary hopen (.compare .less)
      (by decide)) (hframe.bound rfl) (hframe.bound rfl) fun _ _ => rfl
  rw [bigStep_expr_iff (by omega)]
  exact bigStep_ite_iff htest

theorem bigStep_rangeInto_of_le (h : bound.toInt ≤ n.toInt) :
    BigStep (.expr depth w.nextFrame rangeInto.body)
      (w.newFrame (rangeBindings made n bound) globalFrame) (.ok (.list (made.map .int)))
      (w.newFrame (rangeBindings made n bound) globalFrame) := by
  have hframe : (w.newFrame (rangeBindings made n bound) globalFrame).HasFrame w.nextFrame
      (rangeBindings made n bound) globalFrame := World.hasFrame_newFrame hw
  rw [bigStep_rangeInto_iff hopen hdepth hw hnames, if_neg (by simpa using h)]
  exact .expr_symbol (by omega) (hframe.bound rfl)

theorem bigStep_rangeInto_iff_of_lt (h : n.toInt < bound.toInt) :
    BigStep (.expr depth w.nextFrame rangeInto.body)
        (w.newFrame (rangeBindings made n bound) globalFrame) o w' ↔
      BigStep (.expr depth (w.newFrame (rangeBindings made n bound) globalFrame).nextFrame
          rangeInto.body)
        ((w.newFrame (rangeBindings made n bound) globalFrame).newFrame
          (rangeBindings (made ++ [n]) (Int64.ofInt (n.toInt + 1)) bound) globalFrame) o w' := by
  have hframe : (w.newFrame (rangeBindings made n bound) globalFrame).HasFrame w.nextFrame
      (rangeBindings made n bound) globalFrame := World.hasFrame_newFrame hw
  have hsees := hframe.sees
    (hnames.enlarge hw (.newFrame w (rangeBindings made n bound) globalFrame)) rfl
  rw [bigStep_rangeInto_iff hopen hdepth hw hnames, if_pos (decide_eq_true h)]
  generalize w.newFrame (rangeBindings made n bound) globalFrame = w₁ at *
  have hmore : made.map Value.int ++ [Value.int n] = (made ++ [n]).map Value.int := by simp
  have happend : BigStep (.expr (depth + 1) w.nextFrame (call "append" [.symbol "n",
      .symbol "acc"])) w₁ (.ok (.list ((made ++ [n]).map .int))) w₁ := by
    rw [← hmore]
    exact bigStep_apply_binary .append nofun hdepth (hsees.binary hopen .append (by decide))
      (hframe.bound rfl) (hframe.bound rfl) fun _ _ => rfl
  have hnext : (successor n).map Value.int = .ok (.int (Int64.ofInt (n.toInt + 1))) := by
    have hmax := bound.toInt_le
    rw [successor, if_pos (by omega)]
    rfl
  have hincrement : BigStep (.expr (depth + 1) w.nextFrame (call "++" [.symbol "n"])) w₁
      (.ok (.int (Int64.ofInt (n.toInt + 1)))) w₁ := by
    rw [← hnext]
    exact bigStep_apply_unary .increment hdepth (hsees.unary hopen .increment (by decide))
      (hframe.bound rfl) (increment_ends n)
  have hlimit : BigStep (.expr (depth + 1) w.nextFrame (.symbol "to")) w₁ (.ok (.int bound)) w₁ :=
    .expr_symbol (by omega) (hframe.bound rfl)
  exact bigStep_apply_closure_iff (by omega) rfl (hsees.entry hopen (i := 8) rfl (by decide))
    (.exprsCons happend (.exprsCons hincrement (.exprs_one hlimit))) rfl

omit hw hnames in
theorem exists_bigStep_rangeInto (bound : Int64) (k : Nat) {n : Int64}
    (hk : (bound.toInt - n.toInt).toNat = k) (made : List Int64) {w : World}
    (hw : globalFrame < w.nextFrame) (hnames : w.KeepsNames rangeNames w₀) :
    ∃ w', w.Enlarges w' ∧ BigStep (.expr depth w.nextFrame rangeInto.body)
      (w.newFrame (rangeBindings made n bound) globalFrame)
      (.ok (.list ((made ++ integers n bound).map .int))) w' := by
  have hlarger := World.Enlarges.newFrame w (rangeBindings made n bound) globalFrame
  induction k generalizing n made w with
  | zero =>
    have hle : bound.toInt ≤ n.toInt := by omega
    refine ⟨_, hlarger, ?_⟩
    rw [integers_of_le hle, List.append_nil]
    exact bigStep_rangeInto_of_le hopen hdepth hw hnames hle
  | succ k ih =>
    have hlt : n.toInt < bound.toInt := by omega
    have hmin := n.minValue_le_toInt
    have hmax := bound.toInt_le
    have hnext : (Int64.ofInt (n.toInt + 1)).toInt = n.toInt + 1 :=
      InRange.toInt_ofInt ⟨by omega, by omega⟩
    obtain ⟨w', hrest, hends⟩ := ih (n := Int64.ofInt (n.toInt + 1)) (by omega) (made ++ [n])
      (Nat.lt_of_lt_of_le hw hlarger.le) (hnames.enlarge hw hlarger) (.newFrame _ _ _)
    rw [List.append_assoc, List.singleton_append, ← integers_of_lt hlt] at hends
    exact ⟨w', hlarger.trans hrest,
      (bigStep_rangeInto_iff_of_lt hopen hdepth hw hnames hlt).2 hends⟩

theorem exists_bigStep_range (a b : Int64) :
    ∃ w', w.Enlarges w' ∧ BigStep (.expr depth w.nextFrame range.body)
      (w.newFrame [("from", .int a), ("to", .int b)] globalFrame)
      (.ok (.list ((integers a b).map .int))) w' := by
  have hframe : (w.newFrame [("from", .int a), ("to", .int b)] globalFrame).HasFrame w.nextFrame
      [("from", .int a), ("to", .int b)] globalFrame := World.hasFrame_newFrame hw
  have hlarger := World.Enlarges.newFrame w [("from", .int a), ("to", .int b)] globalFrame
  have hkept := hnames.enlarge hw hlarger
  have hoperands : BigStep (.exprs depth w.nextFrame [.quoted .nil, .symbol "from", .symbol "to"])
      (w.newFrame [("from", .int a), ("to", .int b)] globalFrame) (.ok [.nil, .int a, .int b])
      (w.newFrame [("from", .int a), ("to", .int b)] globalFrame) :=
    .exprsCons (.within (by omega) .quote) (.exprsCons (.expr_symbol (by omega) (hframe.bound rfl))
      (.exprs_one (.expr_symbol (by omega) (hframe.bound rfl))))
  obtain ⟨w', hrest, hends⟩ := exists_bigStep_rangeInto hopen hdepth b _ rfl []
    (Nat.lt_of_lt_of_le hw hlarger.le) hkept
  have hsees := hframe.sees hkept rfl
  exact ⟨w', hlarger.trans hrest, (bigStep_apply_closure_iff (by omega) rfl
    (hsees.entry hopen (i := 8) rfl (by decide)) hoperands rfl).2 hends⟩

end

end Library

/-- `range` of a standard session applied to two integers makes the list of the integers from the
first on that are below the second, in increasing order, and nothing else. It never fails, however
many there are and whatever the integers. -/
theorem range_application {w₀ w w₁ : World} (hopen : Opened w₀) {depth : Nat}
    (hdepth : depth + 2 < maxEvalDepth) {frame : FrameId} {head : Value} {operands : List Value}
    (hready : Ready w frame (.list (head :: operands))) {a b : Int64}
    (happlies : AppliesNamed w₀ "range" depth frame head operands w [.int a, .int b] w₁)
    (hnames : w₁.KeepsNames rangeNames w₀) :
    ∃ ns : List Int64, ns.map Int64.toInt =
        (List.range (b.toInt - a.toInt).toNat).map (fun i : Nat => a.toInt + i) ∧
      Computes depth frame (.list (head :: operands)) w (.ok (.list (ns.map .int))) w₁ := by
  replace happlies := happlies.entry hopen (i := 9) rfl
  have hw := (hready.applies happlies).global.1
  exact ⟨integers a b, toInt_integers a b, happlies.computes (by omega) rfl
    (exists_bigStep_range hopen hdepth hw hnames a b)⟩

theorem range_application_greatest : ∃ w w', Opened w ∧
    EvalEnds 0 globalFrame (call "range" [.int (Int64.maxValue - 2), .int Int64.maxValue]) w
      (.ok (.list [.int (Int64.maxValue - 2), .int (Int64.maxValue - 1)])) w' := by
  have hopen : Opened (installAll entries (start (.standard "") ⟨[], ""⟩ .empty)) :=
    opened_iff.2 ⟨_, _, _, rfl⟩
  generalize installAll entries _ = w at hopen
  have hready : Ready w globalFrame
      (call "range" [.int (Int64.maxValue - 2), .int Int64.maxValue]) :=
    hopen.ready (.refl w) (by simp [call, Value.int, Value.Within.list_iff, Value.Within.symbol,
      Value.Within.number])
  have happlies : AppliesNamed w "range" 0 globalFrame (.symbol "range")
      [.int (Int64.maxValue - 2), .int Int64.maxValue] w
      [.int (Int64.maxValue - 2), .int Int64.maxValue] w :=
    hopen.appliesNamed (i := 9) rfl (by decide) rfl
      (.exprsCons (.expr_int (by decide) _) (.exprs_one (.expr_int (by decide) _)))
  have hdepth : 0 + 2 < maxEvalDepth := by decide
  obtain ⟨ns, hns, w', -, hends⟩ := range_application hopen hdepth hready happlies fun _ _ => rfl
  have hlist : ns.map Int64.toInt =
      [Int64.maxValue - 2, Int64.maxValue - 1].map Int64.toInt := hns.trans (by decide)
  obtain rfl := List.map_injective_iff.2 (fun _ _ => Int64.toInt_inj.1) hlist
  exact ⟨w, w', hopen, (hends _ _).2 ⟨rfl, rfl⟩⟩

end Lisplet
