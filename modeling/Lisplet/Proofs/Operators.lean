import Lisplet.Proofs.Equality
import Lisplet.Proofs.Ranges

/-! Operators applied to integers, in a frame where the names of the operators have the meaning that
a registry gives them. As long as the result is in the range it is the result for integers without
bounds. -/
namespace Lisplet
open Library

def Value.integer (i : Int) : Value := .int (Int64.ofInt i)

theorem Value.integer_toInt (n : Int64) : integer n.toInt = .int n := by
  rw [integer, Int64.ofInt_toInt]

namespace Binary
variable {apply : Applier} {w : World} {i j : Int} (hi : InRange i) (hj : InRange j)
include hi hj

theorem ends_equal_integers :
    (equal.run apply (.integer i) (.integer j)).Ends w (.ok (.bool (decide (i = j)))) w := by
  have hsame : (Value.integer i).same (.integer j) = decide (i = j) := by
    have hinj : Int64.ofInt i = Int64.ofInt j ↔ i = j := by
      rw [← Int64.toInt_inj, hi.toInt_ofInt, hj.toInt_ofInt]
    have hnumbers : (Value.integer i).equal (.integer j) =
        (Int64.ofInt i == Int64.ofInt j) := rfl
    rw [Value.same_eq_equal, hnumbers, Bool.eq_iff_iff, beq_iff_eq, decide_eq_true_iff, hinj]
  rw [← hsame]
  rfl

theorem ends_less_integers :
    ((compare .less).run apply (.integer i) (.integer j)).Ends w
      (.ok (.bool (decide (i < j)))) w := by
  have hholds := holds_less (Int64.ofInt i).toInt (Int64.ofInt j).toInt
  rw [hi.toInt_ofInt, hj.toInt_ofInt] at hholds
  rw [← hholds]
  have hcompare : Number.compare? (.int (Int64.ofInt i)) (.int (Int64.ofInt j)) =
      some (Ord.compare i j) := by
    rw [Number.compare?, hi.toInt_ofInt, hj.toInt_ofInt]
  rw [← hcompare]
  rfl

theorem ends_add_integers (h : InRange (i + j)) :
    (add.run apply (.integer i) (.integer j)).Ends w (.ok (.integer (i + j))) w := by
  have hrun : add.run apply (.integer i) (.integer j) =
      Run.arithmetic (Number.add (.int (Int64.ofInt i)) (.int (Int64.ofInt j))) := rfl
  rw [hrun, Number.add, Number.combine_ofInt hi hj h]
  rfl

theorem ends_sub_integers (h : InRange (i - j)) :
    (sub.run apply (.integer i) (.integer j)).Ends w (.ok (.integer (i - j))) w := by
  have hrun : sub.run apply (.integer i) (.integer j) =
      Run.arithmetic (Number.sub (.int (Int64.ofInt i)) (.int (Int64.ofInt j))) := rfl
  rw [hrun, Number.sub, Number.combine_ofInt hi hj h]
  rfl

end Binary

namespace World
variable {w w' : World} {id parent : FrameId} {meanings : List (String × Value)}

theorem Enlarges.local?_eq (h : w.Enlarges w') (hid : id < w.nextFrame) (name : String) :
    w'.store.local? id name = w.store.local? id name := by
  rw [Store.local?, Store.local?, h.frames id hid]

theorem Enlarges.lookup?_eq (h : w.Enlarges w') (hid : id < w.nextFrame) (name : String) :
    w'.store.lookup? id name = w.store.lookup? id name := by
  refine Store.lookup?_congr (fun other hother => h.local?_eq hother name)
    (fun other hother => ?_) hid
  rw [Store.parent?, Store.parent?, h.frames other hother]

def Means (w : World) (id : FrameId) (meanings : List (String × Value)) : Prop :=
  ∀ p ∈ meanings, w.store.lookup? id p.1 = some p.2

namespace Means

theorem cons {p : String × Value} (hp : w.store.lookup? id p.1 = some p.2)
    (h : w.Means id meanings) : w.Means id (p :: meanings) :=
  List.forall_mem_cons.2 ⟨hp, h⟩

theorem head {p : String × Value} (h : w.Means id (p :: meanings)) :
    w.store.lookup? id p.1 = some p.2 :=
  h p (.head _)

theorem tail {p : String × Value} (h : w.Means id (p :: meanings)) : w.Means id meanings :=
  fun q hq => h q (.tail _ hq)

theorem enlarge (h : w.Means id meanings) (hid : id < w.nextFrame) (hw : w.Enlarges w') :
    w'.Means id meanings :=
  fun p hp => (hw.lookup?_eq hid p.1).trans (h p hp)

theorem inside (h : w.Means parent meanings) {bindings : List (String × Value)}
    (hframe : w.HasFrame id bindings parent)
    (hothers : ((meanings.map Prod.fst).all fun name =>
      ((Std.TreeMap.ofList bindings)[name]?).isNone) = true) : w.Means id meanings := by
  intro p hp
  have hother := Option.isNone_iff_eq_none.1
    (List.all_eq_true.1 hothers p.1 (List.mem_map_of_mem hp))
  rw [hframe.lookup?_eq, hother, Option.none_or]
  exact h p hp

end Means

end World

/-- What some names of a registry mean: the operators on integers, and truth. -/
def operators : List (String × Value) :=
  [("=", .builtin (.binary .equal)), ("<", .builtin (.binary (.compare .less))),
    ("+", .builtin (.binary .add)), ("-", .builtin (.binary .sub)), ("t", .bool true)]

section
variable {depth : Nat} {frame : FrameId} {w w₁ w₂ w' : World} {a b : Value} {i j : Int}

theorem BigStep.expr_integer (hdepth : depth < maxEvalDepth) (i : Int) :
    BigStep (.expr depth frame (.integer i)) w (.ok (.integer i)) w :=
  .expr_int hdepth _

theorem BigStep.exprs_ints (hdepth : depth + 1 < maxEvalDepth) (ns : List Int64) :
    BigStep (.exprs depth frame (ns.map .int)) w (.ok (ns.map .int)) w := by
  induction ns with
  | nil => exact .exprsNil
  | cons n ns ih => exact .exprsCons (.expr_int hdepth n) ih

theorem BigStep.ite_decide {p : Prop} [Decidable p] {test thenE elseE : Value}
    {o : Except Error Value}
    (htest : BigStep (.expr (depth + 1) frame test) w (.ok (.bool (decide p))) w₁)
    (htail : BigStep (.expr depth frame (if p then thenE else elseE)) w₁ o w') :
    BigStep (.form depth frame (SpecialForm.ite.applied [test, thenE, elseE])) w o w' := by
  have hbranch : (if (Value.bool (decide p)).isTruthy then thenE else elseE) =
      if p then thenE else elseE := by simp [Value.isTruthy]
  exact .ite htest (hbranch ▸ htail)

variable (hdepth : depth + 1 < maxEvalDepth) (hnames : w.Means frame operators)
  (ha : BigStep (.expr (depth + 1) frame a) w (.ok (.integer i)) w₁)
  (hb : BigStep (.expr (depth + 1) frame b) w₁ (.ok (.integer j)) w₂)
  (hi : InRange i) (hj : InRange j)
include hdepth hnames ha hb hi hj

theorem bigStep_equal :
    BigStep (.expr depth frame (call "=" [a, b])) w (.ok (.bool (decide (i = j)))) w₂ :=
  bigStep_operator .equal nofun hdepth (hnames _ (.head _)) ha hb
    fun _ _ => Binary.ends_equal_integers hi hj

theorem bigStep_less :
    BigStep (.expr depth frame (call "<" [a, b])) w (.ok (.bool (decide (i < j)))) w₂ :=
  bigStep_operator (.compare .less) nofun hdepth (hnames _ (.tail _ (.head _))) ha hb
    fun _ _ => Binary.ends_less_integers hi hj

theorem bigStep_add (h : InRange (i + j)) :
    BigStep (.expr depth frame (call "+" [a, b])) w (.ok (.integer (i + j))) w₂ :=
  bigStep_operator .add nofun hdepth (hnames ("+", _) (by simp [operators])) ha hb
    fun _ _ => Binary.ends_add_integers hi hj h

theorem bigStep_sub (h : InRange (i - j)) :
    BigStep (.expr depth frame (call "-" [a, b])) w (.ok (.integer (i - j))) w₂ :=
  bigStep_operator .sub nofun hdepth (hnames ("-", _) (by simp [operators])) ha hb
    fun _ _ => Binary.ends_sub_integers hi hj h

end

end Lisplet
