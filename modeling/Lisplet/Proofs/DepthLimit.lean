import Lisplet.Proofs.Definitions

/-! Recursion that is not in tail position. Every call stands one level deeper than the one before,
so the greatest depth bounds how far it goes, and beyond that it fails with nothing done. -/
namespace Lisplet
open Library Session Countdown

theorem bigStep_call_tooDeep {depth : Nat} {frame : FrameId} {name : String} {operands : List Value}
    {w : World} (hdepth : maxEvalDepth ≤ depth + 1) (hform : SpecialForm.ofName? name = none) :
    BigStep (.expr depth frame (call name operands)) w (.error .tooDeep) w := by
  by_cases hroom : depth < maxEvalDepth
  · exact .within hroom (.headError hform (.tooDeep hdepth))
  · exact .tooDeep (Nat.not_lt.1 hroom)

namespace Deep

/-- A procedure that adds up to its argument, one call for every number. -/
def definition : Definition where
  name := "deep"
  params := ["n"]
  body := SpecialForm.ite.applied [test, .int 0, call "+" [.int 1, call "deep" [next]]]
  nodup := List.nodup_singleton "n"

def source : String := "(define deep (lambda (n) (if (= n 0) 0 (+ 1 (deep (- n 1))))))"

set_option maxRecDepth 100000 in
theorem parseAll_source : Value.parseAll {} source = .ok [definition.expression] :=
  parseAll_of_readsAs rfl (by decide +kernel)

def outcome (depth n : Nat) : Except Error Value :=
  if depth + n + 2 < maxEvalDepth then .ok (.integer n) else .error .tooDeep

section
variable {k n depth : Nat} {id : FrameId} {w : World}

theorem bigStep_body_tooDeep (hdepth : maxEvalDepth ≤ depth + 2) :
    BigStep (.expr depth id definition.body) w (.error .tooDeep) w := by
  by_cases hroom : depth < maxEvalDepth
  · exact .within hroom (.iteError (bigStep_call_tooDeep hdepth rfl))
  · exact .tooDeep (Nat.not_lt.1 hroom)

variable (hdepth : depth + 2 < maxEvalDepth)
  (hnames : w.Means id (("deep", .closure (definition.closure k)) :: operators))
  (hn : InRange (n + 1))
include hdepth hnames hn

theorem computes_next_call (hbound : w.store.lookup? id "n" = some (.integer (n + 1)))
    (h : CallComputes (depth + 1) (.closure (definition.closure k)) [.integer n] w
      (outcome (depth + 1) n)) :
    Computes (depth + 1) id (call "deep" [next]) w (outcome (depth + 1) n) w := by
  by_cases hroom : depth + 2 + 1 < maxEvalDepth
  · have hbefore : (n : Int) + 1 - 1 = n := by omega
    have hnext := bigStep_next hroom hbound hnames.tail hn
      (hn.below (by omega) (by omega))
    rw [hbefore] at hnext
    exact h.apply hdepth rfl hnames.head (.exprs_one hnext)
  · rw [outcome, if_neg (by omega)]
    have hnext : BigStep (.expr (depth + 2) id next) w (.error .tooDeep) w :=
      bigStep_call_tooDeep (Nat.not_lt.1 hroom) rfl
    exact .of_bigStep (.within (by omega)
      (.argumentError rfl (.expr_symbol hdepth hnames.head) (.exprsError hnext)))

theorem computes_sum {e : Value} (h : Computes (depth + 1) id e w (outcome (depth + 1) n) w) :
    Computes depth id (call "+" [.int 1, e]) w (outcome depth (n + 1)) w := by
  have hinner : depth + 1 < maxEvalDepth := by omega
  obtain ⟨w', hlarger, h⟩ := computes_iff_bigStep.1 h
  refine computes_iff_bigStep.2 ⟨w', hlarger, ?_⟩
  by_cases hroom : depth + 1 + n + 2 < maxEvalDepth
  · have hsum : (1 : Int) + n = (n + 1 : Nat) := by omega
    rw [outcome, if_pos hroom] at h
    rw [outcome, if_pos (by omega), ← hsum]
    exact bigStep_add hinner hnames.tail (.expr_integer hinner 1) h (by decide)
      (hn.below (by omega) (by omega)) (by rwa [hsum])
  · have hplus : w.store.lookup? id "+" = some (.builtin (.binary .add)) :=
      hnames.tail ("+", _) (by simp [operators])
    rw [outcome, if_neg hroom] at h
    rw [outcome, if_neg (by omega)]
    exact .within (by omega) (.argumentError rfl (.expr_symbol hinner hplus)
      (.exprsRest (.expr_int hinner 1) (.exprsError h)))

end

/-- By induction on the argument. The call for the next number stands one level deeper. -/
theorem callComputes {w₀ : World} {k : Nat} (hc : w₀.Recursive "deep" (definition.closure k))
    {n : Nat} (hn : InRange n) (depth : Nat) {w : World} (hw : w₀.Enlarges w) :
    CallComputes depth (.closure (definition.closure k)) [.integer n] w (outcome depth n) := by
  induction n generalizing depth w with
  | zero =>
    refine hc.computes hw rfl rfl fun w₁ id hlarger hframe hnames => ?_
    by_cases hdepth : depth + 2 < maxEvalDepth
    · rw [outcome, if_pos hdepth]
      exact computes_ite_test hdepth (hframe.bound rfl) hnames.tail hn
        (.of_bigStep (.expr_integer (by omega) 0))
    · rw [outcome, if_neg hdepth]
      exact .of_bigStep (bigStep_body_tooDeep (Nat.not_lt.1 hdepth))
  | succ n ih =>
    have hbefore : InRange n := hn.below (by omega) (by omega)
    refine hc.computes hw rfl rfl fun w₁ id hlarger hframe hnames => ?_
    by_cases hdepth : depth + 2 < maxEvalDepth
    · refine computes_ite_test hdepth (hframe.bound rfl) hnames.tail hn ?_
      rw [if_neg (by omega)]
      exact computes_sum hdepth hnames hn (computes_next_call hdepth hnames hn (hframe.bound rfl)
        (ih hbefore (depth + 1) (hw.trans hlarger)))
    · rw [outcome, if_neg (by omega)]
      exact .of_bigStep (bigStep_body_tooDeep (Nat.not_lt.1 hdepth))

end Deep

/-- The greatest depth cuts a recursion that is not in tail position at exactly one place. Let the
procedure be defined, and let frames and closures have been made since. Applied from a depth to an
integer from zero on, in a frame that sees it, the procedure comes to the integer if the depth, the
integer and two levels more stay below the greatest depth, and is too deep otherwise. Either way
nothing but frames and closures has been made, and the global frame binds what it did. -/
theorem non_tail_recursion {w₀ : World} (hw₀ : w₀.Standard) : ∃ w,
    Run.Settles (load · {} Deep.source) w₀ (.ok (.symbol "deep")) w ∧
    ∀ w₁ frame, w.Enlarges w₁ →
      w₁.store.lookup? frame "deep" = w₁.store.lookup? globalFrame "deep" →
      ∀ (n : Int64) (depth : Nat), 0 ≤ n.toInt →
        Computes depth frame (call "deep" [.int n]) w₁
          (if depth + n.toInt.toNat + 2 < maxEvalDepth then .ok (.int n) else .error .tooDeep) w₁ ∧
        ∀ o w', EvalEnds depth frame (call "deep" [.int n]) w₁ o w' → ∀ name,
          w'.store.local? globalFrame name = w₁.store.local? globalFrame name := by
  have hc := Deep.definition.recursive_install hw₀
  refine ⟨_, Deep.definition.settles_load Deep.parseAll_source w₀,
    fun w₁ frame hlarger hsees n depth hn => ?_⟩
  have hname : w₁.store.lookup? frame "deep" = some (.closure (Deep.definition.closure _)) :=
    hsees.trans (hc.names.enlarge hc.exists_frame hlarger).head
  have hcast := Int.toNat_of_nonneg hn
  have hvalue : Value.integer n.toInt.toNat = .int n := by rw [hcast, Value.integer_toInt]
  have hends : Computes depth frame (call "deep" [.int n]) w₁ (Deep.outcome depth n.toInt.toNat)
      w₁ := by
    by_cases hdepth : depth + 1 < maxEvalDepth
    · have hcall := Deep.callComputes hc (hcast.symm ▸ inRange_toInt n) depth hlarger
      rw [hvalue] at hcall
      exact hcall.apply hdepth rfl hname (.exprs_one (.expr_int hdepth n))
    · rw [Deep.outcome, if_neg (by omega)]
      exact .of_bigStep (bigStep_call_tooDeep (Nat.not_lt.1 hdepth) rfl)
  rw [Deep.outcome, hvalue] at hends
  refine ⟨hends, fun o w' h name => ?_⟩
  obtain ⟨w₂, hlarger', hiff⟩ := hends
  obtain ⟨-, rfl⟩ := (hiff o w').1 h
  exact hlarger'.local?_eq (Nat.lt_of_lt_of_le hc.exists_frame hlarger.le) name

/-- The first integer that is too deep at no depth, in a session that has been opened, and what
comes of the one before it after that. -/
theorem non_tail_recursion_limit : ∃ w₀ w w₁, Opened w₀ ∧
    Run.Settles (load · {} Deep.source) w₀ (.ok (.symbol "deep")) w ∧
    EvalEnds 0 globalFrame (call "deep" [.int 254]) w (.error .tooDeep) w₁ ∧
    ∃ w₂, EvalEnds 0 globalFrame (call "deep" [.int 253]) w₁ (.ok (.int 253)) w₂ ∧
      ∀ name, w₂.store.local? globalFrame name = w.store.local? globalFrame name := by
  have hopen : Opened (installAll entries (start (.standard "") ⟨[], ""⟩ .empty)) :=
    opened_iff.2 ⟨_, _, _, rfl⟩
  obtain ⟨w, hload, hall⟩ := non_tail_recursion hopen.standard
  obtain ⟨⟨w₁, hlarger, hiff⟩, hkept⟩ := hall w globalFrame (.refl w) rfl 254 0 (by decide)
  obtain ⟨⟨w₂, -, hiff'⟩, hkept'⟩ := hall w₁ globalFrame hlarger rfl 253 0 (by decide)
  have hends : EvalEnds 0 globalFrame (call "deep" [.int 254]) w (.error .tooDeep) w₁ :=
    (hiff _ _).2 ⟨rfl, rfl⟩
  have hends' : EvalEnds 0 globalFrame (call "deep" [.int 253]) w₁ (.ok (.int 253)) w₂ :=
    (hiff' _ _).2 ⟨rfl, rfl⟩
  exact ⟨_, w, w₁, hopen, hload, hends, w₂, hends',
    fun name => (hkept' _ _ hends' name).trans (hkept _ _ hends name)⟩

end Lisplet
