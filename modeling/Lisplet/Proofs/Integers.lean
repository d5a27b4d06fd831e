import Mathlib.Data.Int.Basic
import Lisplet.Error

/-! Arithmetic on integers. Sums, differences and products are those of the integers without bounds
as long as these are in the range, and errors otherwise. The remainder is that of floored division:
truncated division leaves less than the divisor, so moving what it leaves to the sign of the divisor
never goes out of the range. -/
namespace Lisplet

def InRange (i : Int) : Prop := Int64.minValue.toInt ≤ i ∧ i ≤ Int64.maxValue.toInt

instance (i : Int) : Decidable (InRange i) := inferInstanceAs (Decidable (_ ∧ _))

theorem inRange_toInt (n : Int64) : InRange n.toInt := ⟨n.minValue_le_toInt, n.toInt_le⟩

theorem InRange.toInt_ofInt {i : Int} (h : InRange i) : (Int64.ofInt i).toInt = i :=
  Int64.toInt_ofInt_of_le h.1 (Int.lt_add_one_of_le h.2)

theorem InRange.below {i j : Int} (hj : InRange j) (hpos : 0 ≤ i) (hle : i ≤ j) : InRange i :=
  have hzero : InRange 0 := by decide
  ⟨Int.le_trans hzero.1 hpos, Int.le_trans hle hj.2⟩

theorem InRange.between {i j k : Int} (hi : InRange i) (hk : InRange k) (hij : i ≤ j)
    (hjk : j ≤ k) : InRange j :=
  ⟨Int.le_trans hi.1 hij, Int.le_trans hjk hk.2⟩

theorem InRange.toInt_add {m n : Int64} (h : InRange (m.toInt + n.toInt)) :
    (m + n).toInt = m.toInt + n.toInt := by
  have hsum : m + n = Int64.ofInt (m.toInt + n.toInt) := by
    rw [Int64.ofInt_add, Int64.ofInt_toInt, Int64.ofInt_toInt]
  rw [hsum, h.toInt_ofInt]

namespace Arithmetic

def exact : Arithmetic → Int → Int → Int
  | addition => (· + ·)
  | subtraction => (· - ·)
  | multiplication => (· * ·)

def run : Arithmetic → Number → Number → Except ArithmeticFault Number
  | addition => Number.add
  | subtraction => Number.sub
  | multiplication => Number.mul

theorem run_int (operation : Arithmetic) (a b : Int64) :
    operation.run (.int a) (.int b) = match Number.ofInt? (operation.exact a.toInt b.toInt) with
      | some n => .ok n
      | none => .error (.overflow operation) := by
  cases operation <;> rfl

end Arithmetic

/-- What floored division of one integer by another leaves. -/
structure IsRemainder (a b r : Int) : Prop where
  dvd : b ∣ a - r
  natAbs_lt : r.natAbs < b.natAbs
  sign : r = 0 ∨ 0 < r ∧ 0 < b ∨ r < 0 ∧ b < 0

namespace IsRemainder
variable {a b r r' : Int}

theorem unique (h : IsRemainder a b r) (h' : IsRemainder a b r') : r = r' := by
  have hdvd : b ∣ r - r' := by
    have hdiff : r - r' = (a - r') - (a - r) := by omega
    rw [hdiff]
    exact Int.dvd_sub h'.dvd h.dvd
  have hlt : (r - r').natAbs < b.natAbs := by
    have hr := h.natAbs_lt
    have hr' := h'.natAbs_lt
    have hs := h.sign
    have hs' := h'.sign
    omega
  have hzero := Int.eq_zero_of_dvd_of_natAbs_lt_natAbs hdvd hlt
  omega

theorem fmod (hb : b ≠ 0) : IsRemainder a b (a.fmod b) := by
  obtain hpos | hneg : 0 < b ∨ 0 < -b := by omega
  · have hnonneg := Int.fmod_nonneg_of_pos a hpos
    have hlt := Int.fmod_lt_of_pos a hpos
    exact ⟨Int.dvd_self_sub_fmod, by omega, by omega⟩
  · have hnonneg := Int.fmod_nonneg_of_pos (-a) hneg
    have hlt := Int.fmod_lt_of_pos (-a) hneg
    rw [Int.neg_fmod_neg] at hnonneg hlt
    exact ⟨Int.dvd_self_sub_fmod, by omega, by omega⟩

end IsRemainder

namespace Number
variable {a b r : Int64}

theorem signsDiffer_iff : signsDiffer r b = true ↔
    r.toInt < 0 ∧ 0 ≤ b.toInt ∨ 0 < r.toInt ∧ b.toInt < 0 := by
  have hzero : r = 0 ↔ r.toInt = 0 := by rw [← Int64.toInt_inj, Int64.toInt_zero]
  simp only [signsDiffer, Bool.and_eq_true, bne_iff_ne, ne_eq, decide_eq_decide, hzero,
    Int64.lt_iff_toInt_lt, Int64.toInt_zero]
  omega

theorem inRange_add_of_signsDiffer (h : signsDiffer r b = true) :
    InRange (r.toInt + b.toInt) := by
  obtain ⟨hr, hb⟩ | ⟨hr, hb⟩ := signsDiffer_iff.1 h
  · exact (inRange_toInt r).between (inRange_toInt b) (by omega) (by omega)
  · exact (inRange_toInt b).between (inRange_toInt r) (by omega) (by omega)

theorem toInt_ne_zero (hb : b ≠ 0) : b.toInt ≠ 0 := by
  rwa [ne_eq, ← Int64.toInt_zero, Int64.toInt_inj]

theorem natAbs_toInt_mod_lt (hb : b ≠ 0) : (a % b).toInt.natAbs < b.toInt.natAbs := by
  rw [Int64.toInt_mod, Int.natAbs_tmod]
  exact Nat.mod_lt _ (Int.natAbs_pos.2 (toInt_ne_zero hb))

theorem isRemainder_modulo (hb : b ≠ 0) : IsRemainder a.toInt b.toInt (modulo a b).toInt := by
  have hne := toInt_ne_zero hb
  have hlt := natAbs_toInt_mod_lt (a := a) hb
  have hdvd : b.toInt ∣ a.toInt - (a % b).toInt := by
    rw [Int64.toInt_mod]
    exact Int.dvd_self_sub_tmod
  cases hsigns : signsDiffer (a % b) b with
  | true =>
    have hmodulo : (modulo a b).toInt = (a % b).toInt + b.toInt := by
      rw [modulo, if_pos hsigns, (inRange_add_of_signsDiffer hsigns).toInt_add]
    have hdiffer := signsDiffer_iff.1 hsigns
    rw [hmodulo]
    refine ⟨?_, by omega, by omega⟩
    rw [← Int.sub_sub]
    exact Int.dvd_sub hdvd (Int.dvd_refl _)
  | false =>
    have hmodulo : modulo a b = a % b := by
      rw [modulo, hsigns]
      rfl
    have hagree := mt signsDiffer_iff.2 (Bool.eq_false_iff.1 hsigns)
    rw [hmodulo]
    exact ⟨hdvd, hlt, by omega⟩

theorem toInt_modulo (hb : b ≠ 0) : (modulo a b).toInt = a.toInt.fmod b.toInt :=
  (isRemainder_modulo hb).unique (.fmod (toInt_ne_zero hb))

theorem mod_int (a b : Int64) : mod (int a) (int b) =
    if b = 0 then .error .moduloByZero else .ok (int (modulo a b)) := by
  simp only [mod, isZero, beq_iff_eq]

theorem ofInt?_eq_some_iff {i : Int} {n : Number} :
    ofInt? i = some n ↔ ∃ c : Int64, c.toInt = i ∧ n = int c := by
  constructor
  · intro h
    obtain ⟨hrange, heq⟩ := Option.ite_none_right_eq_some.1 h
    exact ⟨_, InRange.toInt_ofInt hrange, (Option.some.inj heq).symm⟩
  · rintro ⟨c, rfl, rfl⟩
    exact ofInt?_toInt c

theorem ofInt?_eq_none_iff_not_inRange {i : Int} : ofInt? i = none ↔ ¬ InRange i := by
  rw [ofInt?_eq_none_iff, InRange]
  omega

theorem combine_ofInt {operation : Arithmetic} {onInts : Int → Int → Int}
    {onReals : Float → Float → Float} {i j : Int} (hi : InRange i) (hj : InRange j)
    (h : InRange (onInts i j)) :
    combine operation onInts onReals (int (Int64.ofInt i)) (int (Int64.ofInt j)) =
      .ok (int (Int64.ofInt (onInts i j))) := by
  have hsome : ofInt? (onInts i j) = some (int (Int64.ofInt (onInts i j))) := if_pos h
  rw [combine, hi.toInt_ofInt, hj.toInt_ofInt, hsome]

/-- For all integers of the range: a sum, a difference or a product is the exact one, and an error
just where that is out of the range. The remainder is that of floored division, and an error just
where the divisor is zero; the sum that corrects its sign is always the exact one. -/
theorem exact_or_error (a b : Int64) :
    (∀ operation : Arithmetic,
      (∀ n, operation.run (int a) (int b) = .ok n ↔
        ∃ c : Int64, c.toInt = operation.exact a.toInt b.toInt ∧ n = int c) ∧
      ∀ e, (operation.run (int a) (int b)).mapError Error.ofArithmetic = .error e ↔
        ¬ InRange (operation.exact a.toInt b.toInt) ∧
          e = Error.eval (.arithmetic (.overflow operation))) ∧
    (∀ e, (mod (int a) (int b)).mapError Error.ofArithmetic = .error e ↔
      b = 0 ∧ e = Error.eval (.arithmetic .moduloByZero)) ∧
    (b ≠ 0 → ∃ r : Int64, mod (int a) (int b) = .ok (int r) ∧
      r.toInt = a.toInt.fmod b.toInt ∧ IsRemainder a.toInt b.toInt r.toInt) ∧
    (signsDiffer (a % b) b = true → InRange ((a % b).toInt + b.toInt) ∧
      (a % b + b).toInt = (a % b).toInt + b.toInt) ∧
    mod (int Int64.minValue) (int (-1)) = .ok (int 0) := by
  refine ⟨fun operation => ⟨fun n => ?_, fun e => ?_⟩, fun e => ?_, fun hb => ?_, fun h => ?_, ?_⟩
  · rw [operation.run_int, ← ofInt?_eq_some_iff]
    cases ofInt? (operation.exact a.toInt b.toInt) <;> simp
  · rw [operation.run_int, ← ofInt?_eq_none_iff_not_inRange]
    cases ofInt? (operation.exact a.toInt b.toInt) <;>
      simp [Except.mapError, Error.ofArithmetic, eq_comm]
  · rw [mod_int]
    split <;> simp_all [Except.mapError, Error.ofArithmetic, eq_comm]
  · exact ⟨modulo a b, by rw [mod_int, if_neg hb], toInt_modulo hb, isRemainder_modulo hb⟩
  · have hrange := inRange_add_of_signsDiffer h
    exact ⟨hrange, hrange.toInt_add⟩
  · have hzero : modulo Int64.minValue (-1) = 0 := by decide
    rw [mod_int, if_neg (by decide), hzero]

theorem exact_or_error_extremes :
    (∃ r : Int64, mod (int Int64.maxValue) (int Int64.minValue) = .ok (int r) ∧ r.toInt = -1 ∧
      IsRemainder Int64.maxValue.toInt Int64.minValue.toInt r.toInt) ∧
    InRange ((Int64.maxValue % Int64.minValue).toInt + Int64.minValue.toInt) ∧
    Arithmetic.addition.run (int Int64.maxValue) (int Int64.minValue) = .ok (int (-1)) ∧
    (Arithmetic.multiplication.run (int Int64.maxValue) (int Int64.minValue)).mapError
      Error.ofArithmetic = .error (.eval (.arithmetic (.overflow .multiplication))) := by
  obtain ⟨hoperations, -, hmod, hcorrected, -⟩ := exact_or_error Int64.maxValue Int64.minValue
  obtain ⟨r, hr, hfloored, hremainder⟩ := hmod (by decide)
  have hsum := (hoperations .addition).1 (int (-1))
  have hproduct := (hoperations .multiplication).2 (.eval (.arithmetic (.overflow .multiplication)))
  exact ⟨⟨r, hr, hfloored.trans (by decide), hremainder⟩, (hcorrected (by decide)).1,
    hsum.2 ⟨-1, by decide, rfl⟩, hproduct.2 ⟨by decide, rfl⟩⟩

end Number

end Lisplet
