import Mathlib.Algebra.Order.Field.Power
import Mathlib.Tactic.Linarith
import Mathlib.Tactic.Ring
import Mathlib.Tactic.FieldSimp
import Mathlib.Tactic.NormNum
import Lisplet.Proofs.Double

/-! Rounding to doubles: what is rounded is a rational, cut off to a mantissa with a note on what
was cut off; a rational between the midpoints around a double is rounded to that double. -/
namespace Lisplet.Rounding
open Float.Model Float.Model.UnpackedFloat Magnitude

/-- The accuracy is that of a number cut off to a whole number, with this fraction lost. -/
def Notes : Accuracy → ℚ → Prop
  | .exact, lost => lost = 0
  | .inexact .lt, lost => 0 < lost ∧ lost < 1 / 2
  | .inexact .eq, lost => lost = 1 / 2
  | .inexact .gt, lost => 1 / 2 < lost ∧ lost < 1

def Cuts (em : ExtendedMantissa) (y : ℚ) : Prop := Notes em.accuracy (y - em.mantissa)

theorem cuts_ofMantissaAndAccuracy {mantissa : Nat} {accuracy : Accuracy} {y : ℚ}
    (h : Notes accuracy (y - mantissa)) :
    Cuts (.ofMantissaAndAccuracy mantissa accuracy) y := by
  match accuracy, h with
  | .exact, h => exact h
  | .inexact .lt, h => exact h
  | .inexact .eq, h => exact h
  | .inexact .gt, h => exact h

theorem Cuts.shiftRightOne {em : ExtendedMantissa} {y : ℚ} (h : Cuts em y) :
    Cuts em.shiftRightOne (y / 2) := by
  obtain ⟨mantissa, roundBit, stickyBit⟩ := em
  obtain ⟨half, bit, rfl⟩ : ∃ half, ∃ bit : Bool, mantissa = 2 * half + bit.toNat := by
    refine ⟨mantissa / 2, mantissa % 2 == 1, ?_⟩
    obtain hbit | hbit := Nat.mod_two_eq_zero_or_one mantissa
    · simp [hbit]
      omega
    · simp [hbit]
      omega
  have hhalf : (2 * half + bit.toNat) / 2 = half := by
    have := bit.toNat_le
    omega
  have hbit : ((2 * half + bit.toNat) % 2 != 0) = bit := by cases bit <;> simp
  simp only [Cuts, ExtendedMantissa.shiftRightOne, hhalf, hbit] at h ⊢
  push_cast at h
  -- The old round bit and sticky bit together tell on which side of the new half the rest lies.
  cases bit <;> cases roundBit <;> cases stickyBit <;>
    simp only [Notes, ExtendedMantissa.accuracy, Bool.or_false, Bool.or_true, Bool.toNat_false,
      Bool.toNat_true, Nat.cast_zero, Nat.cast_one] at h ⊢ <;>
    first | linarith | constructor <;> linarith

theorem Cuts.shiftRight {em : ExtendedMantissa} {y : ℚ} (h : Cuts em y) (n : Nat) :
    Cuts (em >>> n) (y / 2 ^ n) := by
  induction n with
  | zero =>
    rw [pow_zero, div_one]
    exact h
  | succ n ih =>
    have hpow : y / 2 ^ (n + 1) = y / 2 ^ n / 2 := by rw [pow_succ, div_div]
    rw [hpow]
    exact ih.shiftRightOne

theorem Cuts.roundedMantissa_eq {em : ExtendedMantissa} {y : ℚ} (h : Cuts em y) {n : Nat}
    (hlow : n - 1 / 2 ≤ y) (hhigh : y ≤ n + 1 / 2)
    (hodd : n % 2 = 1 → y ≠ n - 1 / 2 ∧ y ≠ n + 1 / 2) : em.roundedMantissa = n := by
  obtain ⟨mantissa, roundBit, stickyBit⟩ := em
  have hle (a b : Nat) (hlt : (a : ℚ) < b + 1) : a ≤ b := by
    have : a < b + 1 := by exact_mod_cast hlt
    omega
  cases roundBit <;> cases stickyBit <;>
    simp only [Cuts, Notes, ExtendedMantissa.accuracy] at h <;>
    simp only [ExtendedMantissa.roundedMantissa, ExtendedMantissa.accuracy,
      Accuracy.roundToNearestEven]
  · exact Nat.le_antisymm (hle _ _ (by linarith)) (hle _ _ (by linarith))
  · exact Nat.le_antisymm (hle _ _ (by linarith)) (hle _ _ (by linarith))
  · -- Halfway between two mantissas the number rounded to is the even one.
    have hbelow : mantissa ≤ n := hle _ _ (by linarith)
    have habove : n ≤ mantissa + 1 := hle _ _ (by push_cast; linarith)
    obtain rfl | rfl : n = mantissa ∨ n = mantissa + 1 := by omega
    · have heven : n % 2 ≠ 1 := fun hn => (hodd hn).2 (by linarith)
      omega
    · have heven : (mantissa + 1) % 2 ≠ 1 := fun hn => (hodd hn).1 (by push_cast; linarith)
      omega
  · have hbelow : mantissa + 1 ≤ n := hle _ _ (by push_cast; linarith)
    have habove : n ≤ mantissa + 1 := hle _ _ (by push_cast; linarith)
    exact Nat.le_antisymm hbelow habove

/-- How far below the double the midpoint lies, in units of its last place. Below a power of two the
doubles are twice as dense, except at the least exponent. -/
def below (m : Nat) (q : Int) : ℚ := if m = 2 ^ 52 ∧ -1074 < q then 1 / 4 else 1 / 2

/-- The rational lies between the midpoints around the double; the midpoints go with an even
mantissa. -/
structure RoundsTo (x : ℚ) (m : Nat) (q : Int) : Prop where
  low : (m - below m q) * 2 ^ q ≤ x
  high : x ≤ (m + 1 / 2) * 2 ^ q
  odd : m % 2 = 1 → x ≠ (m - below m q) * 2 ^ q ∧ x ≠ (m + 1 / 2) * 2 ^ q

theorem targetExponent_eq (m : Nat) (e : Int) :
    Format.binary64.targetExponent (totalExponent m e) = max (m.log2 + e - 52) (-1074) := by
  simp only [Format.targetExponent, totalExponent, Format.mantissaBits, Format.minExponent]
  omega

theorem cuts_shiftToTargetExponent {mantissa : Nat} {exponent : Int} {accuracy : Accuracy} {x : ℚ}
    (hnotes : Notes accuracy (x / 2 ^ exponent - mantissa)) {target : Int}
    (htarget : max ((mantissa.log2 : Int) + exponent - 52) (-1074) = target)
    (hle : exponent ≤ target) :
    ∃ em, shiftToTargetExponent Format.binary64 mantissa exponent accuracy = (em, target) ∧
      Cuts em (x / 2 ^ target) := by
  have hshift : exponent + ((target - exponent).toNat : Int) = target := by omega
  refine ⟨ExtendedMantissa.ofMantissaAndAccuracy mantissa accuracy >>>
    (target - exponent).toNat, ?_, ?_⟩
  · simp only [shiftToTargetExponent, shiftToExponent, targetExponent_eq, htarget, hshift]
  · have hcuts := (cuts_ofMantissaAndAccuracy hnotes).shiftRight (target - exponent).toNat
    rw [div_div, ← zpow_natCast, ← zpow_add₀ two_ne_zero, hshift] at hcuts
    exact hcuts

theorem shiftToTargetExponent_of_canonical {m : Nat} {q : Int} (h : Canonical m q) :
    shiftToTargetExponent Format.binary64 m q .exact = (⟨m, false, false⟩, q) := by
  have hlog : m.log2 < 53 := (Nat.log2_lt h.pos.ne').2 h.lt
  have htarget : max ((m.log2 : Int) + q - 52) (-1074) = q := by
    obtain hfull | hleast := h.full
    · have hlog' : 52 ≤ m.log2 := (Nat.le_log2 h.pos.ne').2 hfull
      have := h.least_le
      omega
    · omega
  simp only [shiftToTargetExponent, shiftToExponent, targetExponent_eq, htarget, Int.sub_self,
    Int.toNat_zero, Nat.cast_zero, Int.add_zero]
  rfl

theorem shiftToTargetExponent_overflow {q : Int} (h : -1074 < q) :
    shiftToTargetExponent Format.binary64 (2 ^ 53) (q - 1) .exact =
      (⟨2 ^ 52, false, false⟩, q) := by
  have htarget : max (((2 ^ 53 : Nat).log2 : Int) + (q - 1) - 52) (-1074) = q := by
    rw [Nat.log2_two_pow]
    omega
  have hone : (q - (q - 1)).toNat = 1 := by omega
  simp only [shiftToTargetExponent, shiftToExponent, targetExponent_eq, htarget, hone]
  refine Prod.ext rfl ?_
  simp

theorem Notes.nonneg {accuracy : Accuracy} {lost : ℚ} (h : Notes accuracy lost) :
    0 ≤ lost ∧ lost < 1 := by
  match accuracy, h with
  | .exact, h =>
    rw [Notes] at h
    rw [h]
    norm_num
  | .inexact .lt, h => exact ⟨h.1.le, by linarith [h.2]⟩
  | .inexact .eq, h =>
    rw [Notes] at h
    rw [h]
    norm_num
  | .inexact .gt, h => exact ⟨by linarith [h.1], h.2⟩

theorem below_pos (m : Nat) (q : Int) : 0 < below m q ∧ below m q ≤ 1 / 2 := by
  unfold below
  split <;> norm_num

section
variable {x : ℚ} {m : Nat} {q : Int} (hx : RoundsTo x m q) (h : Canonical m q)
include hx h

theorem RoundsTo.pos : 0 < x := by
  have hm : (1 : ℚ) ≤ m := by exact_mod_cast h.pos
  refine lt_of_lt_of_le ?_ hx.low
  exact mul_pos (by linarith [(below_pos m q).2]) (by positivity)

/-- The exponent that a rational is cut off to is that of its double, or one less just below a power
of two. -/
theorem targetExponent_of_order {t : Int} (hlow : (2 : ℚ) ^ t ≤ x) (hhigh : x < 2 ^ (t + 1)) :
    max (t - 52) (-1074) = q ∨
      max (t - 52) (-1074) = q - 1 ∧ -1074 < q ∧ m = 2 ^ 52 ∧ x < 2 ^ 52 * 2 ^ q := by
  have hq : (0 : ℚ) < 2 ^ q := by positivity
  have hleast := h.least_le
  have hlt (a b : Int) (hab : (2 : ℚ) ^ a < 2 ^ b) : a < b :=
    (zpow_lt_zpow_iff_right₀ one_lt_two).1 hab
  have hm : (m : ℚ) + 1 ≤ 2 ^ 53 := by exact_mod_cast h.lt
  have htop : t < 53 + q := by
    refine hlt _ _ (lt_of_le_of_lt (hlow.trans hx.high) ?_)
    rw [zpow_add₀ two_ne_zero]
    have : ((m : ℚ) + 1 / 2) < 2 ^ (53 : Int) := by
      norm_num at hm ⊢
      linarith
    exact mul_lt_mul_of_pos_right this hq
  -- From `2 ^ 52 * 2 ^ q` on the order is that of all mantissas with exponent `q`.
  by_cases hbig : 2 ^ 52 * 2 ^ q ≤ x
  · have hfull : 52 + q < t + 1 := by
      refine hlt _ _ (lt_of_le_of_lt ?_ hhigh)
      rw [zpow_add₀ two_ne_zero]
      exact hbig
    left
    omega
  · have hsmall : x < 2 ^ 52 * 2 ^ q := not_le.1 hbig
    have hbelow : t < 52 + q := by
      refine hlt _ _ (lt_of_le_of_lt hlow ?_)
      rw [zpow_add₀ two_ne_zero]
      exact hsmall
    by_cases hq' : q = -1074
    · left
      omega
    · have hfull : 2 ^ 52 ≤ m := h.full.resolve_right hq'
      have hleast' : -1074 < q := by omega
      have hmlt : (m : ℚ) - below m q < 2 ^ 52 :=
        lt_of_mul_lt_mul_right (lt_of_le_of_lt hx.low hsmall) hq.le
      have hpower : m = 2 ^ 52 := by
        have hle : (m : ℚ) < 2 ^ 52 + 1 := by linarith [(below_pos m q).2]
        have : m < 2 ^ 52 + 1 := by exact_mod_cast hle
        omega
      have hhalf : 51 + q < t + 1 := by
        refine hlt _ _ (lt_of_le_of_lt ?_ hhigh)
        rw [zpow_add₀ two_ne_zero]
        refine le_trans ?_ hx.low
        refine mul_le_mul_of_nonneg_right ?_ hq.le
        have := (below_pos m q).2
        rw [hpower] at this ⊢
        norm_num at this ⊢
        linarith
      right
      exact ⟨by omega, hleast', hpower, hsmall⟩

omit h in
theorem roundedMantissa_eq_self {em : ExtendedMantissa} (hcuts : Cuts em (x / 2 ^ q)) :
    em.roundedMantissa = m := by
  have hq : (0 : ℚ) < 2 ^ q := by positivity
  have hbelow := (below_pos m q).2
  refine hcuts.roundedMantissa_eq ?_ ((div_le_iff₀ hq).2 hx.high) fun hodd => ?_
  · have := (le_div_iff₀ hq).2 hx.low
    linarith
  · have hhalf : below m q = 1 / 2 := by
      refine if_neg fun hpower => ?_
      rw [hpower.1] at hodd
      norm_num at hodd
    obtain ⟨hlow, hhigh⟩ := hx.odd hodd
    rw [hhalf] at hlow
    exact ⟨fun heq => hlow ((div_eq_iff hq.ne').1 heq),
      fun heq => hhigh ((div_eq_iff hq.ne').1 heq)⟩

omit h in
theorem roundedMantissa_eq_overflow {em : ExtendedMantissa} (hcuts : Cuts em (x / 2 ^ (q - 1)))
    (hleast : -1074 < q) (hm : m = 2 ^ 52) (hsmall : x < 2 ^ 52 * 2 ^ q) :
    em.roundedMantissa = 2 ^ 53 := by
  have hq : (0 : ℚ) < 2 ^ (q - 1) := by positivity
  have hdouble : (2 : ℚ) ^ q = 2 * 2 ^ (q - 1) := by
    rw [← zpow_one_add₀ two_ne_zero]
    congr 1
    omega
  have hbelow : below m q = 1 / 4 := if_pos ⟨hm, hleast⟩
  have hlow := hx.low
  rw [hbelow, hm, hdouble] at hlow
  rw [hdouble] at hsmall
  refine hcuts.roundedMantissa_eq ?_ ?_ fun hodd => by norm_num at hodd
  · rw [le_div_iff₀ hq]
    norm_num at hlow ⊢
    linarith
  · rw [div_le_iff₀ hq]
    norm_num at hsmall ⊢
    linarith

theorem roundWithAccuracy_of_roundsTo {mantissa : Nat} {exponent : Int} {accuracy : Accuracy}
    (hnotes : Notes accuracy (x / 2 ^ exponent - mantissa))
    (hbits : exponent ≤ -1074 ∨ 2 ^ 52 ≤ mantissa) (sign : Sign) :
    roundWithAccuracy Format.binary64 sign mantissa exponent accuracy =
      .finite sign m q h.pos := by
  have he : (0 : ℚ) < 2 ^ exponent := by positivity
  obtain ⟨hnonneg, hlt⟩ := hnotes.nonneg
  rw [sub_nonneg, le_div_iff₀ he] at hnonneg
  rw [sub_lt_iff_lt_add, div_lt_iff₀ he] at hlt
  have hcase : max ((mantissa.log2 : Int) + exponent - 52) (-1074) = q ∨
      max ((mantissa.log2 : Int) + exponent - 52) (-1074) = q - 1 ∧ -1074 < q ∧ m = 2 ^ 52 ∧
        x < 2 ^ 52 * 2 ^ q := by
    by_cases hzero : mantissa = 0
    · subst hzero
      have hleast : exponent ≤ -1074 := hbits.resolve_right (by norm_num)
      have hq : q = -1074 := by
        by_contra hq
        have hfull : (2 ^ 52 : ℚ) ≤ m := by exact_mod_cast h.full.resolve_right hq
        have hpow : (2 : ℚ) ^ exponent ≤ 2 ^ q :=
          zpow_le_zpow_right₀ one_le_two (hleast.trans h.least_le)
        have hlow : 1 * 2 ^ q ≤ (m - below m q) * 2 ^ q := by
          refine mul_le_mul_of_nonneg_right ?_ (by positivity)
          linarith [(below_pos m q).2]
        rw [Nat.cast_zero, add_zero, one_mul] at hlt
        linarith [hx.low]
      left
      simp only [Nat.log2_zero]
      omega
    · refine targetExponent_of_order hx h ?_ ?_
      · refine le_trans ?_ hnonneg
        rw [zpow_add₀ two_ne_zero, zpow_natCast]
        refine mul_le_mul_of_nonneg_right ?_ he.le
        exact_mod_cast Nat.log2_self_le hzero
      · refine lt_of_lt_of_le hlt ?_
        rw [add_right_comm, zpow_add₀ two_ne_zero]
        refine mul_le_mul_of_nonneg_right ?_ he.le
        have hlog : mantissa + 1 ≤ 2 ^ (mantissa.log2 + 1) := Nat.lt_log2_self
        rw [add_comm]
        exact_mod_cast hlog
  have hle : exponent ≤ max ((mantissa.log2 : Int) + exponent - 52) (-1074) := by
    obtain hleast | hfull := hbits
    · omega
    · have := (Nat.le_log2 (by omega : mantissa ≠ 0)).2 hfull
      omega
  obtain ⟨em, hshift, hcuts⟩ := cuts_shiftToTargetExponent hnotes rfl hle
  obtain htarget | ⟨htarget, hleast, hm, hsmall⟩ := hcase
  · rw [htarget] at hshift hcuts
    simp only [roundWithAccuracy, hshift, roundedMantissa_eq_self hx hcuts,
      shiftToTargetExponent_of_canonical h, h.pos.ne', dif_neg, not_false_eq_true]
  · rw [htarget] at hshift hcuts
    simp only [roundWithAccuracy, hshift, roundedMantissa_eq_overflow hx hcuts hleast hm hsmall,
      shiftToTargetExponent_overflow hleast]
    simp [hm]

end

theorem notes_accuracyOfFraction {num den : Nat} (hlt : num < den) :
    Notes (accuracyOfFraction num den) (num / den) := by
  have hden : (0 : ℚ) < den := by exact_mod_cast (Nat.zero_le num).trans_lt hlt
  unfold accuracyOfFraction
  split
  · next hzero => simp [Notes, hzero]
  · next hpos =>
    have hnum : (0 : ℚ) < num := by exact_mod_cast Nat.pos_of_ne_zero hpos
    cases hcompare : compare (2 * num) den with
    | lt =>
      have h : (2 * num : ℚ) < den := by exact_mod_cast Nat.compare_eq_lt.1 hcompare
      refine ⟨div_pos hnum hden, ?_⟩
      rw [div_lt_iff₀ hden]
      linarith
    | eq =>
      have h : (2 * num : ℚ) = den := by exact_mod_cast Nat.compare_eq_eq.1 hcompare
      rw [Notes, div_eq_iff hden.ne']
      linarith
    | gt =>
      have h : (den : ℚ) < 2 * num := by exact_mod_cast Nat.compare_eq_gt.1 hcompare
      refine ⟨?_, (div_lt_one₀ hden).2 (by exact_mod_cast hlt)⟩
      rw [lt_div_iff₀ hden]
      linarith

section
variable {m₁ m₂ m : Nat} {e₁ e₂ q : Int} (h : Canonical m q) (hm₁ : 0 < m₁) (hm₂ : 0 < m₂)

theorem mul_of_roundsTo (hx : RoundsTo (m₁ * 2 ^ e₁ * (m₂ * 2 ^ e₂)) m q)
    (hbits : 2 ^ 52 ≤ m₁ * m₂) :
    UnpackedFloat.mul Format.binary64 (.finite .positive m₁ e₁ hm₁) (.finite .positive m₂ e₂ hm₂) =
      .finite .positive m q h.pos := by
  refine roundWithAccuracy_of_roundsTo hx h ?_ (.inr hbits) .positive
  rw [Notes, zpow_add₀ two_ne_zero]
  have h₁ : (2 : ℚ) ^ e₁ ≠ 0 := by positivity
  have h₂ : (2 : ℚ) ^ e₂ ≠ 0 := by positivity
  push_cast
  field_simp
  ring

include hm₁ hm₂ in
theorem le_quotient {t : Int} (ht : t ≤ e₁ - e₂)
    (ht' : t ≤ max ((m₁.log2 : Int) + e₁ - (m₂.log2 + e₂) - 53) (-1074)) :
    t ≤ -1074 ∨ 2 ^ 52 ≤ (m₁ <<< (e₁ - e₂ - t).toNat) / m₂ := by
  by_cases hleast : t ≤ -1074
  · exact .inl hleast
  · right
    rw [Nat.le_div_iff_mul_le hm₂, Nat.shiftLeft_eq]
    have hm₂ : m₂ ≤ 2 ^ (m₂.log2 + 1) := Nat.lt_log2_self.le
    have hm₁ : 2 ^ m₁.log2 ≤ m₁ := Nat.log2_self_le hm₁.ne'
    calc 2 ^ 52 * m₂ ≤ 2 ^ 52 * 2 ^ (m₂.log2 + 1) := Nat.mul_le_mul_left _ hm₂
      _ = 2 ^ (52 + (m₂.log2 + 1)) := (Nat.pow_add ..).symm
      _ ≤ 2 ^ (m₁.log2 + (e₁ - e₂ - t).toNat) := Nat.pow_le_pow_right two_pos (by omega)
      _ = 2 ^ m₁.log2 * 2 ^ (e₁ - e₂ - t).toNat := Nat.pow_add ..
      _ ≤ m₁ * 2 ^ (e₁ - e₂ - t).toNat := Nat.mul_le_mul_right _ hm₁

theorem div_of_roundsTo (hx : RoundsTo (m₁ * 2 ^ e₁ / (m₂ * 2 ^ e₂)) m q) :
    UnpackedFloat.div Format.binary64 (.finite .positive m₁ e₁ hm₁) (.finite .positive m₂ e₂ hm₂) =
      .finite .positive m q h.pos := by
  obtain ⟨t, ht⟩ : ∃ t, min (e₁ - e₂)
      (Format.binary64.targetExponent (totalExponent m₁ e₁ - totalExponent m₂ e₂)) = t := ⟨_, rfl⟩
  have hdiv : UnpackedFloat.div Format.binary64 (.finite .positive m₁ e₁ hm₁)
      (.finite .positive m₂ e₂ hm₂) =
      roundWithAccuracy Format.binary64 .positive ((m₁ <<< (e₁ - e₂ - t).toNat) / m₂) t
        (accuracyOfFraction ((m₁ <<< (e₁ - e₂ - t).toNat) % m₂) m₂) := by
    simp only [UnpackedFloat.div, divCore, ht]
    rfl
  have hle : t ≤ e₁ - e₂ := ht ▸ Int.min_le_left ..
  have hlost : (m₁ * 2 ^ e₁ / (m₂ * 2 ^ e₂) / 2 ^ t : ℚ) -
      ((m₁ <<< (e₁ - e₂ - t).toNat / m₂ : Nat) : ℚ) =
        ((m₁ <<< (e₁ - e₂ - t).toNat % m₂ : Nat) : ℚ) / m₂ := by
    have hshift : ((m₁ <<< (e₁ - e₂ - t).toNat : Nat) : ℚ) * 2 ^ e₂ * 2 ^ t = m₁ * 2 ^ e₁ := by
      rw [Nat.shiftLeft_eq, Nat.cast_mul, Nat.cast_pow, Nat.cast_ofNat, ← zpow_natCast, mul_assoc,
        mul_assoc, ← zpow_add₀ two_ne_zero, ← zpow_add₀ two_ne_zero]
      congr 2
      omega
    have hsplit : ((m₁ <<< (e₁ - e₂ - t).toNat : Nat) : ℚ) =
        m₂ * ((m₁ <<< (e₁ - e₂ - t).toNat / m₂ : Nat) : ℚ) +
          ((m₁ <<< (e₁ - e₂ - t).toNat % m₂ : Nat) : ℚ) := by
      exact_mod_cast (Nat.div_add_mod _ m₂).symm
    have hm : (m₂ : ℚ) ≠ 0 := by exact_mod_cast hm₂.ne'
    have h₂ : (2 : ℚ) ^ e₂ ≠ 0 := by positivity
    have ht : (2 : ℚ) ^ t ≠ 0 := by positivity
    rw [← hshift, hsplit]
    field_simp
    ring
  rw [hdiv]
  refine roundWithAccuracy_of_roundsTo hx h ?_ (le_quotient hm₁ hm₂ hle ?_) .positive
  · rw [hlost]
    exact notes_accuracyOfFraction (Nat.mod_lt _ hm₂)
  · rw [← ht]
    simp only [Format.targetExponent, totalExponent, Format.mantissaBits, Format.minExponent]
    omega

end

theorem ofScientific_of_roundsTo {n m : Nat} {e q : Int} (h : Canonical m q) (hn : 0 < n)
    (hx : RoundsTo (n * 10 ^ e) m q) (hhigh : e ≤ 2048) (hlow : -2048 ≤ e + n.log2) :
    UnpackedFloat.ofScientific Format.binary64 n e = .finite .positive m q h.pos := by
  have hhuge : ¬ e > 2 ^ Format.binary64.exponentBits := by
    norm_num
    omega
  have htiny : ¬ e < -((2 ^ Format.binary64.exponentBits : Int) + n.log2) := by
    norm_num
    omega
  unfold UnpackedFloat.ofScientific
  rw [dif_neg hn.ne', if_neg hhuge, if_neg htiny]
  split
  · next hnonneg =>
    refine mul_of_roundsTo h _ _ ?_ ?_
    · have hvalue : ((n <<< Format.binary64.mantissaBits : Nat) : ℚ) *
          2 ^ (-(Format.binary64.mantissaBits : Int)) * ((10 ^ e.toNat : Nat) * 2 ^ (0 : Int)) =
            n * 10 ^ e := by
        rw [Nat.shiftLeft_eq, Nat.cast_mul, Nat.cast_pow, zpow_neg, zpow_natCast]
        have hpow : (10 : ℚ) ^ e = 10 ^ e.toNat := by
          rw [← zpow_natCast, Int.toNat_of_nonneg hnonneg]
        rw [hpow]
        push_cast
        field_simp
      rw [hvalue]
      exact hx
    · rw [Nat.shiftLeft_eq]
      have hpow : 0 < 10 ^ e.toNat := Nat.pow_pos (by decide)
      calc 2 ^ 52 ≤ 2 ^ 53 := by norm_num
        _ ≤ n * 2 ^ 53 := Nat.le_mul_of_pos_left _ hn
        _ ≤ n * 2 ^ 53 * 10 ^ e.toNat := Nat.le_mul_of_pos_right _ hpow
  · next hneg =>
    refine div_of_roundsTo h _ _ ?_
    have hvalue : (n : ℚ) * 2 ^ (0 : Int) / ((10 ^ (-e).toNat : Nat) * 2 ^ (0 : Int)) =
        n * 10 ^ e := by
      have hpow : (10 : ℚ) ^ e = (10 ^ (-e).toNat)⁻¹ := by
        rw [← zpow_natCast, Int.toNat_of_nonneg (by omega), ← zpow_neg, neg_neg]
      rw [hpow]
      push_cast
      simp [div_eq_mul_inv]
    rw [hvalue]
    exact hx

end Lisplet.Rounding
