import Lisplet.Decimal.Reading
import Lisplet.Proofs.Rounding

/-! Reading decimals as doubles: a decimal between the midpoints around a double is read as that
double, by the fast path and by the slow one. -/
namespace Lisplet.Rounding
open Float.Model Float.Model.UnpackedFloat Magnitude

/-- The mantissa and the exponent of a power of ten that is a double: the power is shifted left by
enough for the shift back to the length of a mantissa to lose nothing. -/
def tenBits (e : Nat) : Nat × Int :=
  (10 ^ e * 2 ^ 60 / 2 ^ ((10 ^ e).log2 + 8), (10 ^ e).log2 - 52)

theorem size_powersOfTen : Float.exactlyRepresentablePowersOfTen.size = 23 := rfl

theorem tenBits_pos : ∀ e : Fin Float.exactlyRepresentablePowersOfTen.size, 0 < (tenBits e).1 := by
  decide +kernel

theorem tenBits_spec : ∀ e : Fin Float.exactlyRepresentablePowersOfTen.size,
    2 ^ 52 ≤ (tenBits e).1 ∧ (tenBits e).1 < 2 ^ 53 ∧
      (tenBits e).1 * 2 ^ ((10 ^ e.val).log2 + 8) = 10 ^ e.val * 2 ^ 60 := by
  decide +kernel

theorem powersOfTen_eq : ∀ e : Fin Float.exactlyRepresentablePowersOfTen.size,
    Float.exactlyRepresentablePowersOfTen[e] =
      .ofModel (.pack (.finite .positive (tenBits e).1 (tenBits e).2 (tenBits_pos e))) := by
  decide +kernel

theorem roundsTo_self (m : Nat) (q : Int) : RoundsTo (m * 2 ^ q) m q := by
  have hq : (0 : ℚ) < 2 ^ q := by positivity
  obtain ⟨hpos, -⟩ := below_pos m q
  refine ⟨?_, ?_, fun _ => ⟨?_, ?_⟩⟩
  · exact mul_le_mul_of_nonneg_right (by linarith) hq.le
  · exact mul_le_mul_of_nonneg_right (by linarith) hq.le
  · refine ne_of_gt (mul_lt_mul_of_pos_right (by linarith) hq)
  · refine ne_of_lt (mul_lt_mul_of_pos_right (by linarith) hq)

section
variable {n : Nat} (hn : 0 < n) (hlt : n < 2 ^ 53)
include hn hlt

theorem fits_shiftLeft : Fits (n <<< (52 - n.log2)) ((n.log2 : Int) - 52) := by
  have hlog : n.log2 < 53 := (Nat.log2_lt hn.ne').2 hlt
  have hlow : 2 ^ n.log2 ≤ n := Nat.log2_self_le hn.ne'
  have hhigh : n < 2 ^ (n.log2 + 1) := Nat.lt_log2_self
  have hsplit : (2 : Nat) ^ 52 = 2 ^ n.log2 * 2 ^ (52 - n.log2) := by
    rw [← Nat.pow_add]
    congr 1
    omega
  have hfull : 2 ^ 52 ≤ n <<< (52 - n.log2) := by
    rw [Nat.shiftLeft_eq, hsplit]
    exact Nat.mul_le_mul_right _ hlow
  refine ⟨⟨lt_of_lt_of_le (by norm_num) hfull, ?_, by omega, .inl hfull⟩, by omega⟩
  rw [Nat.shiftLeft_eq, Nat.pow_succ, hsplit, Nat.mul_right_comm, ← Nat.pow_succ]
  exact Nat.mul_lt_mul_of_pos_right hhigh (Nat.two_pow_pos _)

theorem value_shiftLeft :
    ((n <<< (52 - n.log2) : Nat) : ℚ) * 2 ^ ((n.log2 : Int) - 52) = n := by
  have hlog : n.log2 < 53 := (Nat.log2_lt hn.ne').2 hlt
  have hexponent : (n.log2 : Int) - 52 = -((52 - n.log2 : Nat) : Int) := by omega
  rw [Nat.shiftLeft_eq, hexponent, zpow_neg, zpow_natCast]
  push_cast
  field_simp

theorem unpack_toFloat : n.toUInt64.toFloat.toModel.unpack =
    .finite .positive (n <<< (52 - n.log2)) ((n.log2 : Int) - 52) (fits_shiftLeft hn hlt).pos := by
  have hfits := fits_shiftLeft hn hlt
  have hsmall : n.toUInt64.toNat = n := by
    simp only [Nat.toUInt64, UInt64.toNat_ofNat']
    omega
  have hlog : n.log2 < 53 := (Nat.log2_lt hn.ne').2 hlt
  have htarget : max ((n.log2 : Int) + 0 - 52) (-1074) = n.log2 - 52 := by omega
  have hshift : (0 - ((n.log2 : Int) - 52)).toNat = 52 - n.log2 := by omega
  have hexponent : (0 : Int) - (52 - n.log2 : Nat) = n.log2 - 52 := by omega
  have hround : UnpackedFloat.ofNat Format.binary64 n =
      .finite .positive (n <<< (52 - n.log2)) ((n.log2 : Int) - 52) hfits.pos := by
    have hcompare : compare (n : Int) 0 = .gt := Int.compare_eq_gt.2 (by omega)
    simp only [UnpackedFloat.ofNat, UnpackedFloat.ofInt, UnpackedFloat.normalize, hcompare,
      Int.toNat_natCast, UnpackedFloat.round, targetExponent_eq, decreaseExponent, htarget, hshift,
      hexponent]
    have hfull : 2 ^ 52 ≤ n <<< (52 - n.log2) := hfits.full.resolve_right (by omega)
    refine roundWithAccuracy_of_roundsTo (roundsTo_self _ _) hfits.toCanonical ?_ (.inr hfull)
      .positive
    rw [Notes]
    field_simp
    ring
  have hmodel : n.toUInt64.toFloat.toModel =
      .pack (UnpackedFloat.ofNat Format.binary64 n.toUInt64.toNat) := rfl
  rw [hmodel, hsmall, hround, hfits.unpack_pack]

end

theorem unpack_powerOfTen (e : Fin Float.exactlyRepresentablePowersOfTen.size) :
    ∃ (m : Nat) (q : Int) (hm : 0 < m), (m * 2 ^ q : ℚ) = 10 ^ e.val ∧ 2 ^ 52 ≤ m ∧
      Float.exactlyRepresentablePowersOfTen[e].toModel.unpack = .finite .positive m q hm := by
  obtain ⟨hfull, hlt, hvalue⟩ := tenBits_spec e
  have hlog : (10 ^ e.val).log2 < 74 := by
    rw [Nat.log2_lt (Nat.pow_pos (by decide)).ne']
    have he : e.val < 23 := e.isLt
    calc 10 ^ e.val ≤ 10 ^ 22 := Nat.pow_le_pow_right (by decide) (by omega)
      _ < 2 ^ 74 := by norm_num
  have hfits : Fits (tenBits e).1 (tenBits e).2 :=
    ⟨⟨tenBits_pos e, hlt, by simp only [tenBits]; omega, .inl hfull⟩, by simp only [tenBits]; omega⟩
  refine ⟨(tenBits e).1, (tenBits e).2, tenBits_pos e, ?_, hfull, ?_⟩
  · have hpow : (2 : ℚ) ^ (tenBits e).2 * 2 ^ 60 = 2 ^ ((10 ^ e.val).log2 + 8) := by
      rw [← zpow_natCast, ← zpow_natCast, ← zpow_add₀ two_ne_zero]
      congr 1
      simp only [tenBits]
      omega
    refine mul_right_cancel₀ (b := 2 ^ 60) (by positivity) ?_
    rw [mul_assoc, hpow]
    exact_mod_cast hvalue
  · rw [powersOfTen_eq, hfits.unpack_pack]

theorem float_ofScientific_of_roundsTo {n m e : Nat} {q power : Int} {negative : Bool}
    (h : Fits m q) (hn : 0 < n) (hpower : (if negative then -(e : Int) else e) = power)
    (hx : RoundsTo (n * 10 ^ power) m q) (hhigh : power ≤ 2048) (hlow : -2048 ≤ power + n.log2) :
    Float.ofScientific n negative e = .ofModel (.pack (.finite .positive m q h.pos)) := by
  unfold Float.ofScientific
  split
  · next hfast =>
    obtain ⟨hlt, hten⟩ := hfast
    obtain ⟨p, k, hp, hvalue, hfull, hunpack⟩ := unpack_powerOfTen ⟨e, by
      rw [size_powersOfTen]
      omega⟩
    have hself := unpack_toFloat hn hlt
    have hexact := value_shiftLeft hn hlt
    have hbits : 2 ^ 52 ≤ n <<< (52 - n.log2) * p :=
      hfull.trans (Nat.le_mul_of_pos_left _ (fits_shiftLeft hn hlt).pos)
    subst hpower
    cases negative with
    | true =>
      have hquotient := div_of_roundsTo h.toCanonical (fits_shiftLeft hn hlt).pos hp (by
        rw [hexact, hvalue]
        simpa [div_eq_mul_inv] using hx)
      rw [← hself, ← hunpack] at hquotient
      exact congrArg (fun x => Float.ofModel (.pack x)) hquotient
    | false =>
      have hproduct := mul_of_roundsTo h.toCanonical (fits_shiftLeft hn hlt).pos hp (by
        rw [hexact, hvalue]
        simpa using hx) hbits
      rw [← hself, ← hunpack] at hproduct
      exact congrArg (fun x => Float.ofModel (.pack x)) hproduct
  · have hmodel : (if negative then Int.negOfNat e else Int.ofNat e) = power := by
      rw [← hpower]
      cases negative
      · rfl
      · exact Int.negOfNat_eq
    simp only [hmodel]
    rw [Float.Model.ofScientific, ofScientific_of_roundsTo h.toCanonical hn hx hhigh hlow]

theorem length_toDigits_bounds {n : Nat} (hn : 0 < n) :
    10 ^ ((Nat.toDigits 10 n).length - 1) ≤ n ∧ n < 10 ^ (Nat.toDigits 10 n).length := by
  have hpos : 0 < (Nat.toDigits 10 n).length := Nat.length_toDigits_pos
  refine ⟨?_, (Nat.length_toDigits_le_iff (by decide) hpos).1 (Nat.le_refl _)⟩
  by_cases hone : (Nat.toDigits 10 n).length = 1
  · rw [hone]
    exact hn
  · refine Nat.not_lt.1 fun hlt => ?_
    have := (Nat.length_toDigits_le_iff (by decide) (by omega)).2 hlt
    omega

theorem ten_pow_lt : (10 : ℚ) ^ (-324 : Int) < 1 / 2 * 2 ^ (-1074 : Int) := by
  have hpow : (2 : ℚ) * 2 ^ 1074 < 10 ^ 324 := by
    have : 2 * 2 ^ 1074 < 10 ^ 324 := by decide +kernel
    exact_mod_cast this
  rw [zpow_neg, zpow_neg, one_div, ← mul_inv]
  exact inv_strictAnti₀ (by positivity) hpow

theorem lt_ten_pow : (2 : ℚ) ^ 53 * 2 ^ (971 : Int) < 10 ^ (309 : Int) := by
  have : 2 ^ 53 * 2 ^ 971 < 10 ^ 309 := by decide +kernel
  exact_mod_cast this

theorem size_bounds {n m : Nat} {power q : Int} (h : Fits m q) (hn : 0 < n)
    (hx : RoundsTo (n * 10 ^ power) m q) :
    -324 < (Nat.toDigits 10 n).length + power ∧ (Nat.toDigits 10 n).length + power < 310 := by
  obtain ⟨hlow, hhigh⟩ := length_toDigits_bounds hn
  have hpos : 0 < (Nat.toDigits 10 n).length := Nat.length_toDigits_pos
  generalize (Nat.toDigits 10 n).length = length at *
  have hten : (0 : ℚ) < 10 ^ power := by positivity
  have hlt (a b : Int) (hab : (10 : ℚ) ^ a < 10 ^ b) : a < b :=
    (zpow_lt_zpow_iff_right₀ (by norm_num)).1 hab
  constructor
  · refine hlt _ _ ?_
    rw [zpow_add₀ (by norm_num), zpow_natCast]
    have hn' : (n : ℚ) * 10 ^ power < 10 ^ length * 10 ^ power :=
      mul_lt_mul_of_pos_right (by exact_mod_cast hhigh) hten
    refine lt_of_lt_of_le ?_ (hx.low.trans hn'.le)
    have hm : (1 : ℚ) ≤ m := by exact_mod_cast h.pos
    calc (10 : ℚ) ^ (-324 : Int) < 1 / 2 * 2 ^ (-1074 : Int) := ten_pow_lt
      _ ≤ 1 / 2 * 2 ^ q := by
        refine mul_le_mul_of_nonneg_left ?_ (by norm_num)
        exact zpow_le_zpow_right₀ one_le_two h.least_le
      _ ≤ (m - below m q) * 2 ^ q := by
        refine mul_le_mul_of_nonneg_right ?_ (by positivity)
        linarith [(below_pos m q).2]
  · have hsize : ((length - 1 : Nat) : Int) + power < 309 := by
      refine hlt _ _ ?_
      rw [zpow_add₀ (by norm_num), zpow_natCast]
      have hm : (m : ℚ) + 1 ≤ 2 ^ 53 := by exact_mod_cast h.lt
      calc (10 : ℚ) ^ (length - 1) * 10 ^ power ≤ n * 10 ^ power :=
            mul_le_mul_of_nonneg_right (by exact_mod_cast hlow) hten.le
        _ ≤ (m + 1 / 2) * 2 ^ q := hx.high
        _ ≤ 2 ^ 53 * 2 ^ q := mul_le_mul_of_nonneg_right (by linarith) (by positivity)
        _ ≤ 2 ^ 53 * 2 ^ (971 : Int) := by
          refine mul_le_mul_of_nonneg_left ?_ (by norm_num)
          exact zpow_le_zpow_right₀ one_le_two h.le_greatest
        _ < 10 ^ (309 : Int) := lt_ten_pow
    omega

theorem nearest_of_roundsTo {n m : Nat} {power q : Int} (h : Fits m q) (hn : 0 < n)
    (hx : RoundsTo (n * 10 ^ power) m q) :
    Numeral.nearest n power = .ofModel (.pack (.finite .positive m q h.pos)) := by
  obtain ⟨hlow, hhigh⟩ := size_bounds h hn hx
  have hlength : (Nat.toDigits 10 n).length ≤ n.log2 + 1 := by
    have hle : 2 ^ ((Nat.toDigits 10 n).length - 1) ≤ n :=
      (Nat.pow_le_pow_left (by decide) _).trans (length_toDigits_bounds hn).1
    have := (Nat.le_log2 hn.ne').2 hle
    omega
  have hsmall : ¬ (n = 0 || ((Nat.toDigits 10 n).length + power < -400 : Bool)) = true := by
    simp
    omega
  have hlarge : ¬ 400 < (Nat.toDigits 10 n).length + power := by omega
  simp only [Numeral.nearest]
  rw [if_neg hsmall, if_neg hlarge]
  split
  · next hneg =>
    refine float_ofScientific_of_roundsTo h hn ?_ hx (by omega) (by omega)
    rw [if_pos rfl]
    omega
  · next hneg =>
    refine float_ofScientific_of_roundsTo h hn ?_ hx (by omega) (by omega)
    rw [if_neg Bool.false_ne_true]
    omega

end Lisplet.Rounding
