import Lisplet.Decimal.Shortest
import Lisplet.Proofs.Scientific

/-! The shortest decimal of a double lies between the midpoints around the double. -/
namespace Lisplet.Decimal
open Lisplet.Rounding Lisplet.Magnitude

def toRat (d : Decimal) : ℚ := d.digits * 10 ^ d.exponent

theorem toRat_trimZeros (d : Decimal) : d.trimZeros.toRat = d.toRat := by
  fun_induction trimZeros d with
  | case1 d h ih =>
    rw [ih, toRat, toRat, zpow_add₀ (by norm_num), zpow_one]
    have hdigits : (d.digits : ℚ) = 10 * (d.digits / 10 : Nat) := by
      have : d.digits = 10 * (d.digits / 10) := by omega
      exact_mod_cast this
    rw [hdigits]
    dsimp only
    ring
  | case2 => rfl

theorem digits_trimZeros_pos {d : Decimal} (h : 0 < d.digits) : 0 < d.trimZeros.digits := by
  fun_induction trimZeros d with
  | case1 d hd ih => exact ih (by dsimp only; omega)
  | case2 => exact h

theorem ten_pow_leadingPower_le {num den : Nat} (hnum : 0 < num) (hden : 0 < den) :
    (10 : ℚ) ^ leadingPower num den * den ≤ num := by
  unfold leadingPower digitCount
  split
  · next hle =>
    have hquotient : 0 < num / den := Nat.div_pos hle hden
    have hpow := (length_toDigits_bounds hquotient).1
    have hlength : 0 < (Nat.toDigits 10 (num / den)).length := Nat.length_toDigits_pos
    have hcast : (((Nat.toDigits 10 (num / den)).length : Int) - 1) =
        (((Nat.toDigits 10 (num / den)).length - 1 : Nat) : Int) := by omega
    rw [hcast, zpow_natCast]
    have hmul : 10 ^ ((Nat.toDigits 10 (num / den)).length - 1) * den ≤ num :=
      (Nat.mul_le_mul_right den hpow).trans (Nat.div_mul_le_self num den)
    exact_mod_cast hmul
  · next hlt =>
    have hlength : 0 < (Nat.toDigits 10 ((den - 1) / num)).length := Nat.length_toDigits_pos
    have hpow := (Nat.length_toDigits_le_iff (by decide) hlength).1
      (Nat.le_refl (Nat.toDigits 10 ((den - 1) / num)).length)
    rw [Nat.div_lt_iff_lt_mul hnum] at hpow
    have hmul : den ≤ 10 ^ (Nat.toDigits 10 ((den - 1) / num)).length * num := by omega
    rw [zpow_neg, zpow_natCast, inv_mul_le_iff₀ (by positivity)]
    exact_mod_cast hmul

section
variable {m : Nat} {q : Int}

theorem den_ofBinary_pos (m : Nat) (q : Int) : 0 < (Rounding.ofBinary m q).den :=
  Nat.pow_pos (by decide)

theorem unit_eq (m : Nat) (q : Int) : ((Nat.pow 2 (q - 2).toNat : Nat) : ℚ) =
    2 ^ q / 4 * (Rounding.ofBinary m q).den := by
  have hden : (Rounding.ofBinary m q).den = 2 ^ (2 - q).toNat := rfl
  have hpow : Nat.pow 2 (q - 2).toNat = 2 ^ (q - 2).toNat := rfl
  have hfour : (2 : ℚ) ^ q / 4 = 2 ^ (q - 2) := by
    rw [zpow_sub₀ two_ne_zero]
    norm_num
  rw [hden, hpow, hfour, Nat.cast_pow, Nat.cast_pow, Nat.cast_ofNat, ← zpow_natCast,
    ← zpow_natCast, ← zpow_add₀ two_ne_zero]
  congr 1
  omega

theorem low_ofBinary (hm : 0 < m) (q : Int) : ((Rounding.ofBinary m q).low : ℚ) =
    (m - below m q) * 2 ^ q * (Rounding.ofBinary m q).den := by
  have hlow : (Rounding.ofBinary m q).low =
      (4 * m - (if m = 2 ^ 52 ∧ -1074 < q then 1 else 2)) * Nat.pow 2 (q - 2).toNat := rfl
  rw [hlow, Nat.cast_mul, unit_eq m q, below]
  split
  · rw [Nat.cast_sub (by omega)]
    push_cast
    ring
  · rw [Nat.cast_sub (by omega)]
    push_cast
    ring

theorem mid_ofBinary (m : Nat) (q : Int) : ((Rounding.ofBinary m q).mid : ℚ) =
    m * 2 ^ q * (Rounding.ofBinary m q).den := by
  have hmid : (Rounding.ofBinary m q).mid = 4 * m * Nat.pow 2 (q - 2).toNat := rfl
  rw [hmid, Nat.cast_mul, unit_eq m q]
  push_cast
  ring

theorem high_ofBinary (m : Nat) (q : Int) : ((Rounding.ofBinary m q).high : ℚ) =
    (m + 1 / 2) * 2 ^ q * (Rounding.ofBinary m q).den := by
  have hhigh : (Rounding.ofBinary m q).high = (4 * m + 2) * Nat.pow 2 (q - 2).toNat := rfl
  rw [hhigh, Nat.cast_mul, unit_eq m q]
  push_cast
  ring

theorem scale {a den : Nat} {x : ℚ} (ha : (a : ℚ) = x * den) (hden : 0 < den) (c : Nat)
    (p : Int) :
    (a * Nat.pow 10 (-p).toNat ≤ c * (den * Nat.pow 10 p.toNat) ↔ x ≤ c * 10 ^ p) ∧
      (c * (den * Nat.pow 10 p.toNat) ≤ a * Nat.pow 10 (-p).toNat ↔ c * 10 ^ p ≤ x) := by
  have hup : (0 : ℚ) < 10 ^ (-p).toNat * den := by positivity
  have hpow : (10 : ℚ) ^ p * 10 ^ (-p).toNat = 10 ^ p.toNat := by
    rw [← zpow_natCast, ← zpow_natCast, ← zpow_add₀ (by norm_num)]
    congr 1
    omega
  have hleft : ((a * 10 ^ (-p).toNat : Nat) : ℚ) = x * (10 ^ (-p).toNat * den) := by
    push_cast
    rw [ha]
    ring
  have hright : ((c * (den * 10 ^ p.toNat) : Nat) : ℚ) = c * 10 ^ p * (10 ^ (-p).toNat * den) := by
    push_cast
    rw [← hpow]
    ring
  have hpow' (k : Nat) : Nat.pow 10 k = 10 ^ k := rfl
  rw [hpow', hpow', ← @Nat.cast_le ℚ, ← @Nat.cast_le ℚ, hleft, hright]
  exact ⟨mul_le_mul_iff_left₀ hup, mul_le_mul_iff_left₀ hup⟩

/-- The multiples of `10 ^ p` between the ends of the interval; an odd mantissa leaves out the
ends. -/
def Rounding.Inside (r : Rounding) (p : Int) (c : Nat) : Prop :=
  let up := Nat.pow 10 (-p).toNat
  let den := r.den * Nat.pow 10 p.toNat
  r.low * up ≤ c * den ∧ c * den ≤ r.high * up ∧
    (r.closed = false → r.low * up ≠ c * den ∧ c * den ≠ r.high * up)

theorem Rounding.Inside.roundsTo {p : Int} {c : Nat} (hm : 0 < m)
    (h : (Rounding.ofBinary m q).Inside p c) : RoundsTo (c * 10 ^ p) m q := by
  obtain ⟨hlow, hhigh, hodd⟩ := h
  obtain ⟨hle_low, hge_low⟩ := scale (low_ofBinary hm q) (den_ofBinary_pos m q) c p
  obtain ⟨hle_high, hge_high⟩ := scale (high_ofBinary m q) (den_ofBinary_pos m q) c p
  refine ⟨hle_low.1 hlow, hge_high.1 hhigh, fun hm' => ?_⟩
  have hclosed : (Rounding.ofBinary m q).closed = false := by
    change (m % 2 == 0) = false
    rw [hm']
    rfl
  obtain ⟨hne_low, hne_high⟩ := hodd hclosed
  refine ⟨fun heq => hne_low ?_, fun heq => hne_high ?_⟩
  · exact Nat.le_antisymm hlow (hge_low.2 heq.le)
  · exact Nat.le_antisymm hhigh (hle_high.2 heq.ge)

theorem low_lt_mid (hm : 0 < m) (q : Int) :
    (Rounding.ofBinary m q).low < (Rounding.ofBinary m q).mid := by
  have hlow : (Rounding.ofBinary m q).low =
      (4 * m - (if m = 2 ^ 52 ∧ -1074 < q then 1 else 2)) * Nat.pow 2 (q - 2).toNat := rfl
  rw [hlow]
  refine Nat.mul_lt_mul_of_pos_right ?_ (Nat.pow_pos (by decide))
  split <;> omega

theorem mid_lt_high (m : Nat) (q : Int) :
    (Rounding.ofBinary m q).mid < (Rounding.ofBinary m q).high :=
  Nat.mul_lt_mul_of_pos_right (by omega) (Nat.pow_pos (by decide))

theorem of_within {closed : Bool} {a b : Nat}
    (h : (if closed then decide (a ≤ b) else decide (a < b)) = true) :
    a ≤ b ∧ (closed = false → a ≠ b) := by
  cases closed with
  | true => exact ⟨of_decide_eq_true h, fun hfalse => by cases hfalse⟩
  | false =>
    have hlt : a < b := of_decide_eq_true h
    exact ⟨hlt.le, fun _ => hlt.ne⟩

theorem of_not_within {closed : Bool} {a b : Nat}
    (h : (if closed then decide (a ≤ b) else decide (a < b)) = false) : b ≤ a := by
  cases closed with
  | true => exact (Nat.lt_of_not_le (of_decide_eq_false h)).le
  | false => exact Nat.le_of_not_lt (of_decide_eq_false h)

/-- What is taken from a grid lies inside; nothing is taken only if the next multiples on both sides
lie outside. -/
theorem onGrid_spec (hm : 0 < m) (p : Int) :
    (∀ c, (Rounding.ofBinary m q).onGrid p = some c → (Rounding.ofBinary m q).Inside p c) ∧
      ((Rounding.ofBinary m q).onGrid p = none →
        ∃ c, c * ((Rounding.ofBinary m q).den * Nat.pow 10 p.toNat) ≤
            (Rounding.ofBinary m q).low * Nat.pow 10 (-p).toNat ∧
          (Rounding.ofBinary m q).high * Nat.pow 10 (-p).toNat ≤
            (c + 1) * ((Rounding.ofBinary m q).den * Nat.pow 10 p.toNat)) := by
  have hlow := low_lt_mid hm q
  have hhigh := mid_lt_high m q
  have hden := den_ofBinary_pos m q
  generalize Rounding.ofBinary m q = r at *
  have hup : 0 < Nat.pow 10 (-p).toNat := Nat.pow_pos (by decide)
  have hden' : 0 < r.den * Nat.pow 10 p.toNat := Nat.mul_pos hden (Nat.pow_pos (by decide))
  unfold Rounding.onGrid Rounding.Inside
  dsimp only
  generalize Nat.pow 10 (-p).toNat = up at *
  generalize r.den * Nat.pow 10 p.toNat = den at *
  have hlow' : r.low * up < r.mid * up := Nat.mul_lt_mul_of_pos_right hlow hup
  have hhigh' : r.mid * up < r.high * up := Nat.mul_lt_mul_of_pos_right hhigh hup
  have hbelow : r.mid * up / den * den ≤ r.mid * up := Nat.div_mul_le_self _ _
  have habove : r.mid * up < (r.mid * up / den + 1) * den :=
    Nat.lt_mul_of_div_lt (Nat.lt_succ_self _) hden'
  generalize r.mid * up / den = c₀ at *
  have hfirst (h : r.low * up ≤ c₀ * den ∧ (r.closed = false → r.low * up ≠ c₀ * den)) :
      r.low * up ≤ c₀ * den ∧ c₀ * den ≤ r.high * up ∧
        (r.closed = false → r.low * up ≠ c₀ * den ∧ c₀ * den ≠ r.high * up) :=
    ⟨h.1, by omega, fun hclosed => ⟨h.2 hclosed, by omega⟩⟩
  have hsecond (h : (c₀ + 1) * den ≤ r.high * up ∧
      (r.closed = false → (c₀ + 1) * den ≠ r.high * up)) :
      r.low * up ≤ (c₀ + 1) * den ∧ (c₀ + 1) * den ≤ r.high * up ∧
        (r.closed = false → r.low * up ≠ (c₀ + 1) * den ∧ (c₀ + 1) * den ≠ r.high * up) :=
    ⟨by omega, h.1, fun hclosed => ⟨by omega, h.2 hclosed⟩⟩
  split
  · next hout hout' =>
    refine ⟨fun c h => ?_, fun _ => ⟨c₀, of_not_within hout, of_not_within hout'⟩⟩
    cases h
  · next hin _ =>
    refine ⟨fun c h => ?_, fun h => nomatch h⟩
    cases h
    exact hfirst (of_within hin)
  · next _ hin =>
    refine ⟨fun c h => ?_, fun h => nomatch h⟩
    cases h
    exact hsecond (of_within hin)
  · next hin hin' =>
    refine ⟨fun c h => ?_, fun h => nomatch h⟩
    cases h
    split
    · exact hfirst (of_within hin)
    · exact hsecond (of_within hin')

theorem ten_pow_le_mid (hm : 0 < m) (q : Int) :
    (10 : ℚ) ^ leadingPower (Rounding.ofBinary m q).mid (Rounding.ofBinary m q).den ≤
      m * 2 ^ q := by
  have hden := den_ofBinary_pos m q
  have hden' : (0 : ℚ) < (Rounding.ofBinary m q).den := by exact_mod_cast hden
  have hle := ten_pow_leadingPower_le (Nat.zero_lt_of_lt (low_lt_mid hm q)) hden
  rw [mid_ofBinary] at hle
  exact le_of_mul_le_mul_right hle hden'

theorem onGrid_ne_none (h : Canonical m q) :
    (Rounding.ofBinary m q).onGrid
      (leadingPower (Rounding.ofBinary m q).mid (Rounding.ofBinary m q).den - 16) ≠ none := by
  intro hnone
  have hlead := ten_pow_le_mid h.pos q
  obtain ⟨c, hlow, hhigh⟩ := (onGrid_spec h.pos _).2 hnone
  have hlow := (scale (low_ofBinary h.pos q) (den_ofBinary_pos m q) _ _).2.1 hlow
  have hhigh := (scale (high_ofBinary m q) (den_ofBinary_pos m q) _ _).1.1 hhigh
  generalize leadingPower _ _ = lead at *
  have hstep : (10 : ℚ) ^ lead = 10 ^ (lead - 16) * 10 ^ 16 := by
    rw [← zpow_natCast, ← zpow_add₀ (by norm_num)]
    congr 1
    omega
  have hq : (0 : ℚ) < 2 ^ q := by positivity
  push_cast at hhigh
  -- A step of the grid would be as wide as the interval, which is wider than the double's own
  -- sixteenth digit.
  have hgap : (1 / 2 + below m q) * 2 ^ q ≤ 10 ^ (lead - 16) := by linarith
  have hsmall : (m : ℚ) < (1 / 2 + below m q) * 10 ^ 16 := by
    unfold below
    split
    · next hpower =>
      rw [hpower.1]
      norm_num
    · have hm : (m : ℚ) < 2 ^ 53 := by exact_mod_cast h.lt
      linarith
  have hless := mul_lt_mul_of_pos_right hsmall hq
  linarith

/-- The decimal that is written for a double is positive and lies between the midpoints around the
double. -/
theorem shortest_roundsTo (h : Canonical m q) :
    0 < (shortest m q).digits ∧ RoundsTo (shortest m q).toRat m q := by
  obtain ⟨lead, hlead⟩ : ∃ lead,
      leadingPower (Rounding.ofBinary m q).mid (Rounding.ofBinary m q).den = lead := ⟨_, rfl⟩
  have hgrid := onGrid_ne_none h
  rw [hlead] at hgrid
  obtain ⟨d, hfound⟩ : ∃ d, ((List.range 17).findSome? fun (n : Nat) =>
      ((Rounding.ofBinary m q).onGrid (lead - n)).map fun c => (⟨c, lead - n⟩ : Decimal)) =
        some d := by
    refine Option.ne_none_iff_exists'.1 fun hnone => hgrid ?_
    have := List.findSome?_eq_none_iff.1 hnone 16 (by simp)
    simpa using this
  have hshortest : shortest m q = d.trimZeros := by
    simp only [shortest, hlead, hfound]
    rfl
  obtain ⟨n, -, hmap⟩ := List.exists_of_findSome?_eq_some hfound
  obtain ⟨c, hc, rfl⟩ := Option.map_eq_some_iff.1 hmap
  have hrounds := ((onGrid_spec h.pos _).1 c hc).roundsTo h.pos
  have hpos : 0 < c := by
    have := hrounds.pos h
    refine Nat.pos_of_ne_zero fun hzero => ?_
    simp [hzero] at this
  rw [hshortest, toRat_trimZeros]
  exact ⟨digits_trimZeros_pos hpos, hrounds⟩

end

end Lisplet.Decimal
