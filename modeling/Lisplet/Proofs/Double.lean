import Lisplet.Decimal.Layout
import Mathlib

/-! Doubles bit by bit: the sign, the exponent and the fraction that a double is taken apart into
are those its value is made of, and those it is packed from. -/
namespace Lisplet.Magnitude
open Float.Model Float.Model.UnpackedFloat

theorem toNat_unpackExponent (b : BitVec Format.binary64.numBits) :
    (UnpackedFloat.unpackExponent b).toNat = b.toNat / 2 ^ 52 % 2 ^ 11 := by
  simp [UnpackedFloat.unpackExponent, BitVec.extractLsb_toNat, Nat.shiftRight_eq_div_pow]

theorem isFinite_unpack (b : BitVec Format.binary64.numBits) :
    (UnpackedFloat.unpack Format.binary64 b).isFinite = true ↔
      b.toNat / 2 ^ 52 % 2 ^ 11 ≠ 2047 := by
  have hones : UnpackedFloat.unpackExponent b = -1#_ ↔ b.toNat / 2 ^ 52 % 2 ^ 11 = 2047 := by
    rw [← BitVec.toNat_inj, toNat_unpackExponent]
    rfl
  simp only [UnpackedFloat.unpack, hones]
  by_cases h : b.toNat / 2 ^ 52 % 2 ^ 11 = 2047
  · simp only [h, if_true, ne_eq, not_true, iff_false]
    split <;> simp [UnpackedFloat.isFinite]
  · simp only [h, if_false, ne_eq, not_false_eq_true, iff_true]
    split
    · split <;> rfl
    · rfl

theorem ofFloat_of_isFinite {r : Float} (h : r.isFinite = true) :
    (ofFloat r).2 = .zero ∨ ∃ m q, (ofFloat r).2 = .finite m q := by
  have hexponent : r.toBits.toNat / Nat.pow 2 52 % Nat.pow 2 11 ≠ 2047 := (isFinite_unpack _).1 h
  simp only [ofFloat, hexponent, if_false]
  split
  · split
    · exact .inl rfl
    · exact .inr ⟨_, _, rfl⟩
  · exact .inr ⟨_, _, rfl⟩

/-- A mantissa and an exponent in the one form that a double has: with all its bits, or with the
least exponent. -/
structure Canonical (m : Nat) (q : Int) : Prop where
  pos : 0 < m
  lt : m < 2 ^ 53
  least_le : -1074 ≤ q
  full : 2 ^ 52 ≤ m ∨ q = -1074

structure Fits (m : Nat) (q : Int) : Prop extends Canonical m q where
  le_greatest : q ≤ 971

theorem toNat_packComponents (sign : Sign) (exponent : BitVec 11) (mantissa : BitVec 52) :
    (packComponents Format.binary64 sign exponent mantissa).toNat =
      sign.toBitVec.toNat * 2 ^ 63 + exponent.toNat * 2 ^ 52 + mantissa.toNat := by
  have hinner : (sign.toBitVec ++ exponent).toNat =
      sign.toBitVec.toNat * 2 ^ 11 + exponent.toNat := by
    rw [BitVec.toNat_append, ← Nat.shiftLeft_add_eq_or_of_lt exponent.isLt, Nat.shiftLeft_eq]
  have houter : (packComponents Format.binary64 sign exponent mantissa).toNat =
      (sign.toBitVec ++ exponent).toNat * 2 ^ 52 + mantissa.toNat := by
    unfold packComponents
    rw [BitVec.toNat_append, ← Nat.shiftLeft_add_eq_or_of_lt mantissa.isLt, Nat.shiftLeft_eq]
  rw [houter, hinner]
  omega

theorem toNat_unpackSign (b : BitVec Format.binary64.numBits) :
    (UnpackedFloat.unpackSign b).toNat = b.toNat / 2 ^ 63 % 2 := by
  simp [UnpackedFloat.unpackSign, BitVec.extractLsb_toNat, Nat.shiftRight_eq_div_pow]

theorem ofBitVec_unpackSign_packComponents (s : Sign) (exponent : BitVec 11)
    (mantissa : BitVec 52) :
    Sign.ofBitVec (unpackSign (packComponents Format.binary64 s exponent mantissa)) = s := by
  have hsign : unpackSign (packComponents Format.binary64 s exponent mantissa) = s.toBitVec := by
    rw [← BitVec.toNat_inj, toNat_unpackSign, toNat_packComponents]
    have := s.toBitVec.isLt
    have := exponent.isLt
    have := mantissa.isLt
    omega
  rw [hsign]
  cases s <;> rfl

/-- The fields of the exponent and of the fraction; the leading bit of a full mantissa is left
out. -/
def fields (m : Nat) (q : Int) : Nat × Nat :=
  if 2 ^ 52 ≤ m then ((q + 1075).toNat, m - 2 ^ 52) else (0, m)

theorem bias_eq : (Format.binary64.exponentBias : Int) +
    (Format.binary64.mantissaBitsWithoutImplicit : Int) = 1075 := rfl

theorem finite_congr {s : Sign} {m m' : Nat} {e e' : Int} {hpos : 0 < m} {hpos' : 0 < m'}
    (hm : m = m') (he : e = e') :
    UnpackedFloat.finite s m e hpos = UnpackedFloat.finite s m' e' hpos' := by
  subst hm he
  rfl

namespace Fits
variable {m : Nat} {q : Int} (h : Fits m q)
include h

theorem fields_lt : (fields m q).1 < 2047 ∧ (fields m q).2 < 2 ^ 52 := by
  obtain ⟨⟨_, hlt, _, _⟩, hgreatest⟩ := h
  unfold fields
  split
  · constructor
    · dsimp only
      omega
    · dsimp only
      omega
  · constructor
    · norm_num
    · dsimp only
      omega

theorem pack_eq (s : Sign) : UnpackedFloat.pack Format.binary64 (.finite s m q h.pos) =
    packComponents Format.binary64 s (BitVec.ofNat 11 (fields m q).1)
      (BitVec.ofNat 52 (fields m q).2) := by
  have hgreatest := h.le_greatest
  have hbias : q + Format.binary64.exponentBias + Format.binary64.mantissaBitsWithoutImplicit =
      q + 1075 := by
    rw [Int.add_assoc, bias_eq]
  have hroom : ¬ 2 ^ Format.binary64.exponentBits ≤ (q + 1075).toNat + 1 := by
    norm_num
    omega
  simp only [UnpackedFloat.pack, hbias, if_neg hroom, fields]
  by_cases hfull : 2 ^ 52 ≤ m
  · have hlog : m.log2 = 52 := (Nat.log2_eq_iff h.pos.ne').2 ⟨hfull, h.lt⟩
    have hfraction : BitVec.ofNat 52 m = BitVec.ofNat 52 (m - 2 ^ 52) := by
      rw [← BitVec.toNat_inj, BitVec.toNat_ofNat, BitVec.toNat_ofNat]
      omega
    rw [if_pos hfull, if_pos (by rw [hlog]; rfl), hfraction]
  · have hlog : m.log2 < 52 := (Nat.log2_lt h.pos.ne').2 (not_le.1 hfull)
    have hshort : ¬ m.log2 + 1 = Format.binary64.mantissaBits := by
      simp only [Format.mantissaBits]
      omega
    rw [if_neg hfull, if_neg hshort]

theorem toNat_fields : (BitVec.ofNat 11 (fields m q).1).toNat = (fields m q).1 ∧
    (BitVec.ofNat 52 (fields m q).2).toNat = (fields m q).2 := by
  obtain ⟨hexponent, hfraction⟩ := h.fields_lt
  rw [BitVec.toNat_ofNat, BitVec.toNat_ofNat]
  exact ⟨Nat.mod_eq_of_lt (by omega), Nat.mod_eq_of_lt hfraction⟩

theorem toNat_pack (s : Sign) :
    (UnpackedFloat.pack Format.binary64 (.finite s m q h.pos)).toNat =
      s.toBitVec.toNat * 2 ^ 63 + (fields m q).1 * 2 ^ 52 + (fields m q).2 := by
  obtain ⟨hexponent, hfraction⟩ := h.toNat_fields
  rw [h.pack_eq, toNat_packComponents, hexponent, hfraction]

theorem unpack_pack (s : Sign) :
    (Float.Model.pack (.finite s m q h.pos)).unpack = .finite s m q h.pos := by
  have hpack : (Float.Model.pack (.finite s m q h.pos)).unpack =
      UnpackedFloat.unpack Format.binary64 (packComponents Format.binary64 s
        (BitVec.ofNat 11 (fields m q).1) (BitVec.ofNat 52 (fields m q).2)) := by
    rw [← h.pack_eq]
    rfl
  obtain ⟨hexponent, hmantissa⟩ := h.toNat_fields
  have hones : BitVec.ofNat 11 (fields m q).1 ≠ -1#_ := by
    intro heq
    have heq := congrArg BitVec.toNat heq
    rw [hexponent] at heq
    exact h.fields_lt.1.ne heq
  rw [hpack]
  simp only [UnpackedFloat.unpack, unpackMantissa_packComponents, unpackExponent_packComponents,
    ofBitVec_unpackSign_packComponents, if_neg hones]
  by_cases hbits : 2 ^ 52 ≤ m
  · have hleast := h.least_le
    have hfields : fields m q = ((q + 1075).toNat, m - 2 ^ 52) := if_pos hbits
    rw [hfields] at hmantissa hexponent ⊢
    have hzero : BitVec.ofNat 11 (q + 1075).toNat ≠ 0#_ := by
      intro heq
      have heq : (q + 1075).toNat = 0 := hexponent.symm.trans (congrArg BitVec.toNat heq)
      omega
    have hwhole : (1#1 ++ BitVec.ofNat 52 (m - 2 ^ 52)).toNat = m := by
      rw [BitVec.toNat_append, ← Nat.shiftLeft_add_eq_or_of_lt (BitVec.isLt _), hmantissa,
        Nat.shiftLeft_eq]
      norm_num
      omega
    rw [if_neg hzero]
    refine finite_congr hwhole ?_
    rw [hexponent, bias_eq]
    dsimp only
    omega
  · have hfields : fields m q = (0, m) := if_neg hbits
    rw [hfields] at hmantissa hexponent ⊢
    have hne : BitVec.ofNat 52 m ≠ 0#_ := by
      intro heq
      exact h.pos.ne' (hmantissa.symm.trans (congrArg BitVec.toNat heq))
    rw [if_pos rfl, dif_neg hne]
    refine finite_congr hmantissa ?_
    rw [hexponent, bias_eq, h.full.resolve_left hbits]
    rfl

end Fits

theorem eq_of_toBits {a b : Float} (h : a.toBits.toNat = b.toBits.toNat) : a = b := by
  obtain ⟨⟨⟨a⟩, _⟩⟩ := a
  obtain ⟨⟨⟨b⟩, _⟩⟩ := b
  cases BitVec.toNat_inj.1 h
  rfl

theorem sign_of_ofFloat {r : Float} {negative : Bool} {magnitude : Magnitude}
    (h : ofFloat r = (negative, magnitude)) :
    r.toBits.toNat / 2 ^ 63 = if negative then 1 else 0 := by
  have hbits : r.toBits.toNat < 2 ^ 64 := r.toBits.toBitVec.isLt
  have hnegative : (r.toBits.toNat / 2 ^ 63 == 1) = negative := congrArg Prod.fst h
  obtain hbit | hbit : r.toBits.toNat / 2 ^ 63 = 0 ∨ r.toBits.toNat / 2 ^ 63 = 1 := by omega
  · rw [← hnegative, hbit]
    rfl
  · rw [← hnegative, hbit]
    rfl

theorem eq_zero_of_ofFloat {r : Float} {negative : Bool} (h : ofFloat r = (negative, .zero)) :
    r = if negative then -0.0 else 0.0 := by
  have hsign := sign_of_ofFloat h
  have hbits : r.toBits.toNat < 2 ^ 64 := r.toBits.toBitVec.isLt
  have hpow : Nat.pow 2 52 = 2 ^ 52 ∧ Nat.pow 2 11 = 2 ^ 11 := ⟨rfl, rfl⟩
  have hfields : r.toBits.toNat / 2 ^ 52 % 2 ^ 11 = 0 ∧ r.toBits.toNat % 2 ^ 52 = 0 := by
    simp only [ofFloat, hpow, Prod.mk.injEq] at h
    obtain ⟨-, hmagnitude⟩ := h
    split at hmagnitude
    · split at hmagnitude <;> cases hmagnitude
    · split at hmagnitude
      · split at hmagnitude
        · exact ⟨by assumption, by assumption⟩
        · cases hmagnitude
      · cases hmagnitude
  refine eq_of_toBits ?_
  cases negative with
  | true =>
    have hzero : (-0.0 : Float).toBits.toNat = 2 ^ 63 := by decide +kernel
    rw [if_pos rfl] at hsign ⊢
    omega
  | false =>
    have hzero : (0.0 : Float).toBits.toNat = 0 := by decide +kernel
    rw [if_neg Bool.false_ne_true] at hsign ⊢
    omega

theorem eq_ofModel_of_ofFloat {r : Float} {negative : Bool} {m : Nat} {q : Int}
    (h : ofFloat r = (negative, .finite m q)) : ∃ hfits : Fits m q,
      r = .ofModel (.pack (.finite (if negative then .negative else .positive) m q
        hfits.pos)) := by
  have hsign := sign_of_ofFloat h
  have hfields : Fits m q ∧ r.toBits.toNat =
      (if negative then 1 else 0) * 2 ^ 63 + (fields m q).1 * 2 ^ 52 + (fields m q).2 := by
    have hpow : Nat.pow 2 52 = 2 ^ 52 ∧ Nat.pow 2 11 = 2 ^ 11 := ⟨rfl, rfl⟩
    simp only [ofFloat, hpow, Prod.mk.injEq] at h
    obtain ⟨-, hmagnitude⟩ := h
    rw [← hsign]
    have hbits : r.toBits.toNat < 2 ^ 64 := r.toBits.toBitVec.isLt
    generalize r.toBits.toNat = bits at hbits hmagnitude
    split at hmagnitude
    · split at hmagnitude <;> cases hmagnitude
    · split at hmagnitude
      · split at hmagnitude
        · cases hmagnitude
        · cases hmagnitude
          refine ⟨⟨⟨by omega, by omega, by omega, .inr rfl⟩, by omega⟩, ?_⟩
          rw [fields, if_neg (by omega)]
          dsimp only
          omega
      · cases hmagnitude
        refine ⟨⟨⟨by omega, by omega, by omega, .inl (by omega)⟩, by omega⟩, ?_⟩
        rw [fields, if_pos (by omega)]
        dsimp only
        omega
  obtain ⟨hfits, hvalue⟩ := hfields
  refine ⟨hfits, eq_of_toBits (hvalue.trans ?_)⟩
  refine Eq.trans ?_ (hfits.toNat_pack _).symm
  cases negative <;> rfl

theorem eq_signed_of_ofFloat {r : Float} {negative : Bool} {m : Nat} {q : Int}
    (h : ofFloat r = (negative, .finite m q)) : ∃ hfits : Fits m q,
      r = if negative then -.ofModel (.pack (.finite .positive m q hfits.pos))
        else .ofModel (.pack (.finite .positive m q hfits.pos)) := by
  obtain ⟨hfits, hr⟩ := eq_ofModel_of_ofFloat h
  refine ⟨hfits, hr.trans ?_⟩
  cases negative with
  | false => rfl
  | true =>
    have hneg : UnpackedFloat.neg (Float.Model.pack (.finite .positive m q hfits.pos)).unpack =
        .finite .negative m q hfits.pos := by
      rw [hfits.unpack_pack]
      rfl
    exact congrArg (fun x => Float.ofModel (.pack x)) hneg.symm

end Lisplet.Magnitude
