import Lisplet.Proofs.Numerals
import Lisplet.Proofs.ShortestDecimal

/-! The text of a real is a numeral that denotes the decimal it was laid out from, and is read as
that real. -/
namespace Lisplet

namespace Numeral

theorem value_append (ds es : List Char) :
    value (ds ++ es) = 10 ^ es.length * value ds + value es := by
  change Nat.ofDigitChars 10 (ds ++ es) 0 = _
  rw [Nat.ofDigitChars_append, Nat.ofDigitChars_eq_ofDigitChars_zero]
  rfl

theorem value_replicate_zero (n : Nat) : value (List.replicate n '0') = 0 := by
  change Nat.ofDigitChars 10 (List.replicate n '0') 0 = 0
  rw [Nat.ofDigitChars_replicate_zero, Nat.mul_zero]

/-- A text without a sign that is no integer and denotes a decimal. The digits may end with more
zeros than those of the decimal. -/
structure Denotes (text : List Char) (d : Decimal) where
  whole : List Char
  fraction : List Char
  power : Option Int
  zeros : Nat
  text_eq : text = spelling whole fraction power
  whole_ne_nil : whole ≠ []
  whole_digits : ∀ x ∈ whole, x.isDigit = true
  fraction_digits : ∀ x ∈ fraction, x.isDigit = true
  not_integer : fraction ≠ [] ∨ power.isSome
  value_eq : value (whole ++ fraction) = d.digits * 10 ^ zeros
  exponent_eq : power.getD 0 - fraction.length = d.exponent - zeros

namespace Denotes
variable {text : List Char} {d : Decimal} (h : Denotes text d)
include h

theorem isNumeralChar : ∀ c ∈ text, IsNumeralChar c := by
  intro c hc
  rw [h.text_eq] at hc
  exact isNumeralChar_of_mem_spelling h.whole_digits h.fraction_digits hc

theorem starts_with_digit : ∃ c cs, text = c :: cs ∧ c.isDigit = true := by
  obtain ⟨c, cs, heq⟩ := List.exists_cons_of_ne_nil h.whole_ne_nil
  have htext : text = c :: (cs ++ _) := h.text_eq.trans (by rw [spelling, heq, List.cons_append])
  exact ⟨c, _, htext, h.whole_digits c (by simp [heq])⟩

theorem exists_mark : ∃ c ∈ text, c = '.' ∨ c = 'e' := by
  rw [h.text_eq, spelling]
  obtain hfraction | hpower := h.not_integer
  · exact ⟨'.', by simp [hfraction], .inl rfl⟩
  · obtain ⟨p, hp⟩ := Option.isSome_iff_exists.1 hpower
    exact ⟨'e', by simp [hp], .inr rfl⟩

theorem unsigned?_eq :
    unsigned? text = some (nearest (d.digits * 10 ^ h.zeros) (d.exponent - h.zeros)) := by
  have hread := unsigned?_spelling h.power h.whole_ne_nil h.whole_digits h.fraction_digits
  rwa [← h.text_eq, h.value_eq, h.exponent_eq] at hread

theorem real?_signed (negative : Bool) {x : Float}
    (hx : nearest (d.digits * 10 ^ h.zeros) (d.exponent - h.zeros) = x) :
    real? ((if negative then ['-'] else []) ++ text) = some (if negative then -x else x) := by
  obtain ⟨c, cs, heq, hc⟩ := h.starts_with_digit
  have hword : word? text = none := by
    rw [heq]
    exact word?_of_isDigit hc
  have hsign : splitSign ((if negative then ['-'] else []) ++ text) = (negative, text) := by
    cases negative with
    | true => rfl
    | false =>
      rw [heq]
      exact splitSign_of_isDigit hc
  simp only [real?, hsign, hword, h.unsigned?_eq, hx]
  rfl

theorem integer?_signed (negative : Bool) :
    integer? ((if negative then ['-'] else []) ++ text) = none := by
  obtain ⟨c, hmem, hc⟩ := h.exists_mark
  exact integer?_eq_none (List.mem_append_right _ hmem) hc

end Denotes

end Numeral

namespace RealStyle
open Numeral Rounding

theorem isDigit_of_mem_zeros {n : Int} {c : Char} (h : c ∈ zeros n) : c.isDigit = true := by
  rw [List.eq_of_mem_replicate h]
  rfl

section
variable {d : Decimal} {digits : List Char} {power : Int}
  (hdigits : digits = Nat.toDigits 10 d.digits)
  (hexponent : power = d.exponent + digits.length - 1)
include hdigits hexponent

omit hdigits in
theorem exponent_belowOne (hpower : power < 0) :
    (none : Option Int).getD 0 - (zeros (-power - 1) ++ digits).length = d.exponent - (0 : Nat) := by
  simp [zeros]
  omega

def denotesBelowOne (hpower : power < 0) : Denotes (source.inFull digits power).toList d where
  whole := ['0']
  fraction := zeros (-power - 1) ++ digits
  power := none
  zeros := 0
  text_eq := by
    have hne : digits ≠ [] := hdigits ▸ Nat.toDigits_ne_nil
    simp [inFull, hpower, spelling, hne]
  whole_ne_nil := by simp
  whole_digits := by simp
  fraction_digits := by
    intro x hx
    obtain hx | hx := List.mem_append.1 hx
    · exact isDigit_of_mem_zeros hx
    · exact isDigit_of_mem_toDigits (hdigits ▸ hx)
  not_integer := by
    refine .inl ?_
    rw [hdigits]
    simp [Nat.toDigits_ne_nil]
  value_eq := by
    have hzeros : value ('0' :: zeros (-power - 1)) = 0 :=
      value_replicate_zero ((-power - 1).toNat + 1)
    rw [List.cons_append, List.nil_append, ← List.cons_append, value_append, hzeros, hdigits,
      value_toDigits]
    simp
  exponent_eq := exponent_belowOne hexponent hpower

def denotesWhole (hpower : 0 ≤ power) (hlength : digits.length ≤ power.toNat + 1) :
    Denotes (source.inFull digits power).toList d where
  whole := digits ++ zeros (power + 1 - digits.length)
  fraction := ['0']
  power := none
  zeros := (power + 1 - digits.length).toNat + 1
  text_eq := by
    simp [inFull, Int.not_lt.2 hpower, hlength, spelling, source]
  whole_ne_nil := by
    rw [hdigits]
    simp [Nat.toDigits_ne_nil]
  whole_digits := by
    intro x hx
    obtain hx | hx := List.mem_append.1 hx
    · exact isDigit_of_mem_toDigits (hdigits ▸ hx)
    · exact isDigit_of_mem_zeros hx
  fraction_digits := by simp
  not_integer := .inl (by simp)
  value_eq := by
    have hzeros : zeros (power + 1 - digits.length) ++ ['0'] =
        List.replicate ((power + 1 - digits.length).toNat + 1) '0' := by
      rw [zeros, List.replicate_succ']
    rw [List.append_assoc, hzeros, value_append, value_replicate_zero, List.length_replicate,
      Nat.add_zero, Nat.mul_comm]
    congr 1
    rw [hdigits, value_toDigits]
  exponent_eq := by
    simp
    omega

def denotesInside (hpower : 0 ≤ power) (hlength : power.toNat + 1 < digits.length) :
    Denotes (source.inFull digits power).toList d where
  whole := digits.take (power.toNat + 1)
  fraction := digits.drop (power.toNat + 1)
  power := none
  zeros := 0
  text_eq := by
    have hdrop : ¬ digits.length ≤ power.toNat + 1 := by omega
    simp [inFull, Int.not_lt.2 hpower, hdrop, spelling]
  whole_ne_nil := by
    rw [hdigits]
    simp [Nat.toDigits_ne_nil]
  whole_digits := by
    intro x hx
    exact isDigit_of_mem_toDigits (hdigits ▸ List.mem_of_mem_take hx)
  fraction_digits := by
    intro x hx
    exact isDigit_of_mem_toDigits (hdigits ▸ List.mem_of_mem_drop hx)
  not_integer := by
    refine .inl fun hnil => ?_
    rw [List.drop_eq_nil_iff] at hnil
    omega
  value_eq := by
    rw [List.take_append_drop, hdigits, value_toDigits]
    simp
  exponent_eq := by
    simp only [Option.getD_none, List.length_drop]
    omega

def denotesPower : Denotes (withPower digits power).toList d where
  whole := digits.take 1
  fraction := digits.drop 1
  power := some power
  zeros := 0
  text_eq := by
    match digits with
    | [] => simp [withPower, spelling]
    | [first] => simp [withPower, spelling]
    | first :: second :: rest => simp [withPower, spelling]
  whole_ne_nil := by
    rw [hdigits]
    simp [Nat.toDigits_ne_nil]
  whole_digits := by
    intro x hx
    exact isDigit_of_mem_toDigits (hdigits ▸ List.mem_of_mem_take hx)
  fraction_digits := by
    intro x hx
    exact isDigit_of_mem_toDigits (hdigits ▸ List.mem_of_mem_drop hx)
  not_integer := .inr rfl
  value_eq := by
    rw [List.take_append_drop, hdigits, value_toDigits]
    simp
  exponent_eq := by
    have hlength : 0 < digits.length := hdigits ▸ Nat.length_toDigits_pos
    simp only [Option.getD_some, List.length_drop]
    omega

end

theorem decimal_denotes (d : Decimal) : Nonempty (Denotes (source.decimal d).toList d) := by
  let digits := Nat.toDigits 10 d.digits
  let power := d.exponent + digits.length - 1
  have hdecimal : source.decimal d =
      if source.positional power then source.inFull digits power else withPower digits power := rfl
  rw [hdecimal]
  by_cases hpositional : source.positional power = true
  · rw [if_pos hpositional]
    by_cases hpower : power < 0
    · exact ⟨denotesBelowOne rfl rfl hpower⟩
    · by_cases hlength : digits.length ≤ power.toNat + 1
      · exact ⟨denotesWhole rfl rfl (Int.not_lt.1 hpower) hlength⟩
      · exact ⟨denotesInside rfl rfl (Int.not_lt.1 hpower) (Nat.not_le.1 hlength)⟩
  · rw [if_neg hpositional]
    exact ⟨denotesPower rfl rfl⟩

theorem zero_denotes : Nonempty (Denotes ("0" ++ source.wholeEnd).toList ⟨0, 0⟩) :=
  ⟨{ whole := ['0'], fraction := ['0'], power := none, zeros := 1
     text_eq := by simp [source, spelling]
     whole_ne_nil := by simp
     whole_digits := by simp
     fraction_digits := by simp
     not_integer := .inl (by simp)
     value_eq := by simpa using value_replicate_zero 2
     exponent_eq := by simp }⟩

def writtenDecimal : Magnitude → Decimal
  | .finite m q => Decimal.shortest m q
  | _ => ⟨0, 0⟩

theorem source_text {r : Float} (h : r.isFinite = true) :
    ∃ body, (source.text r).toList =
        (if (Magnitude.ofFloat r).1 then ['-'] else []) ++ body ∧
      Nonempty (Denotes body (writtenDecimal (Magnitude.ofFloat r).2)) := by
  obtain ⟨negative, magnitude, heq⟩ : ∃ negative magnitude,
      Magnitude.ofFloat r = (negative, magnitude) := ⟨_, _, rfl⟩
  have hmagnitude := Magnitude.ofFloat_of_isFinite h
  rw [heq] at hmagnitude
  simp only [text, heq]
  obtain rfl | ⟨m, q, rfl⟩ := hmagnitude
  · refine ⟨("0" ++ source.wholeEnd).toList, ?_, zero_denotes⟩
    cases negative <;> simp
  · refine ⟨(source.decimal (Decimal.shortest m q)).toList, ?_, decimal_denotes _⟩
    cases negative <;> simp

theorem real?_source_text {r : Float} (h : r.isFinite = true) :
    real? (source.text r).toList = some r := by
  obtain ⟨body, htext, ⟨hbody⟩⟩ := source_text h
  obtain ⟨negative, magnitude, heq⟩ : ∃ negative magnitude,
      Magnitude.ofFloat r = (negative, magnitude) := ⟨_, _, rfl⟩
  have hmagnitude := Magnitude.ofFloat_of_isFinite h
  rw [heq] at hbody htext hmagnitude
  rw [htext]
  obtain rfl | ⟨m, q, rfl⟩ := hmagnitude
  · have hzero : nearest ((writtenDecimal .zero).digits * 10 ^ hbody.zeros)
        ((writtenDecimal .zero).exponent - hbody.zeros) = 0.0 := by
      simp [nearest, writtenDecimal]
    rw [hbody.real?_signed negative hzero, Magnitude.eq_zero_of_ofFloat heq]
  · obtain ⟨hfits, hr⟩ := Magnitude.eq_signed_of_ofFloat heq
    obtain ⟨hpos, hrounds⟩ := Decimal.shortest_roundsTo hfits.toCanonical
    have hvalue : ((writtenDecimal (.finite m q)).digits * 10 ^ hbody.zeros : Nat) *
        (10 : ℚ) ^ ((writtenDecimal (.finite m q)).exponent - hbody.zeros) =
          (Decimal.shortest m q).toRat := by
      rw [zpow_sub₀ (by norm_num), zpow_natCast, Decimal.toRat]
      simp only [writtenDecimal]
      push_cast
      field_simp
    rw [← hvalue] at hrounds
    have hdigits : 0 < (writtenDecimal (.finite m q)).digits * 10 ^ hbody.zeros :=
      Nat.mul_pos hpos (Nat.pow_pos (by decide))
    rw [hbody.real?_signed negative (nearest_of_roundsTo hfits hdigits hrounds), ← hr]

end RealStyle

end Lisplet
