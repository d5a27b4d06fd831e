import Lisplet.Number

/-! The texts of numbers as numerals: their characters, and what is read from them. -/
namespace Lisplet

namespace Numeral

def IsNumeralChar (c : Char) : Prop := c.isDigit = true ∨ c = '-' ∨ c = '.' ∨ c = 'e'

theorem value_toDigits (n : Nat) : value (Nat.toDigits 10 n) = n :=
  Nat.ofDigitChars_ten_toDigits

theorem isDigit_of_mem_toDigits {n : Nat} {c : Char} (h : c ∈ Nat.toDigits 10 n) :
    c.isDigit = true :=
  Nat.isDigit_of_mem_toDigits (by decide) (by decide) h

theorem splitSign_of_isDigit {c : Char} {cs : List Char} (h : c.isDigit = true) :
    splitSign (c :: cs) = (false, c :: cs) := by
  unfold splitSign
  split <;> simp_all [Char.isDigit]

theorem integer?_toDigits (n : Nat) : integer? (Nat.toDigits 10 n) = some (n : Int) := by
  obtain ⟨c, cs, heq⟩ := List.exists_cons_of_ne_nil (Nat.toDigits_ne_nil (n := n) (b := 10))
  have hall : (c :: cs).all Char.isDigit = true :=
    List.all_eq_true.2 fun x hx => isDigit_of_mem_toDigits (by rw [heq]; exact hx)
  have hc : c.isDigit = true := by simp_all
  rw [heq, integer?, splitSign_of_isDigit hc]
  simp only [hall, if_true]
  rw [← heq, value_toDigits]
  rfl

theorem integer?_neg_toDigits (n : Nat) :
    integer? ('-' :: Nat.toDigits 10 n) = some (-(n : Int)) := by
  obtain ⟨c, cs, heq⟩ := List.exists_cons_of_ne_nil (Nat.toDigits_ne_nil (n := n) (b := 10))
  have hall : (c :: cs).all Char.isDigit = true :=
    List.all_eq_true.2 fun x hx => isDigit_of_mem_toDigits (by rw [heq]; exact hx)
  rw [heq, integer?, splitSign]
  simp only [hall, if_true]
  rw [← heq, value_toDigits]

theorem toList_repr (n : Int) : n.repr.toList =
    if 0 ≤ n then Nat.toDigits 10 n.toNat else '-' :: Nat.toDigits 10 (-n).toNat := by
  rw [Int.repr_eq_if]
  split <;> simp

theorem integer?_repr (n : Int) : integer? n.repr.toList = some n := by
  rw [toList_repr]
  split
  · rw [integer?_toDigits, Int.toNat_of_nonneg (by assumption)]
  · rw [integer?_neg_toDigits, Int.toNat_of_nonneg (by omega), Int.neg_neg]

theorem integer?_eq_none {c : Char} {cs : List Char} (hmem : c ∈ cs) (h : c = '.' ∨ c = 'e') :
    integer? cs = none := by
  have hrest : c ∈ (splitSign cs).2 := by
    unfold splitSign
    split
    · obtain rfl | hmem := List.mem_cons.1 hmem
      · simp at h
      · exact hmem
    · obtain rfl | hmem := List.mem_cons.1 hmem
      · simp at h
      · exact hmem
    · exact hmem
  have hc : c.isDigit = false := by
    obtain rfl | rfl := h <;> rfl
  unfold integer?
  split
  · rfl
  · next negative digits _ hsplit =>
    rw [hsplit] at hrest
    have hall : digits.all Char.isDigit = false :=
      List.all_eq_false.2 ⟨c, hrest, by simp [hc]⟩
    simp [hall]

def spelling (whole fraction : List Char) (power : Option Int) : List Char :=
  whole ++ ((if fraction.isEmpty then [] else '.' :: fraction) ++
    power.elim [] fun p => 'e' :: p.repr.toList)

theorem isNumeralChar_of_mem_repr {n : Int} {c : Char} (h : c ∈ n.repr.toList) :
    IsNumeralChar c := by
  rw [toList_repr] at h
  split at h
  · exact .inl (isDigit_of_mem_toDigits h)
  · obtain rfl | h := List.mem_cons.1 h
    · exact .inr (.inl rfl)
    · exact .inl (isDigit_of_mem_toDigits h)

theorem isNumeralChar_of_mem_spelling {whole fraction : List Char} {power : Option Int} {c : Char}
    (hwhole : ∀ x ∈ whole, x.isDigit = true) (hfraction : ∀ x ∈ fraction, x.isDigit = true)
    (h : c ∈ spelling whole fraction power) : IsNumeralChar c := by
  simp only [spelling, List.mem_append] at h
  obtain h | h | h := h
  · exact .inl (hwhole c h)
  · split at h
    · cases h
    · obtain rfl | h := List.mem_cons.1 h
      · exact .inr (.inr (.inl rfl))
      · exact .inl (hfraction c h)
  · cases power with
    | none => cases h
    | some p =>
      obtain rfl | h := List.mem_cons.1 h
      · exact .inr (.inr (.inr rfl))
      · exact isNumeralChar_of_mem_repr h

theorem toLower_of_isDigit {c : Char} (h : c.isDigit = true) : c.toLower = c := by
  simp only [Char.isDigit, Bool.and_eq_true, decide_eq_true_eq, ge_iff_le,
    UInt32.le_iff_toNat_le] at h
  refine dif_neg ?_
  simp only [ge_iff_le, UInt32.le_iff_toNat_le]
  simp only [Char.reduceVal, UInt32.reduceToNat] at h ⊢
  omega

theorem word?_of_isDigit {c : Char} {cs : List Char} (h : c.isDigit = true) :
    word? (c :: cs) = none := by
  have hhead (w : String) (heq : String.ofList ((c :: cs).map Char.toLower) = w) :
      w.toList.head? = some c := by
    subst heq
    simp [toLower_of_isDigit h]
  have hletter (x : Char) (hx : x.isDigit = false) : x ≠ c := by
    rintro rfl
    simp [hx] at h
  unfold word?
  split
  · next heq => exact absurd (by simpa using hhead _ heq) (hletter 'i' rfl)
  · next heq => exact absurd (by simpa using hhead _ heq) (hletter 'i' rfl)
  · next heq => exact absurd (by simpa using hhead _ heq) (hletter 'n' rfl)
  · rfl

theorem takeWhile_digits {ds rest : List Char} (hds : ∀ x ∈ ds, x.isDigit = true)
    (hrest : ∀ x ∈ rest.head?, x.isDigit = false) :
    (ds ++ rest).takeWhile Char.isDigit = ds ∧ (ds ++ rest).dropWhile Char.isDigit = rest := by
  rw [List.takeWhile_append_of_pos hds, List.dropWhile_append_of_pos hds]
  cases rest with
  | nil => simp
  | cons x xs => simp [hrest x rfl]

section
variable {whole fraction rest : List Char} (hne : whole ≠ [])
  (hwhole : ∀ x ∈ whole, x.isDigit = true) (hfraction : ∀ x ∈ fraction, x.isDigit = true)
  (hrest : ∀ x ∈ rest.head?, x.isDigit = false)
include hne hwhole hrest

theorem unsigned?_whole (hpoint : ∀ x ∈ rest.head?, x ≠ '.') :
    unsigned? (whole ++ rest) = (power? rest).map fun p => nearest (value whole) p := by
  obtain ⟨htake, hdrop⟩ := takeWhile_digits hwhole hrest
  simp only [unsigned?, htake, hdrop]
  split
  · exact absurd rfl (hpoint '.' rfl)
  · cases power? rest <;> simp [hne]

include hfraction in
theorem unsigned?_point :
    unsigned? (whole ++ '.' :: (fraction ++ rest)) =
      (power? rest).map fun p => nearest (value (whole ++ fraction)) (p - fraction.length) := by
  have hpoint : ∀ x ∈ ('.' :: (fraction ++ rest)).head?, x.isDigit = false := by
    rintro x ⟨⟩
    rfl
  obtain ⟨htake, hdrop⟩ := takeWhile_digits hwhole hpoint
  obtain ⟨htake', hdrop'⟩ := takeWhile_digits hfraction hrest
  simp only [unsigned?, htake, hdrop, htake', hdrop']
  cases power? rest <;> simp [hne]

end

theorem unsigned?_spelling {whole fraction : List Char} (power : Option Int) (hne : whole ≠ [])
    (hwhole : ∀ x ∈ whole, x.isDigit = true) (hfraction : ∀ x ∈ fraction, x.isDigit = true) :
    unsigned? (spelling whole fraction power) =
      some (nearest (value (whole ++ fraction)) (power.getD 0 - fraction.length)) := by
  have hhead : ∀ x ∈ (power.elim [] fun p => 'e' :: p.repr.toList).head?, x = 'e' := by
    intro x hx
    cases power with
    | none => cases hx
    | some p => cases hx; rfl
  have hdigit : ∀ x ∈ (power.elim [] fun p => 'e' :: p.repr.toList).head?, x.isDigit = false := by
    intro x hx
    rw [hhead x hx]
    rfl
  have hpower : power? (power.elim [] fun p => 'e' :: p.repr.toList) = some (power.getD 0) := by
    cases power with
    | none => rfl
    | some p => simp [power?, integer?_repr]
  cases fraction with
  | nil =>
    have hpoint : ∀ x ∈ (power.elim [] fun p => 'e' :: p.repr.toList).head?, x ≠ '.' := by
      intro x hx
      rw [hhead x hx]
      decide
    have h := unsigned?_whole hne hwhole hdigit hpoint
    simpa [spelling, hpower] using h
  | cons f fs =>
    have h := unsigned?_point hne hwhole hfraction hdigit
    simpa [spelling, hpower] using h

end Numeral

end Lisplet
