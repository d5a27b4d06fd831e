import Lisplet.Value.Equality

/-! Equality of values with its pending pairs is equality by recursion: two lists are equal when
they are of one length and equal element by element. It is symmetric. It is not reflexive: a value
equals itself unless the unspecified value or a real that is no number stands somewhere in it. -/
namespace Lisplet

section
open Float.Model Float.Model.UnpackedFloat

theorem UnpackedFloat.compare_swap (a b : UnpackedFloat) :
    b.compare a = (a.compare b).map Ordering.swap := by
  have hsigns (s t : Sign) : compare t s = (compare s t).swap := by
    cases s <;> cases t <;> rfl
  have hfinite (e e' : Int) (m m' : Nat) : (compare e' e).then (compare m' m) =
      ((compare e e').then (compare m m')).swap := by
    rw [Ordering.swap_then, Int.compare_swap, Nat.compare_swap]
  cases a with
  | notANumber => cases b <;> rfl
  | infinity s =>
    cases b with
    | infinity t => exact congrArg some (hsigns s t)
    | _ => cases s <;> rfl
  | zero s =>
    cases b with
    | infinity t | finite t => cases t <;> rfl
    | _ => rfl
  | finite s m e =>
    cases b with
    | infinity t => cases t <;> rfl
    | finite t m' e' =>
      have horder := hfinite e e' m m'
      cases s <;> cases t
      case negative.negative => exact congrArg (fun o => some o.swap) horder
      case positive.positive => exact congrArg some horder
      all_goals rfl
    | _ => cases s <;> rfl

theorem Real.beq_comm (x y : Float) : (x == y) = (y == x) := by
  have hswap := UnpackedFloat.compare_swap x.toModel.unpack y.toModel.unpack
  change (x.toModel.unpack.compare y.toModel.unpack == some .eq) =
    (y.toModel.unpack.compare x.toModel.unpack == some .eq)
  rw [hswap]
  cases x.toModel.unpack.compare y.toModel.unpack with
  | none => rfl
  | some o => cases o <;> rfl

end

theorem Number.same_comm (a b : Number) : a.same b = b.same a := by
  cases a <;> cases b <;> simp only [Number.same, Real.beq_comm, Bool.beq_comm]

namespace Value

mutual

def equal : Value → Value → Bool
  | number a, number b => a.same b
  | symbol a, symbol b => a == b
  | string a, string b => a == b
  | bool a, bool b => a == b
  | list xs, list ys => equalItems xs ys
  | closure a, closure b => a.id == b.id
  | builtin a, builtin b => a.name == b.name
  | _, _ => false

def equalItems : List Value → List Value → Bool
  | [], [] => true
  | x :: xs, y :: ys => x.equal y && equalItems xs ys
  | _, _ => false

end

theorem equal_list (xs ys : List Value) :
    (list xs).equal (list ys) =
      (xs.length == ys.length && (xs.zip ys).all fun (x, y) => x.equal y) := by
  rw [equal]
  induction xs generalizing ys with
  | nil => cases ys <;> rfl
  | cons x xs ih =>
    cases ys with
    | nil => rfl
    | cons y ys =>
      rw [equalItems, ih]
      simp [Bool.and_left_comm]

theorem equal_eq_sameAtom {x y : Value} (h : (∀ xs, x ≠ list xs) ∨ ∀ ys, y ≠ list ys) :
    x.equal y = x.sameAtom y := by
  cases x with
  | list xs =>
    cases y with
    | list ys => exact (h.elim (· xs rfl) (· ys rfl)).elim
    | _ => rfl
  | _ => cases y <;> rfl

theorem equalItems_cons_cons (x y : Value) (xs ys : List Value) :
    equalItems (x :: xs) (y :: ys) = (x.equal y && equalItems xs ys) := by
  rw [equalItems]

/-- Invariant of the loop: what is left to compare are the rest of two lists and the pending pairs.
-/
theorem sameAll_eq (xs ys : List Value) (pending : List (List Value × List Value)) :
    sameAll xs ys pending =
      (equalItems xs ys && pending.all fun (xs, ys) => equalItems xs ys) := by
  fun_induction sameAll xs ys pending with
  | case1 => rfl
  | case2 xs ys pending ih =>
    rw [ih]
    rfl
  | case3 a xs b ys pending ih =>
    rw [ih, equalItems_cons_cons, equal, List.all_cons, Bool.and_left_comm, Bool.and_assoc]
  | case4 x xs y ys pending hlists ih =>
    have hatom : (∀ a, x ≠ list a) ∨ ∀ b, y ≠ list b := by grind
    rw [ih, equalItems_cons_cons, equal_eq_sameAtom hatom, Bool.and_assoc]
  | case5 xs ys pending _ hitems hnil hnext =>
    have hlengths : equalItems xs ys = false := by
      cases xs with
      | nil =>
        cases ys with
        | nil =>
          cases pending with
          | nil => exact (hnil rfl rfl rfl).elim
          | cons p pending => exact (hnext _ _ _ rfl rfl rfl).elim
        | cons y ys => rfl
      | cons x xs =>
        cases ys with
        | nil => rfl
        | cons y ys => exact (hitems _ _ _ _ rfl rfl).elim
    rw [hlengths, Bool.false_and]

theorem same_eq_equal (x y : Value) : x.same y = x.equal y := by
  rw [same, sameAll_eq, equalItems_cons_cons]
  simp [equalItems]

mutual

theorem equal_comm : ∀ x y : Value, x.equal y = y.equal x
  | list xs, list ys => by rw [equal, equal, equalItems_comm xs ys]
  | list _, number _ | list _, symbol _ | list _, string _ | list _, bool _ | list _, closure _
  | list _, builtin _ | list _, unspecified => rfl
  | number _, y | symbol _, y | string _, y | bool _, y | closure _, y | builtin _, y
  | unspecified, y => by
    cases y <;> simp only [equal, Number.same_comm, Bool.beq_comm]

theorem equalItems_comm : ∀ xs ys : List Value, equalItems xs ys = equalItems ys xs
  | [], [] => rfl
  | [], _ :: _ => rfl
  | _ :: _, [] => rfl
  | x :: xs, y :: ys => by rw [equalItems, equalItems, equal_comm x y, equalItems_comm xs ys]

end

/-- The first value is the second or stands somewhere in it, in a list at whatever depth. -/
inductive Occurs (x : Value) : Value → Prop where
  | self : Occurs x x
  | item {items : List Value} {v : Value} (hv : v ∈ items) (h : Occurs x v) : Occurs x (list items)

theorem occurs_list_iff {x : Value} {items : List Value} :
    x.Occurs (list items) ↔ x = list items ∨ ∃ v ∈ items, x.Occurs v := by
  constructor
  · intro h
    cases h with
    | self => exact .inl rfl
    | item hv h => exact .inr ⟨_, hv, h⟩
  · rintro (rfl | ⟨v, hv, h⟩)
    · exact .self
    · exact .item hv h

theorem occurs_iff_eq {x v : Value} (hv : ∀ items, v ≠ list items) : x.Occurs v ↔ x = v := by
  constructor
  · intro h
    cases h with
    | self => rfl
    | item => exact absurd rfl (hv _)
  · rintro rfl
    exact .self

/-- Nothing in the value differs from itself. -/
def Ordinary (v : Value) : Prop :=
  ¬ unspecified.Occurs v ∧ ∀ r, (real r).Occurs v → (r == r) = true

theorem ordinary_list_iff {items : List Value} :
    (list items).Ordinary ↔ ∀ v ∈ items, v.Ordinary := by
  simp only [Ordinary, occurs_list_iff, real, reduceCtorEq, false_or]
  grind

theorem equalItems_self_iff {items : List Value} :
    equalItems items items = true ↔ ∀ v ∈ items, v.equal v = true := by
  induction items with
  | nil => simp [equalItems]
  | cons v items ih => rw [equalItems_cons_cons, Bool.and_eq_true, ih, List.forall_mem_cons]

theorem equal_self_iff (v : Value) : v.equal v = true ↔ v.Ordinary := by
  match v with
  | list items =>
    rw [equal, equalItems_self_iff, ordinary_list_iff]
    exact forall₂_congr fun v hv => equal_self_iff v
  | number (.real r) => simp [Ordinary, occurs_iff_eq, equal, real, Number.same, Number.toReal]
  | number (.int n) => simp [Ordinary, occurs_iff_eq, equal, real, Number.same]
  | symbol _ | string _ | bool _ | closure _ | builtin _ =>
    simp [Ordinary, occurs_iff_eq, equal, real]
  | unspecified => simp [Ordinary, equal, Occurs.self]
termination_by sizeOf v

/-- Equality as it is decided with pending pairs is equality by recursion, where two lists are equal
if they are of one length and their elements equal in pairs. It is symmetric, and a value equals
itself if and only if neither the unspecified value nor a real that differs from itself stands in
it. -/
theorem same_structural :
    (∀ x y : Value, x.same y = x.equal y) ∧
    (∀ xs ys, (list xs).equal (list ys) =
      (xs.length == ys.length && (xs.zip ys).all fun (x, y) => x.equal y)) ∧
    (∀ x y : Value, x.same y = y.same x) ∧
    ∀ v : Value, v.same v = true ↔
      ¬ unspecified.Occurs v ∧ ¬ ∃ r, (real r).Occurs v ∧ (r != r) = true := by
  refine ⟨same_eq_equal, equal_list, fun x y => ?_, fun v => ?_⟩
  · rw [same_eq_equal, same_eq_equal, equal_comm]
  · rw [same_eq_equal, equal_self_iff, Ordinary]
    simp only [not_exists, not_and, bne, Bool.not_eq_true', Bool.not_eq_false]

end Value

end Lisplet
