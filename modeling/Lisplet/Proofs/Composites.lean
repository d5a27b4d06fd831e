import Lisplet.Proofs.Activations
import Lisplet.Session

/-! Procedures that `compose` makes. They are called from within one another without an evaluation
in between, so the limit on the depth is never asked for. -/
namespace Lisplet
open Run

theorem Run.Local.ends_atHostDepth {α : Type} {m : Run α} {w w' : World} {o : Except Error α}
    (h : m.Local) (hends : m.Ends w o w') (depth : Nat) :
    m.Ends (w.atHostDepth depth) o (w'.atHostDepth depth) := by
  obtain ⟨result, store, console, disk, hrun⟩ := h w.store w.console w.disk
  have houter : m w = _ := hrun w.host w.hostDepth
  have hinner : m (w.atHostDepth depth) = _ := hrun w.host depth
  unfold Ends at hends ⊢
  rw [hends] at houter
  rw [hinner]
  cases o <;> cases result <;> simp_all [World.atHostDepth]

theorem apply_builtin {b : Builtin} {args : List Value} {fuel : Nat}
    (h : (b.run (apply fuel) args).Local) :
    apply (fuel + 1) (.builtin b) args = b.run (apply fuel) args := by
  rw [apply]
  funext w
  change Form.callBuiltin (apply fuel) b args (w.hostDepth + 1) w = _
  rw [Form.callBuiltin, h.atHostDepth_eq]

inductive Composite where
  | op (op : Unary)
  | compose (outer inner : Composite)

namespace Composite

def builtin : Composite → Builtin
  | op u => .unary u
  | compose outer inner => .composed (.builtin outer.builtin) (.builtin inner.builtin)

def procedure (c : Composite) : Value := .builtin c.builtin

def height : Composite → Nat
  | op _ => 0
  | compose outer inner => max outer.height inner.height + 1

def run : Composite → Value → Run Value
  | op u, x => u.run x
  | compose outer inner, x => inner.run x >>= outer.run

theorem composed_procedure (outer inner : Composite) :
    Binary.composed outer.procedure inner.procedure = pure (compose outer inner).procedure := by
  cases outer <;> cases inner <;> rfl

theorem local_run (c : Composite) (x : Value) : (c.run x).Local := by
  induction c generalizing x with
  | op u => exact u.local_run x
  | compose outer inner houter hinner => exact (hinner x).bind houter

theorem apply_procedure (c : Composite) {fuel : Nat} (h : c.height < fuel) (x : Value) :
    apply fuel c.procedure [x] = c.run x := by
  induction c generalizing fuel x with
  | op u =>
    obtain ⟨fuel, rfl⟩ := Nat.exists_eq_succ_of_ne_zero (Nat.ne_of_gt h)
    exact apply_builtin (u.local_run x)
  | compose outer inner houter hinner =>
    obtain ⟨fuel, rfl⟩ := Nat.exists_eq_succ_of_ne_zero (Nat.ne_of_gt (Nat.zero_lt_of_lt h))
    have hheight : outer.height < fuel ∧ inner.height < fuel := by
      rw [height] at h
      omega
    have hrun : (compose outer inner).builtin.run (apply fuel) [x] =
        (compose outer inner).run x := by
      have houter : (fun y => apply fuel outer.procedure [y]) = outer.run :=
        funext (houter hheight.1)
      change (apply fuel inner.procedure [x] >>= fun y => apply fuel outer.procedure [y]) = _
      rw [hinner hheight.2, houter]
      rfl
    have hlocal := (compose outer inner).local_run x
    rw [← hrun] at hlocal
    rw [← hrun]
    exact apply_builtin hlocal

theorem bigStep (c : Composite) {x : Value} {w w' : World} {o : Except Error Value}
    (h : (c.run x).Ends w o w') : BigStep (.call c.procedure [x]) w o w' := by
  rw [← c.apply_procedure (Nat.lt_succ_self _)] at h
  exact (sound _).2 h

/-- If all operations of the composite succeed, a builtin is begun as deep as the composite is
high. -/
theorem exists_reaches (c : Composite) {x v : Value} {w w' : World}
    (h : (c.run x).Ends w (.ok v) w') (row : Nat) : ∃ b args w₁ row',
      Activation.Reaches ⟨.call c.procedure [x], w, row⟩ ⟨.builtin b args, w₁, row'⟩ ∧
        w₁.hostDepth = w.hostDepth + c.height + 1 := by
  induction c generalizing x v w w' row with
  | op u => exact ⟨_, _, _, _, .single ⟨.callBuiltin, rfl⟩, rfl⟩
  | compose outer inner houter hinner =>
    obtain ⟨y, w₁, hfirst, hsecond⟩ | ⟨e, -, he⟩ := ends_bind.1 h
    · have hfirst := (inner.local_run x).ends_atHostDepth hfirst (w.hostDepth + 1)
      have hsecond := (outer.local_run y).ends_atHostDepth hsecond (w.hostDepth + 1)
      have hcall : Activation.Begins ⟨.call (compose outer inner).procedure [x], w, row⟩
          ⟨.builtin (compose outer inner).builtin [x], w.atHostDepth (w.hostDepth + 1), row + 1⟩ :=
        ⟨.callBuiltin, rfl⟩
      by_cases hle : outer.height ≤ inner.height
      · obtain ⟨b, args, w₂, row', hreaches, hdepth⟩ := hinner hfirst (row + 1)
        have hbegins : Activation.Begins
            ⟨.builtin (compose outer inner).builtin [x], w.atHostDepth (w.hostDepth + 1), row + 1⟩
            ⟨.call inner.procedure [x], w.atHostDepth (w.hostDepth + 1), row + 1⟩ :=
          ⟨.composedInner, rfl⟩
        refine ⟨b, args, w₂, row', .head hcall (.head hbegins hreaches), ?_⟩
        rw [hdepth, World.hostDepth_atHostDepth, height, Nat.max_eq_right hle]
        omega
      · obtain ⟨b, args, w₂, row', hreaches, hdepth⟩ := houter hsecond (row + 1)
        have hinner := inner.bigStep hfirst
        have hbegins : Activation.Begins
            ⟨.builtin (compose outer inner).builtin [x], w.atHostDepth (w.hostDepth + 1), row + 1⟩
            ⟨.call outer.procedure [y], w₁.atHostDepth (w.hostDepth + 1), row + 1⟩ :=
          ⟨.composedOuter hinner, rfl⟩
        refine ⟨b, args, w₂, row', .head hcall (.head hbegins hreaches), ?_⟩
        rw [hdepth, World.hostDepth_atHostDepth, height, Nat.max_eq_left (Nat.le_of_not_le hle)]
        omega
    · cases he

/-- The calls that make up the application of a composite. Each is of a part of it, and it is as
much deeper as the part is less high. -/
inductive Covers (c : Composite) (depth : Nat) : Activation → Prop where
  | call {part : Composite} {y : Value} {w : World} {row : Nat}
    (hdepth : w.hostDepth + part.height ≤ depth + c.height) :
    Covers c depth ⟨.call part.procedure [y], w, row⟩
  | builtin {part : Composite} {y : Value} {w : World} {row : Nat}
    (hdepth : w.hostDepth + part.height ≤ depth + c.height + 1) :
    Covers c depth ⟨.builtin part.builtin [y], w, row⟩

theorem Covers.begins {c : Composite} {depth : Nat} {a a' : Activation} (h : c.Covers depth a)
    (hbegins : a.Begins a') : c.Covers depth a' := by
  obtain ⟨task', w', row'⟩ := a'
  obtain ⟨hstarts, -⟩ := hbegins
  cases h with
  | @call part y w row hdepth =>
    cases hstarts with
    | callBuiltin =>
      refine .builtin ?_
      change w.hostDepth + 1 + part.height ≤ depth + c.height + 1
      omega
  | @builtin part y w row hdepth =>
    cases part with
    | op u => cases hstarts
    | compose outer inner =>
      rw [height] at hdepth
      cases hstarts with
      | composedInner => exact .call (by omega)
      | composedOuter hg =>
        have hw : w'.hostDepth = w.hostDepth := hg.hostDepth_eq
        exact .call (by omega)

theorem Covers.reaches {c : Composite} {depth : Nat} {a a' : Activation} (h : c.Covers depth a)
    (hreaches : a.Reaches a') : c.Covers depth a' := by
  induction hreaches with
  | refl => exact h
  | tail _ hbegins ih => exact ih.begins hbegins

theorem hostDepth_le (c : Composite) {x : Value} {w w' : World} {row row' : Nat} {b : Builtin}
    {args : List Value} (h : Activation.Reaches ⟨.call c.procedure [x], w, row⟩
      ⟨.builtin b args, w', row'⟩) : w'.hostDepth ≤ w.hostDepth + c.height + 1 := by
  have hstart : c.Covers w.hostDepth ⟨.call c.procedure [x], w, row⟩ := .call (Nat.le_refl _)
  cases hstart.reaches h with
  | builtin hdepth => exact Nat.le_trans (Nat.le_add_right _ _) hdepth

end Composite

/-- In every run from host depth zero a builtin is called at most as deep as the limit and the
builtins in a row allow, and no task of the run is left out of account. Builtins in a row are not
limited: a composite of any height does what its operations do one after the other, and if they
succeed the deepest of its builtins has been one deeper than it is high. -/
theorem builtin_depth (w : World) (hw : w.hostDepth = 0) :
    (∀ t : Task, (∃ frame e, t = .expr 0 frame e) ∨ (∃ f args, t = .call f args) →
      ∀ b args w' row, Activation.Reaches ⟨t, w, 0⟩ ⟨.builtin b args, w', row⟩ →
        w'.hostDepth + 1 ≤ maxEvalDepth + row) ∧
    (∀ (t : Task) (w' : World),
      (∀ t' w'', Starts t w' t' w'' → t'.Finishes w'') → t.Finishes w') ∧
    (∀ (ap : Applier) (outer inner : Composite),
      Binary.compose.run ap outer.procedure inner.procedure =
        pure (Composite.compose outer inner).procedure) ∧
    ∀ (c : Composite) (x : Value),
      (∀ fuel, c.height < fuel → apply fuel c.procedure [x] = c.run x) ∧
      (∀ b args w' row,
        Activation.Reaches ⟨.call c.procedure [x], w, 0⟩ ⟨.builtin b args, w', row⟩ →
          w'.hostDepth ≤ c.height + 1) ∧
      ∀ v w', (c.run x).Ends w (.ok v) w' → ∃ b args w₁ row,
        Activation.Reaches ⟨.call c.procedure [x], w, 0⟩ ⟨.builtin b args, w₁, row⟩ ∧
          w₁.hostDepth = c.height + 1 := by
  refine ⟨fun t ht b args w' row hreaches => ?_, fun t w' => finishes_of_starts,
    fun ap outer inner => outer.composed_procedure inner, fun c x =>
      ⟨fun fuel h => c.apply_procedure h x, fun b args w' row hreaches => ?_, fun v w' h => ?_⟩⟩
  · have hstart : Activation.Bounded ⟨t, w, 0⟩ := by
      obtain ⟨frame, e, rfl⟩ | ⟨f, args, rfl⟩ := ht
      · trivial
      · simp [Activation.Bounded, hw, maxEvalDepth]
    exact hstart.reaches hreaches
  · have hle := c.hostDepth_le hreaches
    rwa [hw, Nat.zero_add] at hle
  · have hexists := c.exists_reaches h 0
    rwa [hw, Nat.zero_add] at hexists

theorem builtin_depth_not : ∃ b args w row,
    Activation.Reaches
      ⟨.call (Composite.compose (.op .not) (.op .not)).procedure [.bool true],
        Session.start .empty ⟨[], ""⟩ .empty, 0⟩ ⟨.builtin b args, w, row⟩ ∧
      w.hostDepth = 2 ∧ w.hostDepth + 1 ≤ maxEvalDepth + row ∧
      apply 2 (Composite.compose (.op .not) (.op .not)).procedure [.bool true] =
        (Composite.compose (.op .not) (.op .not)).run (.bool true) := by
  obtain ⟨hbound, -, -, hcomposite⟩ := builtin_depth (Session.start .empty ⟨[], ""⟩ .empty) rfl
  obtain ⟨hrun, -, hdepth⟩ := hcomposite (.compose (.op .not) (.op .not)) (.bool true)
  obtain ⟨b, args, w, row, hreaches, hw⟩ :=
    hdepth (.bool true) (Session.start .empty ⟨[], ""⟩ .empty) rfl
  exact ⟨b, args, w, row, hreaches, hw,
    hbound _ (.inr ⟨_, _, rfl⟩) b args w row hreaches, hrun 2 (by decide)⟩

def Composite.increments : Nat → Composite
  | 0 => .op .increment
  | n + 1 => .compose (increments n) (.op .increment)

theorem Composite.height_increments (n : Nat) : (increments n).height = n := by
  induction n with
  | zero => rfl
  | succ n ih => rw [increments, height, ih, height, Nat.max_eq_left (Nat.zero_le n)]

theorem Unary.run_increment {n : Nat} (h : (n : Int) < Int64.maxValue.toInt) :
    Unary.increment.run (.int (.ofNat n)) = pure (.int (.ofNat (n + 1))) := by
  have hmin : Int64.minValue.toInt = -9223372036854775808 := rfl
  have hmax : Int64.maxValue.toInt = 9223372036854775807 := rfl
  have hn : (Int64.ofNat n).toInt = n := Int64.toInt_ofNat_of_lt (by omega)
  have hone : (1 : Int64).toInt = 1 := rfl
  have hsum : Number.ofInt? ((Int64.ofNat n).toInt + (1 : Int64).toInt) =
      some (.int (.ofNat (n + 1))) := by
    rw [hn, hone, Number.ofInt?, if_pos (by omega)]
    rfl
  change arithmetic ((Number.int (.ofNat n)).add (.int 1)) = _
  rw [Number.add, Number.combine, hsum]
  rfl

theorem Composite.run_increments {n i : Nat} (h : ((i + n : Nat) : Int) < Int64.maxValue.toInt) :
    (increments n).run (.int (.ofNat i)) = pure (.int (.ofNat (i + n + 1))) := by
  induction n generalizing i with
  | zero => exact Unary.run_increment h
  | succ n ih =>
    have hinner : Composite.run (.op .increment) (.int (.ofNat i)) =
        pure (.int (.ofNat (i + 1))) := Unary.run_increment (by omega)
    rw [increments, run, hinner, pure_bind, ih (by omega), Nat.add_right_comm i 1 n]
    rfl

/-- Three hundred calls of `compose` one within the other: the result is there, and a builtin has
been called deeper than the limit and one. -/
theorem builtin_depth_increments :
    apply 301 (Composite.increments 300).procedure [.int 0]
        (Session.start (.standard "/") ⟨[], ""⟩ .empty) =
      .ok (.int 301) (Session.start (.standard "/") ⟨[], ""⟩ .empty) ∧
    ∃ b args w row,
      Activation.Reaches ⟨.call (Composite.increments 300).procedure [.int 0],
        Session.start (.standard "/") ⟨[], ""⟩ .empty, 0⟩ ⟨.builtin b args, w, row⟩ ∧
      maxEvalDepth + 1 < w.hostDepth := by
  have hrun : (Composite.increments 300).run (.int 0) = pure (.int 301) :=
    Composite.run_increments (i := 0) (by decide)
  have hends : ((Composite.increments 300).run (.int 0)).Ends
      (Session.start (.standard "/") ⟨[], ""⟩ .empty) (.ok (.int 301))
      (Session.start (.standard "/") ⟨[], ""⟩ .empty) := by
    rw [hrun]
    exact ends_pure.2 ⟨rfl, rfl⟩
  constructor
  · rw [Composite.apply_procedure _ (by simp [Composite.height_increments]), hrun]
    rfl
  · obtain ⟨b, args, w, row, hreaches, hw⟩ := (Composite.increments 300).exists_reaches hends 0
    refine ⟨b, args, w, row, hreaches, ?_⟩
    rw [hw, Composite.height_increments]
    decide

end Lisplet
