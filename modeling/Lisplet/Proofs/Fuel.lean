import Lisplet.Proofs.Congruence

/-! Fuel. A run that ends is not changed by more of it. -/
namespace Lisplet

namespace Run
variable {α β : Type} {m m' : Run α} {w w' : World}

/-- Wherever the first run ends the second does the same. -/
def Within (m m' : Run α) : Prop := ∀ w, (∃ w', m w = .error .outOfFuel w') ∨ m' w = m w

namespace Within

theorem refl (m : Run α) : m.Within m := fun _ => .inr rfl

theorem outOfFuel (m : Run α) : (Run.outOfFuel : Run α).Within m := fun w => .inl ⟨w, rfl⟩

theorem bind {f f' : α → Run β} (hm : m.Within m') (hf : ∀ a, (f a).Within (f' a)) :
    (m >>= f).Within (m' >>= f') := by
  intro w
  simp only [bind_apply]
  obtain ⟨w₁, h⟩ | h := hm w
  · exact .inl ⟨w₁, by rw [h]⟩
  · rw [h]
    cases hrun : m w with
    | ok a w₁ => exact hf a w₁
    | error halt w₁ => exact .inr rfl

theorem attempt (h : m.Within m') : m.attempt.Within m'.attempt := by
  intro w
  unfold Run.attempt
  obtain ⟨w₁, hw⟩ | hw := h w
  · exact .inl ⟨w₁, by rw [hw]⟩
  · exact .inr (by rw [hw])

theorem atHostDepth (depth : Nat) (h : m.Within m') :
    (m.atHostDepth depth).Within (m'.atHostDepth depth) := by
  intro w
  unfold Run.atHostDepth
  obtain ⟨w₁, hw⟩ | hw := h { w with hostDepth := depth }
  · exact .inl ⟨{ w₁ with hostDepth := w.hostDepth }, by simp [hw]⟩
  · exact .inr (by simp only [hw])

theorem reply {apply apply' : Applier} (h : ∀ f args, (apply f args).Within (apply' f args))
    (r : Reply) : (r.run apply).Within (r.run apply') := by
  induction r with
  | finish result => exact refl _
  | call f args resume ih => exact (h f args).attempt.bind ih

theorem ends {o : Except Error α} (h : m.Within m') (hends : m.Ends w o w') : m'.Ends w o w' := by
  unfold Ends at hends ⊢
  obtain ⟨w₁, hw⟩ | hw := h w
  · rw [hw] at hends
    cases o <;> simp at hends
  · rw [hw, hends]

end Within

end Run

def Congruence.fuel : Congruence where
  Rel := Run.Within
  Depth := Eq
  depth_succ := congrArg (· + 1)
  refl _ := .refl _
  bind := .bind
  hostDepth h := .bind (.refl _) fun d => h d d rfl
  atHostDepth := by
    rintro _ m m' d _ rfl h
    exact h.atHostDepth d
  callHost slot args h := by
    refine .bind (.refl _) fun operation? => ?_
    cases operation? with
    | none => exact .refl _
    | some operation => exact .reply h _

theorem within_of_le {fuel fuel' : Nat} (h : fuel ≤ fuel') :
    (∀ depth frame e, (eval fuel depth frame e).Within (eval fuel' depth frame e)) ∧
      ∀ f args, (apply fuel f args).Within (apply fuel' f args) := by
  induction fuel generalizing fuel' with
  | zero =>
    refine ⟨fun depth frame e => ?_, fun f args => ?_⟩
    · rw [eval]
      exact .outOfFuel _
    · rw [apply]
      exact .outOfFuel _
  | succ fuel ih =>
    obtain ⟨fuel', rfl⟩ := Nat.exists_eq_add_of_le' (Nat.le_trans (Nat.succ_pos fuel) h)
    obtain ⟨heval, happly⟩ := ih (Nat.le_of_succ_le_succ h)
    have heval : ∀ d d', d = d' →
        ∀ frame e, (eval fuel d frame e).Within (eval fuel' d' frame e) := by
      rintro d _ rfl
      exact heval d
    refine ⟨fun depth frame e => ?_, Congruence.fuel.apply_succ heval happly⟩
    by_cases hroom : depth < maxEvalDepth
    · exact Congruence.fuel.eval_succ heval happly rfl hroom hroom frame e
    · rw [eval_of_le (Nat.not_lt.1 hroom), eval_of_le (Nat.not_lt.1 hroom)]
      exact .refl _

/-- Evaluation ends so if it is given fuel enough. -/
def EvalEnds (depth : Nat) (frame : FrameId) (e : Value) (w : World) (o : Except Error Value)
    (w' : World) : Prop :=
  ∃ fuel, (eval fuel depth frame e).Ends w o w'

def ApplyEnds (f : Value) (args : List Value) (w : World) (o : Except Error Value) (w' : World) :
    Prop :=
  ∃ fuel, (apply fuel f args).Ends w o w'

end Lisplet
