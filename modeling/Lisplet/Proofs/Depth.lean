import Lisplet.Proofs.Fuel
import Lisplet.Session

/-! The depth of an evaluation is seen only when the limit is met: a deeper evaluation does what a
shallower one does, or ends with the error of the limit. -/
namespace Lisplet

inductive Reply.Strict : Reply → Prop where
  | finish (result : Except Error Value) : Strict (.finish result)
  | call {f : Value} {args : List Value} {resume : Except Error Value → Reply}
    (herror : ∀ e, resume (.error e) = .finish (.error e))
    (hok : ∀ v, Strict (resume (.ok v))) : Strict (.call f args resume)

/-- No operation of the host catches an error. -/
def World.Strict (w : World) : Prop :=
  ∀ (slot : Nat) (operation : HostOperation), w.host[slot]? = some operation →
    ∀ args, (operation args).Strict

namespace Run
variable {α β : Type} {m m' : Run α} {w : World}

def withDepth (depth : Nat) : EStateM.Result Halt World α → EStateM.Result Halt World α
  | .ok a w => .ok a { w with hostDepth := depth }
  | .error halt w => .error halt { w with hostDepth := depth }

/-- From a host depth at least as great the second run does what the first does, or it meets the
limit. The first leaves the host as it was. -/
def CutBy (m m' : Run α) : Prop :=
  ∀ w depth, w.Strict → w.hostDepth ≤ depth →
    (after (m w)).host = w.host ∧ (after (m w)).hostDepth = w.hostDepth ∧
      ((∃ w', m' { w with hostDepth := depth } = .error (.error .tooDeep) w') ∨
        m' { w with hostDepth := depth } = withDepth depth (m w))

namespace CutBy

theorem refl (h : m.Local) : m.CutBy m := by
  intro w depth _ _
  obtain ⟨o, store, console, disk, h⟩ := h w.store w.console w.disk
  have hw := h w.host w.hostDepth
  have hdeep := h w.host depth
  cases o with
  | ok a =>
    rw [hw]
    exact ⟨rfl, rfl, .inr hdeep⟩
  | error halt =>
    rw [hw]
    exact ⟨rfl, rfl, .inr hdeep⟩

theorem bind {f f' : α → Run β} (hm : m.CutBy m') (hf : ∀ a, (f a).CutBy (f' a)) :
    (m >>= f).CutBy (m' >>= f') := by
  intro w depth hstrict hdepth
  obtain ⟨hhost, hkept, hcut⟩ := hm w depth hstrict hdepth
  simp only [bind_apply]
  cases hrun : m w with
  | ok a w₁ =>
    rw [hrun] at hhost hkept hcut
    have hstrict₁ : w₁.Strict := by
      unfold World.Strict
      rw [show w₁.host = w.host from hhost]
      exact hstrict
    have hdepth₁ : w₁.hostDepth ≤ depth := Nat.le_trans (Nat.le_of_eq hkept) hdepth
    obtain ⟨hhost₁, hkept₁, hcut₁⟩ := hf a w₁ depth hstrict₁ hdepth₁
    refine ⟨hhost₁.trans hhost, hkept₁.trans hkept, ?_⟩
    obtain ⟨w', h⟩ | h := hcut
    · exact .inl ⟨w', by rw [h]⟩
    · rw [h]
      exact hcut₁
  | error halt w₁ =>
    rw [hrun] at hhost hkept hcut
    refine ⟨hhost, hkept, ?_⟩
    obtain ⟨w', h⟩ | h := hcut
    · exact .inl ⟨w', by rw [h]⟩
    · exact .inr (by rw [h]; rfl)

theorem hostDepth {f f' : Nat → Run α} (h : ∀ d d', d ≤ d' → (f d).CutBy (f' d')) :
    (Run.hostDepth >>= f).CutBy (Run.hostDepth >>= f') :=
  fun w depth hstrict hdepth => h w.hostDepth depth hdepth w depth hstrict hdepth

theorem atHostDepth {d d' : Nat} (hle : d ≤ d') (h : m.CutBy m') :
    (m.atHostDepth d).CutBy (m'.atHostDepth d') := by
  intro w depth hstrict _
  obtain ⟨hhost, -, hcut⟩ := h { w with hostDepth := d } d' hstrict hle
  simp only [Run.atHostDepth]
  cases hrun : m { w with hostDepth := d } with
  | ok a w₁ =>
    rw [hrun] at hhost hcut
    refine ⟨hhost, rfl, ?_⟩
    obtain ⟨w', h⟩ | h := hcut
    · exact .inl ⟨{ w' with hostDepth := depth }, by simp only [h]⟩
    · exact .inr (by simp only [h, withDepth])
  | error halt w₁ =>
    rw [hrun] at hhost hcut
    refine ⟨hhost, rfl, ?_⟩
    obtain ⟨w', h⟩ | h := hcut
    · exact .inl ⟨{ w' with hostDepth := depth }, by simp only [h]⟩
    · exact .inr (by simp only [h, withDepth])

theorem reply {apply apply' : Applier} (h : ∀ f args, (apply f args).CutBy (apply' f args))
    {r : Reply} (hr : r.Strict) : (r.run apply).CutBy (r.run apply') := by
  induction hr with
  | finish result => exact refl (.ofExcept result)
  | @call f args resume herror hok ih =>
    have hrun (ap : Applier) : (Reply.call f args resume).run ap =
        ap f args >>= fun v => (resume (.ok v)).run ap := by
      funext w
      simp only [Reply.run, bind_apply, attempt]
      rcases ap f args w with _ | ⟨e | _, w₁⟩
      · rfl
      · simp only [herror]
        rfl
      · rfl
    rw [hrun, hrun]
    exact (h f args).bind ih

theorem ends_of_deep {depth : Nat} {o : Except Error α} {w' : World} (h : m.CutBy m')
    (hstrict : w.Strict) (hdepth : w.hostDepth ≤ depth) (ho : o ≠ .error .tooDeep)
    (hends : m'.Ends { w with hostDepth := depth } o w') :
    m.Ends w o { w' with hostDepth := w.hostDepth } := by
  obtain ⟨-, hkept, hcut⟩ := h w depth hstrict hdepth
  unfold Ends at hends
  obtain ⟨w'', hdeep⟩ | hdeep := hcut
  · rw [hdeep] at hends
    cases o with
    | ok a => cases hends
    | error e =>
      cases hends
      exact absurd rfl ho
  · rw [hdeep] at hends
    cases hrun : m w with
    | ok a w₁ =>
      rw [hrun] at hkept hends
      cases o <;> cases hends
      rw [← hkept]
      exact hrun
    | error halt w₁ =>
      rw [hrun] at hkept hends
      cases o <;> cases hends
      rw [← hkept]
      exact hrun

theorem ends_deep {depth : Nat} {o : Except Error α} {w' : World} (h : m.CutBy m')
    (hstrict : w.Strict) (hdepth : w.hostDepth ≤ depth) (hends : m.Ends w o w') :
    m'.Ends { w with hostDepth := depth } o { w' with hostDepth := depth } ∨
      ∃ w'', m'.Ends { w with hostDepth := depth } (.error .tooDeep) w'' := by
  obtain ⟨-, -, hcut⟩ := h w depth hstrict hdepth
  obtain ⟨w'', hdeep⟩ | hdeep := hcut
  · exact .inr ⟨w'', hdeep⟩
  · refine .inl ?_
    unfold Ends at hends
    rw [hends] at hdeep
    cases o <;> exact hdeep

theorem hostDepth_eq {o : Except Error α} {w' : World} (h : m.CutBy m') (hstrict : w.Strict)
    (hends : m.Ends w o w') : w'.hostDepth = w.hostDepth := by
  obtain ⟨-, hkept, -⟩ := h w w.hostDepth hstrict (Nat.le_refl _)
  unfold Ends at hends
  rw [hends] at hkept
  cases o <;> exact hkept

end CutBy

end Run

def Congruence.depth : Congruence where
  Rel := Run.CutBy
  Depth := (· ≤ ·)
  depth_succ := Nat.succ_le_succ
  refl := .refl
  bind := .bind
  hostDepth := .hostDepth
  atHostDepth := .atHostDepth
  callHost slot args h := by
    intro w depth hstrict hdepth
    rw [Run.callHost_apply, Run.callHost_apply]
    cases hslot : w.host[slot]? with
    | none => exact Run.CutBy.refl (.pure _) w depth hstrict hdepth
    | some operation =>
      exact Run.CutBy.reply h (hstrict slot operation hslot args) w depth hstrict hdepth

/-- At the limit an evaluation fails, below it the forms respect the relation. -/
theorem cutBy_of_le (fuel : Nat) :
    (∀ d d', d ≤ d' → ∀ frame e, (eval fuel d frame e).CutBy (eval fuel d' frame e)) ∧
      ∀ f args, (apply fuel f args).CutBy (apply fuel f args) := by
  induction fuel with
  | zero =>
    refine ⟨fun d d' _ frame e => ?_, fun f args => ?_⟩
    · rw [eval, eval]
      exact .refl .outOfFuel
    · rw [apply]
      exact .refl .outOfFuel
  | succ fuel ih =>
    obtain ⟨heval, happly⟩ := ih
    refine ⟨fun d d' hle frame e => ?_, Congruence.depth.apply_succ heval happly⟩
    by_cases hroom' : d' < maxEvalDepth
    · have hroom : d < maxEvalDepth := Nat.lt_of_le_of_lt hle hroom'
      exact Congruence.depth.eval_succ heval happly hle hroom hroom' frame e
    · have hdeep : eval (fuel + 1) d' frame e = Run.fail .tooDeep :=
        eval_of_le (Nat.not_lt.1 hroom') fuel frame e
      by_cases hroom : d < maxEvalDepth
      · have hself : (eval (fuel + 1) d frame e).CutBy (eval (fuel + 1) d frame e) :=
          Congruence.depth.eval_succ heval happly (Nat.le_refl d) hroom hroom frame e
        intro w depth hstrict hdepth
        obtain ⟨hhost, hkept, -⟩ := hself w depth hstrict hdepth
        exact ⟨hhost, hkept, .inl ⟨_, congrFun hdeep _⟩⟩
      · rw [hdeep, eval_of_le (Nat.not_lt.1 hroom)]
        exact .refl (.fail _)

theorem World.strict_standard {w : World} {dir : String}
    (h : w.host = (Registry.standard dir).operations) : w.Strict := by
  intro slot operation hslot
  have hnone : (Registry.standard dir).operations = #[] := rfl
  rw [h, hnone] at hslot
  simp at hslot

/-- With the operations of a standard registry a depth is only a cut-off. What ends deeper without
meeting the limit ends the same less deep; what ends ends the same deeper or meets the limit there.
Calls from two host depths are related in the same way and leave each as it was. -/
theorem depth_cutoff {w : World} {dir : String}
    (hhost : w.host = (Registry.standard dir).operations) :
    (∀ depth deep frame e, depth ≤ deep →
      (∀ o w', EvalEnds deep frame e w o w' → o ≠ .error .tooDeep →
        EvalEnds depth frame e w o w') ∧
      ∀ o w', EvalEnds depth frame e w o w' →
        EvalEnds deep frame e w o w' ∨ ∃ w'', EvalEnds deep frame e w (.error .tooDeep) w'') ∧
    ∀ deep f args, w.hostDepth ≤ deep →
      (∀ o w', ApplyEnds f args { w with hostDepth := deep } o w' → o ≠ .error .tooDeep →
        w'.hostDepth = deep ∧ ApplyEnds f args w o { w' with hostDepth := w.hostDepth }) ∧
      ∀ o w', ApplyEnds f args w o w' →
        ApplyEnds f args { w with hostDepth := deep } o { w' with hostDepth := deep } ∨
          ∃ w'', ApplyEnds f args { w with hostDepth := deep } (.error .tooDeep) w'' := by
  have hstrict := World.strict_standard hhost
  refine ⟨fun depth deep frame e hle => ⟨?_, ?_⟩, fun deep f args hle => ⟨?_, ?_⟩⟩
  · rintro o w' ⟨fuel, hends⟩ ho
    have hdeep := (cutBy_of_le fuel).1 deep deep (Nat.le_refl deep) frame e
    have hkept := hdeep.hostDepth_eq hstrict hends
    have hcut := (cutBy_of_le fuel).1 depth deep hle frame e
    have hshallow := hcut.ends_of_deep hstrict (Nat.le_refl _) ho hends
    have hafter : { w' with hostDepth := w.hostDepth } = w' := by rw [← hkept]
    rw [hafter] at hshallow
    exact ⟨fuel, hshallow⟩
  · rintro o w' ⟨fuel, hends⟩
    have hcut := (cutBy_of_le fuel).1 depth deep hle frame e
    have hkept := hcut.hostDepth_eq hstrict hends
    obtain hdeep | ⟨w'', hdeep⟩ := hcut.ends_deep hstrict (Nat.le_refl _) hends
    · have hafter : { w' with hostDepth := w.hostDepth } = w' := by rw [← hkept]
      rw [hafter] at hdeep
      exact .inl ⟨fuel, hdeep⟩
    · exact .inr ⟨w'', fuel, hdeep⟩
  · rintro o w' ⟨fuel, hends⟩ ho
    have hcut := (cutBy_of_le fuel).2 f args
    have hkept := hcut.hostDepth_eq (w := { w with hostDepth := deep }) hstrict hends
    exact ⟨hkept, fuel, hcut.ends_of_deep hstrict hle ho hends⟩
  · rintro o w' ⟨fuel, hends⟩
    obtain hdeep | ⟨w'', hdeep⟩ := ((cutBy_of_le fuel).2 f args).ends_deep hstrict hle hends
    · exact .inl ⟨fuel, hdeep⟩
    · exact .inr ⟨w'', fuel, hdeep⟩

theorem depth_cutoff_list :
    EvalEnds 0 Session.globalFrame (.list [.symbol "list", .int 7])
      (Session.start (.standard "/") ⟨[], ""⟩ .empty) (.ok (.list [.int 7]))
      (Session.start (.standard "/") ⟨[], ""⟩ .empty) := by
  have hhost : (Session.start (.standard "/") ⟨[], ""⟩ .empty).host =
      (Registry.standard "/").operations := by
    simp only [Session.start]
  generalize Session.start (.standard "/") ⟨[], ""⟩ .empty = w at hhost ⊢
  have hdeep : EvalEnds 254 Session.globalFrame (.list [.symbol "list", .int 7]) w
      (.ok (.list [.int 7])) w := ⟨2, rfl⟩
  exact ((depth_cutoff hhost).1 0 254 _ _ (by decide)).1 _ _ hdeep (by simp)

end Lisplet
