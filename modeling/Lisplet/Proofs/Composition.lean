import Lisplet.Proofs.Calls
import Lisplet.Proofs.Depth

/-! What `compose` makes is a composition. The two procedures are called one after the other from
one level deeper than the composite is applied at; written out, the inner application stands where
it did and the outer one stands one level less deep, where the depth is a cut-off and nothing
else. -/
namespace Lisplet
open Run

theorem World.host_bind (w : World) (frame : FrameId) (name : String) (v : Value) :
    (w.bind frame name v).host = w.host := by
  cases v <;> rfl

theorem Binary.ends_composed {f g : Value} {w w' : World} {o : Except Error Value} :
    (Binary.composed f g).Ends w o w' ↔
      (f.arity? = none ∧ o = .error (.type (.compose f.kind)) ∧ w' = w) ∨
      (f.arity?.isSome ∧ g.arity? = none ∧ o = .error (.type (.compose g.kind)) ∧ w' = w) ∨
      (f.arity?.isSome ∧ g.arity?.isSome ∧ o = .ok (.builtin (.composed f g)) ∧ w' = w) := by
  simp only [Binary.composed, ends_if, ends_fail, ends_pure]
  cases f.arity? <;> cases g.arity? <;> simp

section
variable {w w' : World} {f : Value} {args : List Value} {o : Except Error Value}

theorem BigStep.strict_of_call {depth : Nat} (hstrict : w.Strict)
    (h : BigStep (.call f args) (w.atHostDepth depth) o w') : w'.Strict := by
  obtain ⟨fuel, h⟩ := applyEnds_iff_bigStep.2 h
  obtain ⟨hhost, -⟩ :=
    (cutBy_of_le fuel).2 f args (w.atHostDepth depth) depth hstrict (Nat.le_refl _)
  unfold Ends at h
  rw [h] at hhost
  have hhost : w'.host = w.host := by cases o <;> exact hhost
  unfold World.Strict
  rw [hhost]
  exact hstrict

theorem BigStep.call_of_deep {depth deep : Nat} (hstrict : w.Strict) (hle : depth ≤ deep)
    (h : BigStep (.call f args) (w.atHostDepth deep) o w') (ho : o ≠ .error .tooDeep) :
    BigStep (.call f args) (w.atHostDepth depth) o (w'.atHostDepth depth) := by
  obtain ⟨fuel, h⟩ := applyEnds_iff_bigStep.2 h
  have hcut := (cutBy_of_le fuel).2 f args
  have hends := hcut.ends_of_deep (w := w.atHostDepth depth) hstrict hle ho h
  exact applyEnds_iff_bigStep.1 ⟨fuel, hends⟩

end

theorem bigStep_apply_name {w w₁ w' : World} {depth : Nat} {frame : FrameId} {f : String}
    {procedure e v : Value} {o : Except Error Value} (hdepth : depth + 1 < maxEvalDepth)
    (hf : SpecialForm.ofName? f = none) (hprocedure : w.store.lookup? frame f = some procedure)
    (he : BigStep (.expr (depth + 1) frame e) w (.ok v) w₁) :
    BigStep (.expr depth frame (.list [.symbol f, e])) w o w' ↔
      ∃ w₂, BigStep (.call procedure [v]) (w₁.atHostDepth depth) o w₂ ∧
        w' = w₂.atHostDepth w₁.hostDepth := by
  have hform : Form.form? (.symbol f) = none := hf
  have hhead : BigStep (.expr (depth + 1) frame (.symbol f)) w (.ok procedure) w :=
    .expr_symbol hdepth hprocedure
  have hargs := BigStep.exprs_one he
  constructor
  · intro h
    obtain _ | ⟨-, happlication⟩ := h
    · omega
    · refine ⟨_, .call_of_application hform hhead hargs happlication, ?_⟩
      rw [he.hostDepth_eq, ← happlication.hostDepth_eq]
      rfl
  · rintro ⟨w₂, hcall, rfl⟩
    exact .within (by omega) (.application hform hhead hargs hcall)

section
variable {w w₁ w' : World} {depth : Nat} {frame : FrameId} {f g x : String}
  {outer inner v : Value} {o : Except Error Value}

theorem bigStep_composed_iff :
    BigStep (.call (.builtin (.composed outer inner)) [v]) (w.atHostDepth depth) o w' ↔
      (∃ y w₁ w₂, BigStep (.call inner [v]) (w.atHostDepth (depth + 1)) (.ok y) w₁ ∧
        BigStep (.call outer [y]) (w₁.atHostDepth (depth + 1)) o w₂ ∧
          w' = w₂.atHostDepth depth) ∨
      ∃ e w₁, BigStep (.call inner [v]) (w.atHostDepth (depth + 1)) (.error e) w₁ ∧
        o = .error e ∧ w' = w₁.atHostDepth depth := by
  have hkept {o : Except Error Value} {w₁ : World}
      (h : BigStep (.call inner [v]) (w.atHostDepth (depth + 1)) o w₁) :
      w₁.atHostDepth (depth + 1) = w₁ :=
    World.atHostDepth_of_eq h.hostDepth_eq
  constructor
  · intro h
    cases h with
    | callBuiltin hrun =>
      cases hrun with
      | composed hinner houter =>
        exact .inl ⟨_, _, _, hinner, (hkept hinner).symm ▸ houter, rfl⟩
      | composedError hinner => exact .inr ⟨_, _, hinner, rfl, rfl⟩
      | builtinArity hcount => exact absurd rfl hcount
    | callNotProcedure harity => cases harity
  · rintro (⟨y, w₁, w₂, hinner, houter, rfl⟩ | ⟨e, w₁, hinner, rfl, rfl⟩)
    · rw [hkept hinner] at houter
      exact .callBuiltin (w := w.atHostDepth depth) (.composed hinner houter)
    · exact .callBuiltin (w := w.atHostDepth depth) (.composedError hinner)

theorem starts_composed {e : Error} {t : Task} (h : BigStep (.call inner [v]) w (.error e) w₁)
    (hstarts : Starts (.builtin (.composed outer inner) [v]) w t w') : t = .call inner [v] := by
  cases hstarts with
  | composedInner => rfl
  | composedOuter hinner => cases (h.unique hinner).1

theorem starts_application {head : Value} {operands : List Value} {e : Error} {t : Task}
    (hform : Form.form? head = none)
    (hhead : BigStep (.expr (depth + 1) frame head) w (.ok outer) w)
    (hargs : BigStep (.exprs depth frame operands) w (.error e) w₁)
    (hstarts : Starts (.form depth frame (.list (head :: operands))) w t w') :
    t = .expr (depth + 1) frame head ∨ t = .exprs depth frame operands := by
  cases hstarts with
  | head => exact .inl rfl
  | operands => exact .inr rfl
  | body _ hhead' hargs' =>
    obtain ⟨-, rfl⟩ := hhead.unique hhead'
    cases (hargs.unique hargs').1
  | builtin _ hhead' hargs' =>
    obtain ⟨-, rfl⟩ := hhead.unique hhead'
    cases (hargs.unique hargs').1
  | _ => simp [Form.form?] at hform

end

/-- Applying what `compose` made of two procedures does what applying one to the result of the other
does, to the value or error and to the world, unless the limit on the depth is met. If the inner
procedure fails both fail with its error, and neither goes on to the outer procedure. -/
theorem composed_application {w w₀ w₁ : World} {dir : String}
    (hhost : w.host = (Registry.standard dir).operations) {depth : Nat}
    (hdepth : depth + 2 < maxEvalDepth) {frame : FrameId} {f g h x : String} {ap : Applier}
    {outer inner composite v : Value}
    (hcompose : (Binary.compose.run ap outer inner).Ends w₀ (.ok composite) w₁)
    (houter : w.store.lookup? frame f = some outer) (hinner : w.store.lookup? frame g = some inner)
    (hcomposite : w.store.lookup? frame h = some composite)
    (hx : w.store.lookup? frame x = some v) (hf : SpecialForm.ofName? f = none)
    (hg : SpecialForm.ofName? g = none) (hh : SpecialForm.ofName? h = none) :
    (∀ o w', EvalEnds depth frame (.list [.symbol h, .symbol x]) w o w' → o ≠ .error .tooDeep →
      EvalEnds depth frame (.list [.symbol f, .list [.symbol g, .symbol x]]) w o w') ∧
    ∀ e w₂, BigStep (.call inner [v]) (w.atHostDepth (depth + 1)) (.error e) w₂ →
      EvalEnds depth frame (.list [.symbol h, .symbol x]) w (.error e)
        (w₂.atHostDepth w.hostDepth) ∧
      EvalEnds depth frame (.list [.symbol f, .list [.symbol g, .symbol x]]) w (.error e)
        (w₂.atHostDepth w.hostDepth) ∧
      composite = .builtin (.composed outer inner) ∧
      (∀ t w₃, Starts (.builtin (.composed outer inner) [v]) (w.atHostDepth (depth + 1)) t w₃ →
        t = .call inner [v]) ∧
      ∀ t w₃, Starts (.form depth frame (.list [.symbol f, .list [.symbol g, .symbol x]])) w t w₃ →
        t = .expr (depth + 1) frame (.symbol f) ∨
          t = .exprs depth frame [.list [.symbol g, .symbol x]] := by
  obtain ⟨-, ⟨⟩, -⟩ | ⟨-, -, ⟨⟩, -⟩ | ⟨-, -, hbuiltin, -⟩ := Binary.ends_composed.1 hcompose
  obtain rfl := Except.ok.inj hbuiltin
  have hstrict := World.strict_standard hhost
  have hvalue (n : Nat) (hn : n < maxEvalDepth) : BigStep (.expr n frame (.symbol x)) w (.ok v) w :=
    .expr_symbol hn hx
  have hsingle {o : Except Error Value} {w' : World} :
      BigStep (.expr depth frame (.list [.symbol h, .symbol x])) w o w' ↔ _ :=
    bigStep_apply_name (by omega) hh hcomposite (hvalue (depth + 1) (by omega))
  have hargument {o : Except Error Value} {w' : World} :
      BigStep (.expr (depth + 1) frame (.list [.symbol g, .symbol x])) w o w' ↔ _ :=
    bigStep_apply_name hdepth hg hinner (hvalue (depth + 2) hdepth)
  have hfails {e : Error} {w₂ : World}
      (herror : BigStep (.call inner [v]) (w.atHostDepth (depth + 1)) (.error e) w₂) :
      BigStep (.exprs depth frame [.list [.symbol g, .symbol x]]) w (.error e)
        (w₂.atHostDepth w.hostDepth) :=
    .exprsError (hargument.2 ⟨w₂, herror, rfl⟩)
  have hhead : BigStep (.expr (depth + 1) frame (.symbol f)) w (.ok outer) w :=
    .expr_symbol (by omega) houter
  have hnested {e : Error} {w₂ : World}
      (herror : BigStep (.call inner [v]) (w.atHostDepth (depth + 1)) (.error e) w₂) :
      BigStep (.expr depth frame (.list [.symbol f, .list [.symbol g, .symbol x]])) w (.error e)
        (w₂.atHostDepth w.hostDepth) :=
    .within (by omega) (.argumentError hf hhead (hfails herror))
  refine ⟨fun o w' heval ho => ?_, fun e w₂ herror => ⟨?_, ?_, rfl, ?_, ?_⟩⟩
  · obtain ⟨fuel, heval⟩ := heval
    obtain ⟨w₂, hcall, rfl⟩ := hsingle.1 ((sound fuel).1 heval)
    obtain ⟨y, w₃, w₄, hfirst, hsecond, rfl⟩ | ⟨e, w₃, hfirst, rfl, rfl⟩ :=
      bigStep_composed_iff.1 hcall
    · have hshallow := hsecond.call_of_deep (hfirst.strict_of_call hstrict) (Nat.le_succ depth) ho
      have hvalue := hargument.2 ⟨w₃, hfirst, rfl⟩
      exact (complete ((bigStep_apply_name (by omega) hf houter hvalue).2
        ⟨_, hshallow, rfl⟩)).exists
    · exact (complete (hnested hfirst)).exists
  · exact (complete (hsingle.2 ⟨_, bigStep_composed_iff.2 (.inr ⟨e, w₂, herror, rfl, rfl⟩),
      rfl⟩)).exists
  · exact (complete (hnested herror)).exists
  · exact fun t w₃ hstarts => starts_composed herror hstarts
  · exact fun t w₃ hstarts => starts_application hf hhead (hfails herror) hstarts

theorem composed_application_not : ∃ w : World,
    EvalEnds 0 Session.globalFrame
      (.list [.symbol "not", .list [.symbol "++", .symbol "n"]]) w (.ok (.bool false)) w ∧
    EvalEnds 0 Session.globalFrame (.list [.symbol "not", .list [.symbol "++", .symbol "text"]]) w
      (.error (.type (.expected .number .string))) w := by
  obtain ⟨w, hw⟩ : ∃ w, w = (((Session.start (.standard "/") ⟨[], ""⟩ .empty).bind
    Session.globalFrame "n" (.int 0)).bind Session.globalFrame "text" (.string "a")).bind
      Session.globalFrame "h"
        (.builtin (.composed (.builtin (.unary .not)) (.builtin (.unary .increment)))) := ⟨_, rfl⟩
  have hhost : w.host = (Registry.standard "/").operations := by
    rw [hw, World.host_bind, World.host_bind, World.host_bind, Session.start]
  have hnot : w.store.lookup? Session.globalFrame "not" = some (.builtin (.unary .not)) := by
    rw [hw, Store.lookup?]
    rfl
  have hincrement : w.store.lookup? Session.globalFrame "++" =
      some (.builtin (.unary .increment)) := by
    rw [hw, Store.lookup?]
    rfl
  have hcomposite : w.store.lookup? Session.globalFrame "h" = some (.builtin
      (.composed (.builtin (.unary .not)) (.builtin (.unary .increment)))) := by
    rw [hw, Store.lookup?]
    rfl
  have hn : w.store.lookup? Session.globalFrame "n" = some (.int 0) := by
    rw [hw, Store.lookup?]
    rfl
  have htext : w.store.lookup? Session.globalFrame "text" = some (.string "a") := by
    rw [hw, Store.lookup?]
    rfl
  clear hw
  have hcompose : (Binary.compose.run (fun _ _ => outOfFuel) (.builtin (.unary .not))
      (.builtin (.unary .increment))).Ends w (.ok (.builtin (.composed (.builtin (.unary .not))
        (.builtin (.unary .increment))))) w := rfl
  have hdepth : 0 + 2 < maxEvalDepth := by decide
  obtain ⟨hsame, -⟩ := composed_application hhost hdepth hcompose hnot hincrement hcomposite hn
    rfl rfl rfl
  obtain ⟨-, hfails⟩ := composed_application hhost hdepth hcompose hnot hincrement hcomposite htext
    rfl rfl rfl
  have hvalue : BigStep (.call (.builtin (.composed (.builtin (.unary .not))
      (.builtin (.unary .increment)))) [.int 0]) (w.atHostDepth 0) (.ok (.bool false))
        (w.atHostDepth 0) :=
    bigStep_composed_iff.2 (.inl ⟨.int 1, _, _, .callBuiltin (.unary rfl),
      .callBuiltin (.unary rfl), rfl⟩)
  have hrun : (Unary.increment.run (.string "a")).Ends (w.atHostDepth 2)
      (.error (.type (.expected .number .string))) (w.atHostDepth 2) := rfl
  have herror := BigStep.callBuiltin (w := w.atHostDepth 1) (.unary hrun)
  have happlied := (bigStep_apply_name (by decide) rfl hcomposite
    (.expr_symbol (by decide) hn)).2 ⟨_, hvalue, rfl⟩
  exact ⟨w, hsame _ _ (complete happlied).exists (by simp), (hfails _ _ herror).2.1⟩

end Lisplet
