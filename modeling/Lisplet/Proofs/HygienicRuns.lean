import Lisplet.Proofs.Hygiene
import Lisplet.Proofs.UpkeepStarts

/-! Hygiene along every run. What comes of a task, and what a task begins, stays within what a
hygienic world allows, whether the run ends or not. -/
namespace Lisplet

section
variable {frame : FrameId} {procedure : Value} {given : List Value} {n : Nat}

theorem Value.Hygienic.of_pair {a b : Value} (h : (Value.list [a, b]).Hygienic) :
    a.Hygienic ∧ b.Hygienic := by
  have hitems := Value.Hygienic.list_iff.1 h
  exact ⟨hitems _ (.head _), hitems _ (.tail _ (.head _))⟩

theorem Closure.curries_of_curry {c : Closure} (harity : procedure.arity? = some n)
    (hgiven : given.length ≤ n) (hparams : c.params = Form.curriedParams (n - given.length))
    (hbody : c.body = .list (procedure :: given ++ c.params.map .symbol)) (hhelp : c.help = none) :
    c.Curries procedure given where
  arity := by
    rw [harity, hparams, Form.length_curriedParams, Nat.add_sub_cancel' hgiven]
  params := by rw [hparams, Form.length_curriedParams]
  body := hbody
  help := hhelp

theorem World.hygienic_curried (w : World) {names : List String} (hprocedure : procedure.Hygienic)
    (hcode : ∀ e ∈ given, e.Hygienic) (harity : procedure.arity? = some n)
    (hgiven : given.length ≤ n) (hnames : names = Form.curriedParams (n - given.length)) :
    (w.closure names (.list (procedure :: given ++ names.map .symbol)) frame none).Hygienic :=
  .curried (Closure.curries_of_curry harity hgiven hnames rfl rfl) hprocedure hcode

end

def World.hygiene (t : Task) (w₀ : World) : Upkeep {w : World // w.Hygienic} where
  world := Subtype.val
  Later s s' := Traced t w₀ s.1 s'.1
  Frame _ _ := True
  Inner _ _ := True
  Has _ v := v.Hygienic
  Code s frame e := s.1.Admits frame e
  Asks _ _ := False
  Calls c args id := Enters t w₀ c args id
  refl s := .refl s.2
  trans := .trans
  frame_mono _ _ := trivial
  inner_mono _ _ := trivial
  has_mono _ hv := hv
  code_mono h he := he.mono h.store_extends
  hereditary _ := Value.hereditary_hygienic
  frame_of_inner _ := trivial
  code_of_has _ he := .code he
  code_form_iff {s frame form operands} :=
    ⟨fun h => ⟨trivial, h.operands⟩, fun h => .applied form h.2⟩
  code_application h := ⟨.code h.application.1, h.application.2.1⟩
  has_self h := h.self
  lookup {s frame name v} _ h := s.2.lookup? h
  keep {s w} hstore hhost :=
    ⟨⟨w, s.2.of_store_eq hstore hhost⟩, rfl, .of_store_eq s.2 hstore hhost⟩
  newFrame {s frame} _ := ⟨⟨_, s.2.newFrame_nil frame⟩, rfl, .newFrame_nil s.2 frame, trivial⟩
  enter {s c args} hc hargs hcount henters :=
    have htraced := Traced.newFrame_call s.2 hc hargs henters
    ⟨⟨_, htraced.hygienic⟩, rfl, htraced, World.admits_body hc hcount⟩
  lambda {s frame ps names body help} _ hps hparams hbody hhelp :=
    have htraced := Traced.newClosure s.2
    ⟨⟨_, htraced.hygienic⟩, rfl, htraced, .lambda (Form.plain_of_params hps hparams) hbody hhelp⟩
  curry {s frame procedure given n names} _ hprocedure hcode harity hgiven hnames :=
    have htraced := Traced.newClosure s.2
    have hcurried := s.1.hygienic_curried hprocedure hcode harity hgiven hnames
    ⟨⟨_, htraced.hygienic⟩, rfl, htraced, hcurried⟩
  define {s frame name v} _ hname hv :=
    have htraced : Traced t w₀ s.1 (s.1.define frame name v) :=
      .define s.2 (Value.Hygienic.symbol_iff.1 hname) hv
    ⟨⟨_, htraced.hygienic⟩, rfl, htraced⟩
  bind {s frame name v} _ hname hv :=
    have htraced : Traced t w₀ s.1 (s.1.bind frame name v) :=
      .bind s.2 (Value.Hygienic.symbol_iff.1 hname) hv
    ⟨⟨_, htraced.hygienic⟩, rfl, htraced⟩
  host {s} _ _ _ hslot := by
    rw [s.2.host] at hslot
    cases hslot
  finish h := h.elim
  call h := h.elim

section
variable {t t' : Task} {w w' : World}

theorem World.hygiene_fits_iff {w₀ : World} (hw : w'.Hygienic) :
    (World.hygiene t w₀).Fits ⟨w', hw⟩ t' ↔ t'.Hygienic w' := by
  cases t' with
  | clauses | bindings => exact ⟨fun h => h.2, fun h => ⟨trivial, h⟩⟩
  | _ => exact Iff.rfl

theorem World.hygiene_admits (ht : t.Hygienic w) (hw : w.Hygienic) :
    (World.hygiene t w).Admits ⟨w, hw⟩ t :=
  ⟨(hygiene_fits_iff hw).2 ht, id⟩

theorem Task.yields_of_results {a : t.Result} (h : ∀ v ∈ t.results a, v.Hygienic) : t.Yields a := by
  cases t with
  | exprs => exact h
  | clauses => exact fun e he => h e (Option.mem_toList.2 he)
  | bindings => exact trivial
  | _ => exact h _ (.head _)

theorem BigStep.preserves {o : Except Error t.Result} (h : BigStep t w o w') (ht : t.Hygienic w)
    (hw : w.Hygienic) : t.Preserves w o w' := by
  obtain ⟨s, rfl, htraced, hvs⟩ := h.leads rfl (World.hygiene_admits ht hw)
  refine ⟨htraced, ?_⟩
  rintro a rfl
  exact Task.yields_of_results hvs

theorem Starts.traced (h : Starts t w t' w') (ht : t.Hygienic w) (hw : w.Hygienic) :
    t'.Hygienic w' ∧ Traced t w w w' := by
  obtain ⟨s, rfl, htraced, ht'⟩ := h.leads rfl (World.hygiene_admits ht hw)
  exact ⟨(World.hygiene_fits_iff s.2).1 ht'.fits, htraced⟩

end

end Lisplet
