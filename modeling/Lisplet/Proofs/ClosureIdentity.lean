import Lisplet.Proofs.Currying
import Lisplet.Proofs.Equality
import Lisplet.Proofs.Moments

/-! The identity of closures. They are compared by their numbers. No number is given to two of them,
and nothing that hands a closure on gives it another one. -/
namespace Lisplet

theorem Value.same_closure {c d : Closure} :
    (Value.closure c).same (.closure d) = true ↔ c.id = d.id := by
  rw [same_eq_equal, equal, beq_iff_eq]

namespace World
variable {w : World} {frame : FrameId}

theorem lookup?_bind_closure {c : Closure} (hframe : frame < w.nextFrame)
    (hc : c.frame < w.nextFrame) (name : String) :
    (w.bind frame name (.closure c)).store.lookup? frame name = some (.closure c) ∧
    (w.bind frame name (.closure c)).store.lookup? c.frame name = some (.closure c) := by
  have hframe : frame < w.store.frames.size := hframe
  have hc : c.frame < w.store.frames.size := hc
  constructor <;> refine Store.lookup?_of_local? ?_
  · rw [bind, Store.local?_bind, if_pos ⟨rfl, rfl, by rwa [Store.size_bind]⟩]
  · rw [bind, Store.local?_bind]
    split
    · rfl
    · rw [Store.local?_bind, if_pos ⟨rfl, rfl, hc⟩]

theorem lookup?_root_define {v : Value} (hframe : frame < w.nextFrame) (name : String) :
    (w.define frame name v).store.lookup? (w.store.root frame) name = some v := by
  refine Store.lookup?_of_local? ?_
  rw [define, Store.bindGlobal, Store.local?_bind,
    if_pos ⟨rfl, rfl, Nat.lt_of_le_of_lt (Store.root_le _ _) hframe⟩]

end World

namespace Session.Moment
open Run

/-- Whatever hands the closure on, it is the same closure that arrives: where a name is bound to it,
in the frame it was made in as well, or defined as it, where it is passed, looked up, put in a list
or returned. -/
structure HandsOn (m : Moment) (c : Closure) : Prop where
  bound : ∀ frame name, m.HasFrame frame →
    (m.world.bind frame name (.closure c)).store.lookup? frame name = some (.closure c) ∧
    (m.world.bind frame name (.closure c)).store.lookup? c.frame name = some (.closure c)
  defined : ∀ frame name, m.HasFrame frame →
    (m.world.define frame name (.closure c)).store.lookup? (m.world.store.root frame) name =
      some (.closure c)
  passed : ∀ (d : Closure) args (i : Nat) name, m.Known d → d.params.length = args.length →
    d.params[i]? = some name → args[i]? = some (.closure c) →
      (m.world.newFrame (d.params.zip args) d.frame).store.lookup? m.world.nextFrame name =
        some (.closure c)
  lookedUp : ∀ depth frame name, depth < maxEvalDepth →
    m.world.store.lookup? frame name = some (.closure c) →
      EvalEnds depth frame (.symbol name) m.world (.ok (.closure c)) m.world
  listed : ∀ depth frame es vs w (i : Nat), depth < maxEvalDepth →
    BigStep (.exprs depth frame es) m.world (.ok vs) w → vs[i]? = some (.closure c) →
      ∃ items, EvalEnds depth frame (SpecialForm.list.applied es) m.world (.ok (.list items)) w ∧
        items[i]? = some (.closure c)
  returned : ∀ (d : Closure) args w, d.params.length = args.length →
    EvalEnds m.world.hostDepth m.world.nextFrame d.body
      (m.world.newFrame (d.params.zip args) d.frame) (.ok (.closure c)) w →
      ApplyEnds (.closure d) args m.world (.ok (.closure c)) w

/-- A closure is made at this moment, of what is known, and this is the world then. -/
structure Creates (m : Moment) (frame : FrameId) (c : Closure) (w : World) : Prop where
  id : c.id = m.world.store.closures
  frame : c.frame = frame
  body : c.body.Within m.Known
  help : ∀ v, c.help = some v → v.Within m.Known
  world : w = m.world.newClosure

variable {m m' : Moment} {L : Ledger} {c d : Closure} {depth : Nat} {frame : FrameId} {w' : World}

theorem CoveredBy.same_iff (h : m.CoveredBy L) (hc : m.Known c) (hd : m.Known d) :
    (Value.closure c).same (.closure d) = true ↔ d = c := by
  rw [Value.same_closure]
  constructor
  · exact fun hid => ((h.has c hc).eq_of_id_eq (h.has d hd) hid).symm
  · rintro rfl
    rfl

theorem CoveredBy.handsOn (h : m.CoveredBy L) (hc : m.Known c) : m.HandsOn c where
  bound frame name hframe := by
    refine World.lookup?_bind_closure hframe ?_ name
    rw [← h.world]
    exact (h.has c hc).1
  defined frame name hframe := World.lookup?_root_define hframe name
  passed d args i name hd hcount hname harg := by
    rw [World.lookup?_newFrame_zip _ (h.has d hd).nodup_params hcount hname, harg]
  lookedUp depth frame name hdepth hlookup :=
    BigStep.evalEnds (.within hdepth (.symbol hlookup))
  listed depth frame es vs w i hdepth hes hv :=
    ⟨vs, BigStep.evalEnds (.within hdepth (.list hes)), hv⟩
  returned d args w hcount hbody :=
    applyEnds_iff_bigStep.2 (.callClosure hcount hbody.bigStep)

theorem exists_creates {form : SpecialForm} {operands : List Value} {v : Value}
    (hform : form = .lambda ∨ form = .curry) (hframe : m.HasFrame frame)
    (hoperands : ∀ e ∈ operands, e.Within m.Known)
    (h : EvalEnds depth frame (form.applied operands) m.world (.ok v) w') :
    ∃ m₁ c, v = .closure c ∧ m.Later m₁ ∧ m₁.Creates frame c w' := by
  obtain ⟨fuel, h⟩ := h
  obtain ⟨fuel', names, body, help, w₁, hmakes, rfl, rfl⟩ := makes_of_eval hform h
  cases hmakes with
  | lambda =>
    exact ⟨m, _, rfl, .refl, rfl, rfl, hoperands _ (.tail _ (.head _)), (fun _ h => nomatch h), rfl⟩
  | @lambdaHelp _ e _ u _ _ _ hhelp =>
    have hnext := next_of_evalEnds hframe (hoperands _ (.tail _ (.head _))) ⟨fuel', hhelp⟩
    refine ⟨_, _, rfl, .single hnext, rfl, rfl, ?_, ?_, rfl⟩
    · exact (hoperands _ (.tail _ (.tail _ (.head _)))).mono fun _ hc => hc.next hnext
    · rintro _ ⟨⟩
      exact known_after_of_mem (.head _)
  | curry hf =>
    obtain ⟨he, hgiven⟩ := List.forall_mem_cons.1 (Value.Within.list_iff.1 (hoperands _ (.head _)))
    have hnext := next_of_evalEnds hframe he ⟨fuel', hf⟩
    refine ⟨_, _, rfl, .single hnext, rfl, rfl, ?_, (fun _ h => nomatch h), rfl⟩
    exact .curried _ (known_after_of_mem (.head _))
      fun v hv => (hgiven v hv).mono fun _ hc => hc.next hnext

/-- At every moment of a session two known closures are equal only if they are one and the same,
and what hands a closure on leaves it as it is. What `lambda` and `curry` make is a closure that
equals nothing that can have been at hand when it was made; from then on it equals what it is handed
on as, and nothing else. -/
theorem closure_identity {registry : Registry} (hclosed : registry.Closed) {console : Console}
    {disk : Disk} (h : m.In (start registry console disk)) :
    (∀ c d, m.Known c → m.Known d →
      ((Value.closure c).same (.closure d) = true ↔ d = c)) ∧
    (∀ c, m.Known c → m.HandsOn c) ∧
    ∀ (form : SpecialForm) depth frame operands v w', form = .lambda ∨ form = .curry →
      m.HasFrame frame → (∀ e ∈ operands, e.Within m.Known) →
      EvalEnds depth frame (form.applied operands) m.world (.ok v) w' →
        ∃ m₁ c, v = .closure c ∧ m.Later m₁ ∧ m₁.Creates frame c w' ∧
          (∀ m₂ : Moment, m₂.In (start registry console disk) → m₂.world = m₁.world →
            ∀ d, m₂.Known d → v.same (.closure d) = false ∧ (Value.closure d).same v = false) ∧
          m.Next (m.after w' [v]) ∧
          ∀ m', (m.after w' [v]).Later m' → m'.Known c ∧ m'.HandsOn c ∧
            ∀ d, m'.Known d → (v.same (.closure d) = true ↔ d = c) := by
  obtain ⟨L, hL⟩ := h.coveredBy hclosed
  refine ⟨fun c d hc hd => hL.same_iff hc hd, fun c hc => hL.handsOn hc, ?_⟩
  intro form depth frame operands v w' hform hframe hoperands hends
  obtain ⟨m₁, c, rfl, hlater, hcreates⟩ := exists_creates hform hframe hoperands hends
  have hnext : m.Next (m.after w' [.closure c]) :=
    next_of_evalEnds hframe (Value.Within.applied_iff.2 hoperands) hends
  refine ⟨m₁, c, rfl, hlater, hcreates, fun m₂ hm₂ hworld d hd => ?_, hnext, fun m' hm' => ?_⟩
  · -- The number of the closure is the first that has not been given out.
    obtain ⟨L₂, hL₂⟩ := hm₂.coveredBy hclosed
    have hlt : d.id < c.id := by
      have hlt := (hL₂.has d hd).id_lt
      rwa [hL₂.world, hworld, ← hcreates.id] at hlt
    constructor
    · exact Bool.eq_false_iff.2 fun hsame => Nat.ne_of_gt hlt (Value.same_closure.1 hsame)
    · exact Bool.eq_false_iff.2 fun hsame => Nat.ne_of_lt hlt (Value.same_closure.1 hsame)
  · obtain ⟨L', hL'⟩ := In.coveredBy hclosed (m := m') ((h.tail hnext).trans hm')
    have hc : m'.Known c := Known.later (known_after_of_mem (.head _) c .self) hm'
    exact ⟨hc, hL'.handsOn hc, fun d hd => hL'.same_iff hc hd⟩

theorem closure_identity_curry : ∃ (m : Moment) (c d : Closure) (w : World),
    m.In (start (.standard "/") ⟨[], ""⟩ .empty) ∧ m.Known c ∧
    EvalEnds 0 globalFrame (SpecialForm.curry.applied [.list [.closure c]]) m.world
      (.ok (.closure d)) w ∧
    d.body.Holds c ∧ (Value.closure d).same (.closure c) = false ∧
    (Value.closure d).same (.closure d) = true ∧
    (w.bind globalFrame "f" (.closure d)).store.lookup? globalFrame "f" = some (.closure d) := by
  obtain ⟨first, hfirst⟩ : ∃ first, first = start (.standard "/") ⟨[], ""⟩ .empty := ⟨_, rfl⟩
  have hclosed := Registry.closed_standard "/"
  have hstart : (opening first).In (start (.standard "/") ⟨[], ""⟩ .empty) := by
    rw [hfirst]
    exact .refl
  have hglobal : globalFrame < first.nextFrame := by
    rw [hfirst]
    decide
  have hlambda : EvalEnds 0 globalFrame
      (SpecialForm.lambda.applied [.list [.symbol "x"], .symbol "x"]) first
      (.ok (first.closure ["x"] (.symbol "x") globalFrame none)) first.newClosure :=
    BigStep.evalEnds (.within (by decide) (.lambda rfl))
  obtain ⟨-, -, hmakes⟩ := closure_identity hclosed hstart
  obtain ⟨m₁, c, hc, -, -, -, hnext, hafter⟩ := hmakes _ _ _ _ _ _ (.inl rfl) hglobal
    (List.forall_mem_cons.2 ⟨Value.Within.list_iff.2 (List.forall_mem_singleton.2 (.symbol _)),
      List.forall_mem_singleton.2 (.symbol _)⟩) hlambda
  obtain rfl := Value.closure.inj hc
  obtain ⟨hknown, -, -⟩ := hafter _ .refl
  have hm := Relation.ReflTransGen.tail hstart hnext
  have hcurry : EvalEnds 0 globalFrame (SpecialForm.curry.applied [.list [.closure
      ⟨first.store.closures, ["x"], .symbol "x", globalFrame, none⟩]]) first.newClosure
      (.ok (.closure ⟨first.newClosure.store.closures, ["curried arg 0"],
        .list [.closure ⟨first.store.closures, ["x"], .symbol "x", globalFrame, none⟩,
          .symbol "curried arg 0"], globalFrame, none⟩)) first.newClosure.newClosure :=
    BigStep.evalEnds (.within (by decide) (.curry (.within (by decide)
      (.self (by simp) (by simp))) rfl (Nat.zero_le _) rfl))
  obtain ⟨-, -, hmakes⟩ := closure_identity hclosed hm
  obtain ⟨m₂, d, hd, hlater, -, hfresh, -, hafter⟩ := hmakes _ _ _ _ _ _ (.inr rfl) hglobal
    (List.forall_mem_singleton.2 (Value.Within.list_iff.2 (List.forall_mem_singleton.2
      (Value.Within.closure_iff.2 ⟨hknown, .symbol _, fun _ h => nomatch h⟩)))) hcurry
  obtain rfl := Value.closure.inj hd
  obtain ⟨hknown', hhandsOn, hsame⟩ := hafter _ .refl
  exact ⟨_, _, _, _, hm, hknown, hcurry, .item (.head _) .self,
    (hfresh m₂ (hm.trans hlater) rfl _ (hknown.later hlater)).1, (hsame _ hknown').2 rfl,
    (hhandsOn.bound _ _ hglobal).1⟩

end Session.Moment

end Lisplet
