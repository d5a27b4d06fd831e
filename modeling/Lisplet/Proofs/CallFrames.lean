import Lisplet.Proofs.Currying
import Lisplet.Proofs.Moments

/-! The frames of calls. A name that stood twice among the parameters would mean the later of two
arguments. No closure that can be at hand in a session has such parameters, so every parameter means
its own argument. -/
namespace Lisplet

/-- The frame of a call with these arguments is made in this world: it is a new one, in which the
parameters mean the arguments and other names what they mean in the frame of the closure. What names
mean in the frames from before stays the same. -/
structure Closure.Frames (c : Closure) (args : List Value) (w : World) (id : FrameId) (w' : World) :
    Prop where
  id_eq : id = w.nextFrame
  parameter : ∀ (i : Nat) (hi : i < c.params.length) (hi' : i < args.length),
    w'.store.lookup? id c.params[i] = some args[i]
  other : ∀ name, name ∉ c.params → w'.store.lookup? id name = w'.store.lookup? c.frame name
  before : ∀ other < w.nextFrame, ∀ name,
    w'.store.lookup? other name = w.store.lookup? other name

theorem Closure.frames_newFrame {c : Closure} {args : List Value} {w : World}
    (hparams : c.params.Nodup) (hframe : c.frame < w.nextFrame)
    (hcount : c.params.length = args.length) :
    c.Frames args w w.nextFrame (w.newFrame (c.params.zip args) c.frame) where
  id_eq := rfl
  parameter i hi hi' := by
    rw [w.lookup?_newFrame_zip hparams hcount (List.getElem?_eq_getElem hi),
      List.getElem?_eq_getElem hi']
  other name hname := by
    have hkeys : (c.params.zip args).map Prod.fst = c.params :=
      List.map_fst_zip (Nat.le_of_eq hcount)
    rw [w.lookup?_newFrame_of_not_mem _ hframe (by rwa [hkeys]),
      w.lookup?_newFrame_of_lt _ hframe]
  before other hother name := w.lookup?_newFrame_of_lt _ hother

namespace Session.Moment
open Run

/-- Every closure that is known at a moment of a session has distinct parameters. The frame of a
call of it is refused if the arguments are not as many, with both numbers and nothing changed, and
else there is one in which each parameter means its own argument. -/
theorem call_frame_binds_arguments {registry : Registry} (hclosed : registry.Closed)
    {console : Console} {disk : Disk} {m : Moment} (h : m.In (start registry console disk))
    {c : Closure} (hc : m.Known c) :
    c.params.Nodup ∧ ∀ (args : List Value) (expression : Option String),
      (∀ e w', (c.callFrame args expression).Ends m.world (.error e) w' ↔
        c.params.length ≠ args.length ∧
          e = .arity c.params.length args.length expression ∧ w' = m.world) ∧
      (c.params.length = args.length → ∃ id w',
        (c.callFrame args expression).Ends m.world (.ok id) w' ∧ c.Frames args m.world id w') := by
  obtain ⟨L, hL⟩ := h.coveredBy hclosed
  have hhas := hL.has c hc
  have hframe : c.frame < m.world.nextFrame := by
    rw [← hL.world]
    exact hhas.1
  refine ⟨hhas.nodup_params, fun args expression => ⟨fun e w' => ?_, fun hcount => ?_⟩⟩
  · rw [Form.ends_callFrame]
    constructor
    · rintro (⟨-, herror, -⟩ | ⟨hcount, herror, hw'⟩)
      · cases herror
      · exact ⟨hcount, Except.error.inj herror, hw'⟩
    · rintro ⟨hcount, rfl, hw'⟩
      exact .inr ⟨hcount, rfl, hw'⟩
  · exact ⟨_, _, Form.ends_callFrame.2 (.inl ⟨hcount, rfl, rfl⟩),
      c.frames_newFrame hhas.nodup_params hframe hcount⟩

/-- The addition without arguments is curried. A call of the closure with two of them binds each to
its own parameter, and one argument alone is refused. -/
theorem call_frame_binds_arguments_curry : ∃ (m : Moment) (c : Closure),
    m.In (start (.standard "/") ⟨[], ""⟩ .empty) ∧ m.Known c ∧
    c.params = ["curried arg 0", "curried arg 1"] ∧
    (c.callFrame [.int 1] none).Ends m.world (.error (.arity 2 1 none)) m.world ∧
    ∃ id w', (c.callFrame [.int 1, .int 2] none).Ends m.world (.ok id) w' ∧
      w'.store.lookup? id "curried arg 0" = some (.int 1) ∧
      w'.store.lookup? id "curried arg 1" = some (.int 2) ∧
      w'.store.lookup? id "+" = w'.store.lookup? globalFrame "+" := by
  obtain ⟨first, hfirst⟩ : ∃ first, first = start (.standard "/") ⟨[], ""⟩ .empty := ⟨_, rfl⟩
  have hstart : (opening first).In (start (.standard "/") ⟨[], ""⟩ .empty) := by
    rw [hfirst]
    exact .refl
  have hglobal : globalFrame < first.nextFrame := by
    rw [hfirst]
    decide
  obtain ⟨c, hc⟩ : ∃ c : Closure, c = ⟨first.store.closures, ["curried arg 0", "curried arg 1"],
    .list [.builtin (.binary .add), .symbol "curried arg 0", .symbol "curried arg 1"],
    globalFrame, none⟩ := ⟨_, rfl⟩
  have hcurry : EvalEnds 0 globalFrame
      (SpecialForm.curry.applied [.list [.builtin (.binary .add)]]) first (.ok (.closure c))
      first.newClosure := by
    rw [hc]
    exact BigStep.evalEnds (.within (by decide) (.curry (.within (by decide)
      (.self (by simp) (by simp))) rfl (Nat.zero_le _) rfl))
  have hadd : (Value.builtin (.binary .add)).Within (opening first).Known := fun _ h => nomatch h
  have hnext := next_of_evalEnds (m := opening first) hglobal (Value.Within.applied_iff.2
    (List.forall_mem_singleton.2 (Value.Within.list_iff.2 (List.forall_mem_singleton.2 hadd))))
    hcurry
  have hm := Relation.ReflTransGen.tail hstart hnext
  have hknown := known_after_of_mem (m := opening first) (w := first.newClosure)
    (List.mem_singleton_self (Value.closure c)) c .self
  obtain ⟨-, hcalls⟩ := call_frame_binds_arguments (Registry.closed_standard "/") hm hknown
  subst hc
  obtain ⟨id, w', hends, hframe⟩ := (hcalls [.int 1, .int 2] none).2 rfl
  exact ⟨_, _, hm, hknown, rfl, ((hcalls [.int 1] none).1 _ _).2 ⟨by simp, rfl, rfl⟩, id, w',
    hends, hframe.parameter 0 (by simp) (by simp), hframe.parameter 1 (by simp) (by simp),
    hframe.other "+" (by simp)⟩

end Session.Moment

end Lisplet
