import Lisplet.Proofs.SessionStore

/-! What evaluation writes into frames that were there before. A frame that is not the outermost one
on its way out is written to by a `let` only, and only closures that were made in that very frame;
definitions go to the outermost frame, which is the global frame in a session. -/
namespace Lisplet
open Run

namespace Store
variable {store : Store} {id : FrameId}

theorem root_root (store : Store) (id : FrameId) : store.root (store.root id) = store.root id :=
  root_of_parent?_eq_none (store.parent?_root id)

theorem root_of_size_le (h : store.frames.size ≤ id) : store.root id = id :=
  root_of_parent?_eq_none (by simp [parent?, Array.getElem?_eq_none h])

theorem lt_size_of_root_ne (h : store.root id ≠ id) : id < store.frames.size :=
  Nat.lt_of_not_le fun hle => h (root_of_size_le hle)

/-- The name is bound in the frame to a closure that was made in it. -/
def SelfBound (store : Store) (id : FrameId) (name : String) : Prop :=
  ∃ c, store.local? id name = some (.closure c) ∧ c.frame = id

/-- Frames keep their parents, and a frame that is not outermost binds nothing anew but closures
that were made in it. -/
structure Patched (old new : Store) : Prop where
  size_le : old.frames.size ≤ new.frames.size
  parent?_eq : ∀ id, id < old.frames.size → new.parent? id = old.parent? id
  self : ∀ id name, old.root id ≠ id → new.local? id name ≠ old.local? id name →
    new.SelfBound id name

namespace Patched
variable {old middle new : Store}

theorem root_eq (h : old.Patched new) (hid : id < old.frames.size) :
    new.root id = old.root id := by
  induction id using Nat.strongRecOn with
  | ind id ih =>
    rw [root_eq_elim new, root_eq_elim old, h.parent?_eq id hid]
    cases hp : old.parent? id with
    | none => rfl
    | some p => exact ih p (lt_of_parent? hp) (Nat.lt_trans (lt_of_parent? hp) hid)

theorem refl (store : Store) : store.Patched store :=
  ⟨Nat.le_refl _, fun _ _ => rfl, fun _ _ _ h => absurd rfl h⟩

theorem trans (h : old.Patched middle) (h' : middle.Patched new) : old.Patched new where
  size_le := Nat.le_trans h.size_le h'.size_le
  parent?_eq id hid :=
    (h'.parent?_eq id (Nat.lt_of_lt_of_le hid h.size_le)).trans (h.parent?_eq id hid)
  self id name hroot hchanged := by
    -- A binding that the second part leaves alone was changed by the first.
    by_cases hlast : new.local? id name = middle.local? id name
    · rw [hlast] at hchanged
      rw [SelfBound, hlast]
      exact h.self id name hroot hchanged
    · refine h'.self id name ?_ hlast
      rw [h.root_eq (lt_size_of_root_ne hroot)]
      exact hroot

theorem newClosure (h : old.Patched new) : old.Patched new.newClosure.2 :=
  ⟨h.size_le, h.parent?_eq, h.self⟩

theorem bind {v : Value} (h : old.Patched new) (name : String)
    (hself : old.root id ≠ id → ∃ c, v = .closure c ∧ c.frame = id) :
    old.Patched (new.bind id name v) where
  size_le := by
    rw [size_bind]
    exact h.size_le
  parent?_eq other hother := (parent?_bind new id other name v).trans (h.parent?_eq other hother)
  self other key hroot hchanged := by
    rw [local?_bind] at hchanged
    rw [SelfBound, local?_bind]
    by_cases hbound : id = other ∧ name = key ∧ other < new.frames.size
    · rw [if_pos hbound]
      obtain ⟨rfl, -, -⟩ := hbound
      obtain ⟨c, rfl, hframe⟩ := hself hroot
      exact ⟨c, rfl, hframe⟩
    · rw [if_neg hbound] at hchanged ⊢
      exact h.self other key hroot hchanged

end Patched

theorem patched_newFrame (store : Store) (bindings : List (String × Value))
    (parent : Option FrameId) : store.Patched (store.newFrame bindings parent).2 where
  size_le := by simp [newFrame]
  parent?_eq id hid := parent?_newFrame_of_lt hid bindings parent
  self id name hroot hchanged :=
    absurd (local?_newFrame_of_lt (lt_size_of_root_ne hroot) bindings parent name) hchanged

theorem WellFormed.root_eq_zero {P : Closure → Prop} (h : store.WellFormed P)
    (hid : id < store.frames.size) : store.root id = 0 := by
  obtain ⟨ids, hpath, hlast⟩ := h.path id hid
  exact Option.some.inj ((h.getLast?_path hpath).symm.trans hlast)

end Store

/-- In a frame made since, a `let` may bind anything. -/
def World.patching (w₀ : World) : Upkeep {w : World // w₀.store.Patched w.store} where
  world := Subtype.val
  Later _ _ := True
  Frame _ _ := True
  Inner _ id := w₀.nextFrame ≤ id
  Has _ _ := True
  Code _ _ _ := True
  Asks _ _ := True
  Calls _ _ _ := True
  refl _ := trivial
  trans _ _ := trivial
  frame_mono _ _ := trivial
  inner_mono _ h := h
  has_mono _ _ := trivial
  code_mono _ _ := trivial
  hereditary _ := by constructor <;> simp
  frame_of_inner _ := trivial
  code_of_has _ _ := trivial
  code_form_iff := ⟨fun _ => ⟨trivial, fun _ _ => trivial⟩, fun _ => trivial⟩
  code_application _ := ⟨trivial, fun _ _ => trivial⟩
  has_self _ _ _ := trivial
  lookup _ _ := trivial
  keep {s w} hstore _ := ⟨⟨w, hstore ▸ s.2⟩, rfl, trivial⟩
  newFrame {s frame} _ :=
    ⟨⟨_, s.2.trans (s.1.store.patched_newFrame [] (some frame))⟩, rfl, trivial, s.2.size_le⟩
  enter {s c args} _ _ _ _ := ⟨⟨_, s.2.trans (s.1.store.patched_newFrame (c.params.zip args)
    (some c.frame))⟩, rfl, trivial, trivial⟩
  lambda {s _ _ _ _ _} _ _ _ _ _ := ⟨⟨s.1.newClosure, s.2.newClosure⟩, rfl, trivial, trivial⟩
  curry {s _ _ _ _ _} _ _ _ _ _ _ := ⟨⟨s.1.newClosure, s.2.newClosure⟩, rfl, trivial, trivial⟩
  define {s frame name v} _ _ _ :=
    ⟨⟨s.1.define frame name v, s.2.trans ((Store.Patched.refl _).bind name fun hroot =>
      absurd (s.1.store.root_root frame) hroot)⟩, rfl, trivial⟩
  bind {s frame name v} hframe _ _ := by
    have hnew (hroot : w₀.store.root frame ≠ frame) : ∃ c, v = .closure c ∧ c.frame = frame :=
      absurd (Store.root_of_size_le hframe) hroot
    refine ⟨⟨s.1.bind frame name v, ?_⟩, rfl, trivial⟩
    cases v with
    | closure c => exact (s.2.bind name fun _ => ⟨c, rfl, rfl⟩).bind name hnew
    | _ => exact s.2.bind name hnew
  host _ _ := trivial
  finish _ _ _ := trivial
  call _ := ⟨trivial, fun _ _ => trivial, fun _ _ _ _ => trivial⟩

theorem Store.Patched.run {w₀ w : World} (h : w₀.store.Patched w.store) {t : Task}
    (ht : w₀.patching.Fits ⟨w, h⟩ t) (fuel : Nat) :
    w₀.store.Patched (after (t.run fuel w)).store := by
  obtain ⟨s, hs, -⟩ := (w₀.patching.carries fuel ⟨ht, fun _ => trivial⟩).later
  exact hs ▸ s.2

theorem patched_of_eval (w : World) (fuel depth : Nat) (frame : FrameId) (e : Value) :
    w.store.Patched (after (eval fuel depth frame e w)).store :=
  (Store.Patched.refl w.store).run (t := .expr depth frame e) trivial fuel

theorem eval_define {depth : Nat} (hdepth : depth < maxEvalDepth) (fuel : Nat) (frame : FrameId)
    (name : String) (e : Value) (w : World) :
    eval (fuel + 1) depth frame (SpecialForm.define.applied [.symbol name, e]) w =
      match eval fuel (depth + 1) frame e w with
      | .ok v w₁ => .ok (.symbol name) (w₁.define frame name v)
      | .error halt w₁ => .error halt w₁ := by
  rw [eval_of_lt hdepth, SpecialForm.applied, evalBelow, Form.step_form, SpecialForm.run,
    Form.define, bind_apply, bind_apply]
  cases eval fuel (depth + 1) frame e w with
  | ok v w₁ => rfl
  | error halt w₁ => rfl

namespace Session

theorem Leads.patched {w w' : World} (h : Leads w w') : w.store.Patched w'.store := by
  obtain ⟨s, rfl, -⟩ :=
    h.later (I := w.patching) (s := ⟨w, .refl _⟩) (fun _ _ _ => trivial) trivial rfl
  exact s.2

/-- However an evaluation ends, what it changed in a frame that is not the outermost one on its way
out is a closure made in that frame. A definition binds in the outermost frame and nowhere else, in
whatever frame it stands. In a session the global frame is the outermost one for every frame. -/
theorem writes_of_eval (w : World) (fuel depth : Nat) (frame : FrameId) (e : Value) :
    (∀ id name, w.store.root id ≠ id →
      (after (eval fuel depth frame e w)).store.local? id name ≠ w.store.local? id name →
      (after (eval fuel depth frame e w)).store.SelfBound id name) ∧
    (∀ name, frame < w.store.frames.size → depth < maxEvalDepth →
      eval (fuel + 1) depth frame (SpecialForm.define.applied [.symbol name, e]) w =
        match eval fuel (depth + 1) frame e w with
        | .ok v w₁ =>
          .ok (.symbol name) { w₁ with store := w₁.store.bind (w.store.root frame) name v }
        | .error halt w₁ => .error halt w₁) ∧
    ∀ P, w.store.WellFormed P → ∀ id, id < w.store.frames.size →
      w.store.root id = globalFrame := by
  refine ⟨?_, fun name hframe hdepth => ?_, fun P hw id hid => hw.root_eq_zero hid⟩
  · exact (patched_of_eval w fuel depth frame e).self
  · have hpatched := patched_of_eval w fuel (depth + 1) frame e
    rw [eval_define hdepth]
    cases hrun : eval fuel (depth + 1) frame e w with
    | error halt w₁ => rfl
    | ok v w₁ =>
      rw [hrun] at hpatched
      have hroot : w₁.store.root frame = w.store.root frame := hpatched.root_eq hframe
      dsimp only
      rw [World.define, Store.bindGlobal, hroot]

/-- In a frame that a `let` left behind, a later `let` binds the closure made there once more. A
definition from within that frame binds in the global one. -/
theorem writes_of_eval_let : ∃ w, Leads (start (.standard "/") ⟨[], ""⟩ .empty) w ∧
    w.store.local? 1 "h" = none ∧
    (after (eval 100 0 globalFrame
      (SpecialForm.letIn.applied [.symbol "h", .symbol "f", .symbol "h"]) w)).store.SelfBound 1 "h" ∧
    eval 101 0 1 (SpecialForm.define.applied [.symbol "h", .symbol "g"]) w =
      match eval 100 1 1 (.symbol "g") w with
      | .ok v w₁ => .ok (.symbol "h") { w₁ with store := w₁.store.bind globalFrame "h" v }
      | .error halt w₁ => .error halt w₁ := by
  obtain ⟨w, hworld⟩ : ∃ w, w = Call.world 100 {} (start (.standard "/") ⟨[], ""⟩ .empty)
    (.evalText "(define f (let g (lambda (n) (g n)) g))") := ⟨_, rfl⟩
  have h : Leads (start (.standard "/") ⟨[], ""⟩ .empty) w := hworld ▸ (Leads.refl _).call ..
  have hw := wellFormed_of_leads (Registry.closed_standard "/") h
  have hfresh : w.store.local? 1 "h" = none := by
    refine Option.isNone_iff_eq_none.1 ?_
    rw [hworld]
    decide +kernel
  have hbound : ((after (eval 100 0 globalFrame
      (SpecialForm.letIn.applied [.symbol "h", .symbol "f", .symbol "h"]) w)).store.local?
        1 "h").isSome := by
    rw [hworld]
    decide +kernel
  have hsize : 1 < w.store.frames.size := by
    rw [hworld]
    decide +kernel
  have hroot := (writes_of_eval w 100 0 1 (.symbol "g")).2.2 Any hw.store 1 hsize
  refine ⟨w, h, hfresh, ?_, ?_⟩
  · refine (writes_of_eval w 100 0 globalFrame _).1 1 "h" (by rw [hroot]; decide) ?_
    intro heq
    rw [heq, hfresh] at hbound
    cases hbound
  · rw [← hroot]
    exact (writes_of_eval w 100 0 1 (.symbol "g")).2.1 "h" hsize (by decide)

/-- From one state of a session to a later one, whatever it was asked to do in between. -/
theorem selfBound_of_leads {registry : Registry} (hclosed : registry.Closed) {console : Console}
    {disk : Disk} {w w' : World} (h : Leads (start registry console disk) w) (h' : Leads w w')
    {id : FrameId} {name : String} (hid : id < w.store.frames.size) (hglobal : id ≠ globalFrame)
    (hchanged : w'.store.local? id name ≠ w.store.local? id name) :
    w'.store.SelfBound id name := by
  have hroot := (wellFormed_of_leads hclosed h).store.root_eq_zero hid
  refine h'.patched.self id name ?_ hchanged
  rw [hroot]
  exact hglobal.symm

end Session

end Lisplet
