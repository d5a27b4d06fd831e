import Lisplet.Proofs.Applications
import Lisplet.Proofs.Currying
import Lisplet.Proofs.SessionStore
import Lisplet.Proofs.Visible

/-! Hidden frames. If neither the other frames nor the values at hand lead to a frame, no run reads
it or writes to it, and what the run yields does not lead there either. A frame just made for a call
is hidden as long as the program has no closure that was made in it. -/
namespace Lisplet

namespace World

theorem parent?_newFrame (w : World) (bindings : List (String × Value)) (parent id : FrameId) :
    (w.newFrame bindings parent).store.parent? id =
      if id = w.nextFrame then (some parent).filter (· < id) else w.store.parent? id := by
  change ((w.newFrame bindings parent).store.link? id).filter (· < id) = _
  rw [link?_newFrame]
  split <;> rfl

theorem frames_newFrame_of_lt {w : World} {bindings : List (String × Value)} {parent id : FrameId}
    (h : id < w.nextFrame) : (w.newFrame bindings parent).store.frames[id]? = w.store.frames[id]? :=
  Store.getElem?_newFrame_of_lt h bindings (some parent)

section
variable (hidden : FrameId → Prop) (w : World)

def Visible (frame : FrameId) : Prop := frame < w.nextFrame ∧ ¬ hidden frame

abbrev Clear (v : Value) : Prop := v.Within fun c => w.Visible hidden c.frame

def hideNext (id : FrameId) : Prop := hidden id ∨ id = w.nextFrame

/-- No way leads from the other frames of the world to the hidden ones. The host has no operations
of its own. -/
structure Hides : Prop where
  lt : ∀ id, hidden id → id < w.nextFrame
  parent : ∀ id p, ¬ hidden id → w.store.parent? id = some p → ¬ hidden p
  bound : ∀ id name v, ¬ hidden id → w.store.local? id name = some v → w.Clear hidden v
  host : w.host = #[]

/-- The second world has all the frames of the first, and the hidden ones are as they were and still
hidden. -/
structure Bypasses (w' : World) : Prop where
  hides : w'.Hides hidden
  le : w.nextFrame ≤ w'.nextFrame
  kept : ∀ id, hidden id → w'.store.frames[id]? = w.store.frames[id]?

end

variable {hidden : FrameId → Prop} {w w₁ w' : World} {frame : FrameId} {v : Value}

theorem Visible.mono (h : w.Visible hidden frame) (hle : w.nextFrame ≤ w'.nextFrame) :
    w'.Visible hidden frame :=
  ⟨Nat.lt_of_lt_of_le h.1 hle, h.2⟩

theorem Visible.newFrame (h : w.Visible hidden frame) (bindings : List (String × Value))
    (parent : FrameId) : (w.newFrame bindings parent).Visible (w.hideNext hidden) frame := by
  refine ⟨?_, not_or.2 ⟨h.2, Nat.ne_of_lt h.1⟩⟩
  rw [nextFrame_newFrame]
  exact Nat.lt_succ_of_lt h.1

namespace Clear

theorem newFrame (h : w.Clear hidden v) (bindings : List (String × Value)) (parent : FrameId) :
    (w.newFrame bindings parent).Clear (w.hideNext hidden) v :=
  Value.Within.mono (fun _ hc => hc.newFrame bindings parent) h

theorem mono (h : w.Clear hidden v) (hle : w.nextFrame ≤ w'.nextFrame) : w'.Clear hidden v :=
  Value.Within.mono (fun _ hc => hc.mono hle) h

theorem closure {body : Value} {help : Option Value} (params : List String)
    (hframe : w.Visible hidden frame) (hbody : w.Clear hidden body)
    (hhelp : ∀ v, help = some v → w.Clear hidden v) :
    w.newClosure.Clear hidden (w.closure params body frame help) :=
  Value.Within.closure_iff.2 ⟨hframe, hbody, hhelp⟩

end Clear

namespace Hides

theorem lookup? (hw : w.Hides hidden) (hframe : ¬ hidden frame) {name : String}
    (h : w.store.lookup? frame name = some v) : w.Clear hidden v := by
  fun_induction w.store.lookup? frame name with
  | case1 id u hlocal =>
    cases h
    exact hw.bound _ _ _ hframe hlocal
  | case2 id hlocal parent hparent ih => exact ih (hw.parent _ _ hframe hparent) h
  | case3 => cases h

theorem root (hw : w.Hides hidden) (hframe : ¬ hidden frame) : ¬ hidden (w.store.root frame) := by
  fun_induction w.store.root frame with
  | case1 id parent h ih => exact ih (hw.parent _ _ hframe h)
  | case2 => exact hframe

theorem visible_nextFrame (hw : w.Hides hidden) {bindings : List (String × Value)}
    {parent : FrameId} : (w.newFrame bindings parent).Visible hidden w.nextFrame := by
  refine ⟨?_, fun h => Nat.lt_irrefl _ (hw.lt _ h)⟩
  rw [nextFrame_newFrame]
  exact Nat.lt_succ_self _

theorem hide_newFrame (hw : w.Hides hidden) (bindings : List (String × Value)) (parent : FrameId) :
    (w.newFrame bindings parent).Hides (w.hideNext hidden) where
  lt id h := by
    rw [nextFrame_newFrame]
    obtain h | rfl := h
    · exact Nat.lt_succ_of_lt (hw.lt id h)
    · exact Nat.lt_succ_self _
  parent id p hid hp := by
    obtain ⟨hid, hne⟩ := not_or.1 hid
    rw [parent?_newFrame, if_neg hne] at hp
    rintro (h | rfl)
    · exact hw.parent id p hid hp h
    · -- A frame that has a parent is there, and its parent is older.
      have hlt := Store.lt_of_parent? hp
      have hnone : w.store.parent? id = none := by
        rw [Store.parent?, Array.getElem?_eq_none (Nat.le_of_lt hlt)]
        rfl
      rw [hnone] at hp
      cases hp
  bound id name v hid hv := by
    obtain ⟨hid, hne⟩ := not_or.1 hid
    rw [local?_newFrame, if_neg hne] at hv
    exact (hw.bound id name v hid hv).newFrame bindings parent
  host := hw.host

end Hides

theorem WellFormed.hides (hw : w.WellFormed Session.Any) (hhost : w.host = #[]) :
    w.Hides fun _ => False where
  lt _ h := h.elim
  parent _ _ _ _ h := h
  bound _ _ _ _ hv := Value.Within.mono (fun _ hc => ⟨hc.1, id⟩) (hw.store.bound _ _ _ hv)
  host := hhost

namespace Bypasses

theorem of_store_eq (hw : w.Hides hidden) (hstore : w'.store = w.store) (hhost : w'.host = w.host) :
    w.Bypasses hidden w' := by
  have hnext : w'.nextFrame = w.nextFrame := by rw [nextFrame, nextFrame, hstore]
  refine ⟨⟨fun id h => ?_, fun id p hid hp => ?_, fun id name v hid hv => ?_,
    hhost.trans hw.host⟩, Nat.le_of_eq hnext.symm, fun id _ => by rw [hstore]⟩
  · rw [hnext]
    exact hw.lt id h
  · rw [hstore] at hp
    exact hw.parent id p hid hp
  · rw [hstore] at hv
    exact (hw.bound id name v hid hv).mono (Nat.le_of_eq hnext.symm)

theorem refl (hw : w.Hides hidden) : w.Bypasses hidden w := of_store_eq hw rfl rfl

theorem trans (h : w.Bypasses hidden w₁) (h' : w₁.Bypasses hidden w') : w.Bypasses hidden w' where
  hides := h'.hides
  le := Nat.le_trans h.le h'.le
  kept id hid := (h'.kept id hid).trans (h.kept id hid)

theorem atHostDepth (hw : w.Hides hidden) (depth : Nat) :
    w.Bypasses hidden (w.atHostDepth depth) :=
  of_store_eq hw rfl rfl

theorem newClosure (hw : w.Hides hidden) : w.Bypasses hidden w.newClosure :=
  ⟨⟨hw.lt, hw.parent, hw.bound, hw.host⟩, Nat.le_refl _, fun _ _ => rfl⟩

theorem newFrame (hw : w.Hides hidden) {bindings : List (String × Value)} {parent : FrameId}
    (hparent : w.Visible hidden parent)
    (hbindings : ∀ name v, (name, v) ∈ bindings → w.Clear hidden v) :
    w.Bypasses hidden (w.newFrame bindings parent) := by
  have hle : w.nextFrame ≤ (w.newFrame bindings parent).nextFrame := by
    rw [nextFrame_newFrame]
    exact Nat.le_succ _
  refine ⟨⟨fun id h => Nat.lt_of_lt_of_le (hw.lt id h) hle, fun id p hid hp => ?_,
    fun id name v hid hv => ?_, hw.host⟩, hle, fun id hid => frames_newFrame_of_lt (hw.lt id hid)⟩
  · rw [parent?_newFrame] at hp
    split at hp
    · obtain rfl := Option.some.inj (Option.filter_eq_some_iff.1 hp).1
      exact hparent.2
    · exact hw.parent id p hid hp
  · rw [local?_newFrame] at hv
    split at hv
    · exact (hbindings name v (Store.mem_of_getElem?_ofList hv)).mono hle
    · exact (hw.bound id name v hid hv).mono hle

theorem bindStore (hw : w.Hides hidden) (name : String) (hframe : ¬ hidden frame)
    (hv : w.Clear hidden v) :
    w.Bypasses hidden { w with store := w.store.bind frame name v } := by
  have hnext : w.nextFrame = World.nextFrame { w with store := w.store.bind frame name v } :=
    (Store.size_bind w.store frame name v).symm
  refine ⟨⟨fun id h => hnext ▸ hw.lt id h, fun id p hid hp => ?_, fun id key u hid hu => ?_,
    hw.host⟩, Nat.le_of_eq hnext, fun id hid => ?_⟩
  · rw [Store.parent?_bind] at hp
    exact hw.parent id p hid hp
  · rw [Store.local?_bind] at hu
    split at hu
    · cases hu
      exact hv.mono (Nat.le_of_eq hnext)
    · exact (hw.bound id key u hid hu).mono (Nat.le_of_eq hnext)
  · have hne : frame ≠ id := fun heq => hframe (heq ▸ hid)
    simp [Store.bind, Array.getElem?_modify, hne]

end Bypasses

def seclusion (hidden : FrameId → Prop) : Custody {w : World // w.Hides hidden} where
  world := Subtype.val
  Later s s' := s.1.Bypasses hidden s'.1
  Frame s := s.1.Visible hidden
  Has s c := s.1.Visible hidden c.frame
  Asks _ _ := False
  refl s := .refl s.2
  trans := .trans
  frame_mono h hid := hid.mono h.le
  has_mono h hc := hc.mono h.le
  captured := id
  root {s id} hid := ⟨Nat.lt_of_le_of_lt (s.1.store.root_le id) hid.1, s.2.root hid.2⟩
  lookup {s id name v} hid h := s.2.lookup? hid.2 h
  keep {s w} hstore hhost :=
    have hby := Bypasses.of_store_eq s.2 hstore hhost
    ⟨⟨w, hby.hides⟩, rfl, hby⟩
  newFrame {s parent bindings} hparent hbindings :=
    have hby := Bypasses.newFrame s.2 hparent hbindings
    ⟨⟨_, hby.hides⟩, rfl, hby, s.2.visible_nextFrame⟩
  newClosure {s params body frame help} _ hframe hbody hhelp :=
    have hby := Bypasses.newClosure s.2
    ⟨⟨_, hby.hides⟩, rfl, hby, Clear.closure params hframe hbody hhelp⟩
  write {s id v} name hframe hv :=
    have hby := Bypasses.bindStore s.2 name hframe.2 hv
    ⟨⟨_, hby.hides⟩, rfl, hby⟩
  host {s slot operation args} hslot _ := by
    rw [s.2.host] at hslot
    cases hslot
  finish h := h.elim
  call h := h.elim

end World

section
variable {hidden : FrameId → Prop}

open World

/-- No procedure gets at hidden frames that does not lead there. -/
theorem CallEnds.bypasses {depth : Nat} {f : Value} {args : List Value} {w w' : World}
    {o : Except Error Value} (h : CallEnds depth f args w o w') (hw : w.Hides hidden)
    (hf : w.Clear hidden f) (hargs : ∀ v ∈ args, w.Clear hidden v) :
    w.Bypasses hidden w' ∧ ∀ v, o = .ok v → w'.Clear hidden v := by
  obtain ⟨w₁, hcall, rfl⟩ := callEnds_iff_bigStep.1 h
  have hdepth := Bypasses.atHostDepth hw depth
  have hadmits : (seclusion hidden).upkeep.Admits ⟨_, hdepth.hides⟩ (.call f args) :=
    ⟨⟨hf, hargs⟩, fun _ => trivial⟩
  obtain ⟨s, rfl, hby, hvs⟩ := hcall.leads rfl hadmits
  refine ⟨(hdepth.trans hby).trans (.atHostDepth hby.hides _), ?_⟩
  rintro v rfl
  exact hvs v (.head _)

end

/-- Frames are hidden from the global frame and from the values. -/
structure World.Apart (w : World) (hidden : FrameId → Prop) (vs : List Value) : Prop where
  hides : w.Hides hidden
  global : w.Visible hidden Session.globalFrame
  clear : ∀ v ∈ vs, w.Clear hidden v

namespace World.Apart
variable {w w' : World} {hidden : FrameId → Prop} {vs : List Value}

theorem mono (h : w.Apart hidden vs) {us : List Value} (hsubset : us ⊆ vs) : w.Apart hidden us :=
  ⟨h.hides, h.global, fun v hv => h.clear v (hsubset hv)⟩

theorem items (h : w.Apart hidden vs) (xs : List Value) (hxs : .list xs ∈ vs) :
    w.Apart hidden (vs ++ xs) :=
  ⟨h.hides, h.global, fun v hv => (List.mem_append.1 hv).elim (h.clear v)
    (Value.Within.list_iff.1 (h.clear _ hxs) v)⟩

theorem newFrame (h : w.Apart hidden vs) (bindings : List (String × Value)) (parent : FrameId) :
    (w.newFrame bindings parent).Apart (w.hideNext hidden) vs :=
  ⟨h.hides.hide_newFrame bindings parent, h.global.newFrame bindings parent,
    fun v hv => (h.clear v hv).newFrame bindings parent⟩

theorem bypass (h : w.Apart hidden vs) (hby : w.Bypasses hidden w') : w'.Apart hidden vs :=
  ⟨hby.hides, h.global.mono hby.le, fun v hv => (h.clear v hv).mono hby.le⟩

theorem call (h : w.Apart hidden vs) {depth : Nat} {f v : Value} {args : List Value}
    (hcall : CallEnds depth f args w (.ok v) w') (hf : f ∈ vs) (hargs : args ⊆ vs) :
    w'.Apart hidden (v :: vs) ∧
      ∀ id, hidden id → w'.store.frames[id]? = w.store.frames[id]? := by
  obtain ⟨hby, hresult⟩ := hcall.bypasses h.hides (h.clear f hf) fun u hu => h.clear u (hargs hu)
  have happart := h.bypass hby
  exact ⟨⟨happart.hides, happart.global, List.forall_mem_cons.2 ⟨hresult v rfl, happart.clear⟩⟩,
    hby.kept⟩

end World.Apart

end Lisplet
