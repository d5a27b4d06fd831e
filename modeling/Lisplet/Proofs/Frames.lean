import Lisplet.Proofs.Closures

/-! Frames and the links between them. A link is the parent a frame was made with, older or not; in
a well-formed store it is always older, and the closures that are bound were made in frames. -/
namespace Lisplet

namespace Store

theorem lookup?_eq_or (store : Store) (id : FrameId) (name : String) :
    store.lookup? id name =
      (store.local? id name).or ((store.parent? id).bind fun p => store.lookup? p name) := by
  rw [lookup?]
  cases store.local? id name with
  | some v => rfl
  | none =>
    dsimp only
    split <;> simp [*]

theorem lookup?_of_local? {store : Store} {id : FrameId} {name : String} {v : Value}
    (h : store.local? id name = some v) : store.lookup? id name = some v := by
  rw [lookup?_eq_or, h]
  rfl

theorem root_eq_elim (store : Store) (id : FrameId) :
    store.root id = (store.parent? id).elim id store.root := by
  rw [root]
  split <;> simp [*]

theorem root_of_parent?_eq_none {store : Store} {id : FrameId} (h : store.parent? id = none) :
    store.root id = id := by
  rw [root_eq_elim, h]
  rfl

theorem root_of_parent?_eq_some {store : Store} {id p : FrameId} (h : store.parent? id = some p) :
    store.root id = store.root p := by
  rw [root_eq_elim, h]
  rfl

theorem parent?_root (store : Store) (id : FrameId) : store.parent? (store.root id) = none := by
  fun_induction store.root id with
  | case1 id p h ih => exact ih
  | case2 id h => exact h

theorem root_le (store : Store) (id : FrameId) : store.root id ≤ id := by
  fun_induction store.root id with
  | case1 id p h ih => exact Nat.le_trans ih (Nat.le_of_lt (lt_of_parent? h))
  | case2 id h => exact Nat.le_refl id

theorem depthFrom_eq_elim (store : Store) (id : FrameId) (passed : Nat) :
    store.depthFrom id passed =
      (store.parent? id).elim (passed + 1) fun p => store.depthFrom p (passed + 1) := by
  rw [depthFrom]
  split <;> simp [*]

/-- The parent that a frame was made with. -/
def link? (store : Store) (id : FrameId) : Option FrameId := store.frames[id]?.bind (·.parent)

/-- The frames on the way from a frame along the links, the one without a link included. -/
inductive Path (store : Store) : FrameId → List FrameId → Prop where
  | last {id : FrameId} (h : store.link? id = none) : Path store id [id]
  | link {id p : FrameId} {ids : List FrameId} (h : store.link? id = some p)
    (hp : Path store p ids) : Path store id (id :: ids)

def Made (P : Closure → Prop) (store : Store) (c : Closure) : Prop :=
  c.frame < store.frames.size ∧ P c

/-- Frames are linked to older frames, all but the first one, and bind only values whose closures
were made in the store. -/
structure WellFormed (P : Closure → Prop) (store : Store) : Prop where
  nonempty : 0 < store.frames.size
  link_lt : ∀ id p, store.link? id = some p → p < id
  link_isSome : ∀ id, id < store.frames.size → id ≠ 0 → (store.link? id).isSome
  bound : ∀ id name v, store.local? id name = some v → v.Within (store.Made P)

/-- Frames stay linked as they were, and names stay bound where they were. -/
structure Extends (old new : Store) : Prop where
  size_le : old.frames.size ≤ new.frames.size
  link?_eq : ∀ id, id < old.frames.size → new.link? id = old.link? id
  isSome_local? : ∀ id name, (old.local? id name).isSome → (new.local? id name).isSome

namespace Extends

theorem refl (store : Store) : store.Extends store :=
  ⟨Nat.le_refl _, fun _ _ => rfl, fun _ _ h => h⟩

theorem trans {first middle last : Store} (h : first.Extends middle) (h' : middle.Extends last) :
    first.Extends last where
  size_le := Nat.le_trans h.size_le h'.size_le
  link?_eq id hid := (h'.link?_eq id (Nat.lt_of_lt_of_le hid h.size_le)).trans (h.link?_eq id hid)
  isSome_local? id name hbound := h'.isSome_local? id name (h.isSome_local? id name hbound)

theorem made {P : Closure → Prop} {old new : Store} (h : old.Extends new) (c : Closure) :
    old.Made P c → new.Made P c :=
  fun hc => ⟨Nat.lt_of_lt_of_le hc.1 h.size_le, hc.2⟩

end Extends

namespace WellFormed
variable {P : Closure → Prop} {store : Store} (h : store.WellFormed P)
include h

theorem parent?_eq_link? (id : FrameId) : store.parent? id = store.link? id := by
  unfold parent?
  change (store.link? id).filter _ = _
  cases hlink : store.link? id with
  | none => rfl
  | some p => simp [h.link_lt id p hlink]

theorem link?_zero : store.link? 0 = none := by
  cases hlink : store.link? 0 with
  | none => rfl
  | some p => exact absurd (h.link_lt 0 p hlink) (Nat.not_lt_zero p)

theorem path (id : FrameId) (hid : id < store.frames.size) :
    ∃ ids, store.Path id ids ∧ ids.getLast? = some 0 := by
  induction id using Nat.strongRecOn with
  | ind id ih =>
    by_cases hzero : id = 0
    · rw [hzero]
      exact ⟨[0], .last h.link?_zero, rfl⟩
    · obtain ⟨p, hp⟩ := Option.isSome_iff_exists.1 (h.link_isSome id hid hzero)
      have hlt := h.link_lt id p hp
      obtain ⟨ids, hpath, hlast⟩ := ih p hlt (Nat.lt_trans hlt hid)
      refine ⟨id :: ids, .link hp hpath, ?_⟩
      rw [List.getLast?_cons, hlast]
      rfl

section
variable {id : FrameId} {ids : List FrameId}

theorem le_of_mem_path (hpath : store.Path id ids) : ∀ other ∈ ids, other ≤ id := by
  induction hpath with
  | last => simp
  | @link id p ids hlink _ ih =>
    intro other hother
    obtain rfl | hother := List.mem_cons.1 hother
    · exact Nat.le_refl _
    · exact Nat.le_trans (ih other hother) (Nat.le_of_lt (h.link_lt id p hlink))

theorem pairwise_path (hpath : store.Path id ids) : ids.Pairwise (· > ·) := by
  induction hpath with
  | last => simp
  | @link id p ids hlink hpath ih =>
    refine List.Pairwise.cons (fun other hother => ?_) ih
    exact Nat.lt_of_le_of_lt (h.le_of_mem_path hpath other hother) (h.link_lt id p hlink)

theorem lookup?_eq (hpath : store.Path id ids) (name : String) :
    store.lookup? id name = ids.findSome? fun other => store.local? other name := by
  induction hpath with
  | @last id hlink =>
    rw [lookup?_eq_or, h.parent?_eq_link?, hlink, List.findSome?_singleton]
    exact Option.or_none
  | @link id p ids hlink _ ih =>
    rw [lookup?_eq_or, h.parent?_eq_link?, hlink, List.findSome?_cons, ← ih]
    cases store.local? id name <;> rfl

theorem getLast?_path (hpath : store.Path id ids) : ids.getLast? = some (store.root id) := by
  induction hpath with
  | last hlink =>
    rw [root_eq_elim, h.parent?_eq_link?, hlink]
    rfl
  | @link id p ids hlink _ ih =>
    rw [List.getLast?_cons, ih, root_eq_elim store id, h.parent?_eq_link?, hlink]
    rfl

theorem depthFrom_eq (hpath : store.Path id ids) (passed : Nat) :
    store.depthFrom id passed = passed + ids.length := by
  induction hpath generalizing passed with
  | last hlink =>
    rw [depthFrom_eq_elim, h.parent?_eq_link?, hlink]
    rfl
  | @link id p ids hlink _ ih =>
    rw [depthFrom_eq_elim, h.parent?_eq_link?, hlink, List.length_cons]
    have hrest := ih (passed + 1)
    simp only [Option.elim_some]
    omega

end

end WellFormed

section
variable {P : Closure → Prop} {store : Store} {id : FrameId} {name : String} {v : Value}

theorem link?_bind (other : FrameId) : (store.bind id name v).link? other = store.link? other := by
  simp only [link?, bind, Array.getElem?_modify]
  split <;> cases store.frames[other]? <;> rfl

theorem extends_bind : store.Extends (store.bind id name v) where
  size_le := Nat.le_of_eq (size_bind store id name v).symm
  link?_eq other _ := link?_bind other
  isSome_local? other key h := by
    rw [local?_bind]
    split
    · rfl
    · exact h

theorem WellFormed.bind (h : store.WellFormed P) (hv : v.Within (store.Made P)) :
    (store.bind id name v).WellFormed P where
  nonempty := by
    rw [size_bind]
    exact h.nonempty
  link_lt other p hp := h.link_lt other p (link?_bind other ▸ hp)
  link_isSome other hother hzero := by
    rw [link?_bind]
    exact h.link_isSome other (size_bind store id name v ▸ hother) hzero
  bound other key u hu := by
    have hmono : ∀ c, store.Made P c → (store.bind id name v).Made P c := extends_bind.made
    rw [local?_bind] at hu
    split at hu
    · cases hu
      exact hv.mono hmono
    · exact (h.bound other key u hu).mono hmono

theorem link?_newFrame (bindings : List (String × Value)) (parent : Option FrameId)
    (other : FrameId) : (store.newFrame bindings parent).2.link? other =
      if other = store.frames.size then parent else store.link? other := by
  simp only [link?, newFrame, Array.getElem?_push]
  split <;> rfl

theorem local?_newFrame (bindings : List (String × Value)) (parent : Option FrameId)
    (other : FrameId) (key : String) : (store.newFrame bindings parent).2.local? other key =
      if other = store.frames.size then (Std.TreeMap.ofList bindings)[key]?
      else store.local? other key := by
  simp only [local?, newFrame, Array.getElem?_push]
  split <;> rfl

theorem local?_eq_none_of_size_le (h : store.frames.size ≤ id) : store.local? id name = none := by
  simp [local?, Array.getElem?_eq_none h]

theorem extends_newFrame (bindings : List (String × Value)) (parent : Option FrameId) :
    store.Extends (store.newFrame bindings parent).2 where
  size_le := by simp [newFrame]
  link?_eq other hother := by
    rw [link?_newFrame, if_neg (Nat.ne_of_lt hother)]
  isSome_local? other key h := by
    have hne : other ≠ store.frames.size := by
      rintro rfl
      rw [local?_eq_none_of_size_le (Nat.le_refl _)] at h
      cases h
    rw [local?_newFrame, if_neg hne]
    exact h

theorem getElem?_insertMany {bindings : List (String × Value)} {all : Bindings} {key : String}
    {u : Value} (h : (all.insertMany bindings)[key]? = some u) :
    (key, u) ∈ bindings ∨ all[key]? = some u := by
  induction bindings generalizing all with
  | nil =>
    rw [Std.TreeMap.insertMany_nil] at h
    exact .inr h
  | cons binding rest ih =>
    obtain ⟨name, v⟩ := binding
    rw [Std.TreeMap.insertMany_cons] at h
    obtain hmem | h := ih h
    · exact .inl (.tail _ hmem)
    · rw [Std.TreeMap.getElem?_insert] at h
      split at h
      · next heq =>
        rw [Std.LawfulEqCmp.compare_eq_iff_eq] at heq
        cases h
        rw [heq]
        exact .inl (.head _)
      · exact .inr h

theorem mem_of_getElem?_ofList {bindings : List (String × Value)} {key : String} {u : Value}
    (h : (Std.TreeMap.ofList bindings)[key]? = some u) : (key, u) ∈ bindings := by
  rw [Std.TreeMap.ofList_eq_insertMany_empty] at h
  obtain hmem | h := getElem?_insertMany h
  · exact hmem
  · simp at h

theorem WellFormed.newFrame (h : store.WellFormed P) {bindings : List (String × Value)}
    {parent : FrameId} (hparent : parent < store.frames.size)
    (hbindings : ∀ key u, (key, u) ∈ bindings → u.Within (store.Made P)) :
    (store.newFrame bindings (some parent)).2.WellFormed P where
  nonempty := by simp [Store.newFrame]
  link_lt other p hp := by
    rw [link?_newFrame] at hp
    split at hp
    · next heq =>
      cases hp
      rw [heq]
      exact hparent
    · exact h.link_lt other p hp
  link_isSome other hother hzero := by
    rw [link?_newFrame]
    split
    · rfl
    · next hne =>
      refine h.link_isSome other ?_ hzero
      have hsize : (store.newFrame bindings (some parent)).2.frames.size =
          store.frames.size + 1 := by simp [Store.newFrame]
      rw [hsize] at hother
      exact Nat.lt_of_le_of_ne (Nat.le_of_lt_succ hother) hne
  bound other key u hu := by
    have hmono : ∀ c, store.Made P c → (store.newFrame bindings (some parent)).2.Made P c :=
      (extends_newFrame bindings (some parent)).made
    rw [local?_newFrame] at hu
    split at hu
    · exact (hbindings key u (mem_of_getElem?_ofList hu)).mono hmono
    · exact (h.bound other key u hu).mono hmono

theorem extends_newClosure : store.Extends store.newClosure.2 :=
  ⟨Nat.le_refl _, fun _ _ => rfl, fun _ _ h => h⟩

theorem WellFormed.newClosure (h : store.WellFormed P) : store.newClosure.2.WellFormed P :=
  ⟨h.nonempty, h.link_lt, h.link_isSome, h.bound⟩

theorem WellFormed.lookup? (h : store.WellFormed P) (hv : store.lookup? id name = some v) :
    v.Within (store.Made P) := by
  fun_induction store.lookup? id name with
  | case1 id u hlocal =>
    cases hv
    exact h.bound _ _ _ hlocal
  | case2 id hlocal parent hparent ih => exact ih hv
  | case3 => cases hv

theorem WellFormed.mono {Q : Closure → Prop} (h : store.WellFormed P) (hle : ∀ c, P c → Q c) :
    store.WellFormed Q where
  nonempty := h.nonempty
  link_lt := h.link_lt
  link_isSome := h.link_isSome
  bound id name v hv := (h.bound id name v hv).mono fun c hc => ⟨hc.1, hle c hc.2⟩

end

end Store

abbrev Store.Safe (store : Store) (P : Closure → Prop) (v : Value) : Prop := v.Within (store.Made P)

/-- The store is well formed, and the operations of the host bring no closures of their own. -/
structure World.WellFormed (P : Closure → Prop) (w : World) : Prop where
  store : w.store.WellFormed P
  host : ∀ (slot : Nat) (operation : HostOperation), w.host[slot]? = some operation →
    operation.Draws

end Lisplet
