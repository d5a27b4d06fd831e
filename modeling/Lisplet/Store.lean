import Std.Data.TreeMap
import Lisplet.Text.Escape
import Lisplet.Value

/-! The store holds every frame made so far. A frame binds names and may have a parent, which was
made before it; a name means what the nearest frame on the way to the root binds it to. Frames are
shared: a binding made through one holder is seen by all. -/
namespace Lisplet

abbrev Bindings := Std.TreeMap String Value

structure Frame where
  bindings : Bindings
  parent : Option FrameId

structure Store where
  frames : Array Frame
  /-- The number of closures made so far, which is the number of the next one. -/
  closures : Nat

namespace Store

def empty : Store := ⟨#[], 0⟩

/-- Makes a frame; of two bindings of a name the later one counts. -/
def newFrame (store : Store) (bindings : List (String × Value)) (parent : Option FrameId) :
    FrameId × Store :=
  (store.frames.size,
    { store with frames := store.frames.push ⟨Std.TreeMap.ofList bindings, parent⟩ })

def newClosure (store : Store) : Nat × Store :=
  (store.closures, { store with closures := store.closures + 1 })

def local? (store : Store) (id : FrameId) (name : String) : Option Value :=
  store.frames[id]?.bind (·.bindings[name]?)

/-- The parent of a frame, which is an older frame. -/
def parent? (store : Store) (id : FrameId) : Option FrameId :=
  (store.frames[id]?.bind (·.parent)).filter (· < id)

theorem lt_of_parent? {store : Store} {id parent : FrameId} (h : store.parent? id = some parent) :
    parent < id := by
  simp [parent?, Option.filter_eq_some_iff] at h
  exact h.2

def lookup? (store : Store) (id : FrameId) (name : String) : Option Value :=
  match store.local? id name with
  | some v => some v
  | none =>
    match _h : store.parent? id with
    | some parent => store.lookup? parent name
    | none => none
termination_by id
decreasing_by exact lt_of_parent? _h

def root (store : Store) (id : FrameId) : FrameId :=
  match _h : store.parent? id with
  | some parent => store.root parent
  | none => id
termination_by id
decreasing_by exact lt_of_parent? _h

/-- The number of frames on the way to the root, both ends included, on top of `passed`. -/
def depthFrom (store : Store) (id : FrameId) (passed : Nat) : Nat :=
  match _h : store.parent? id with
  | some parent => store.depthFrom parent (passed + 1)
  | none => passed + 1
termination_by id
decreasing_by exact lt_of_parent? _h

def depth (store : Store) (id : FrameId) : Nat := store.depthFrom id 0

/-- Adds what a frame and those around it bind and nearer frames do not. -/
def visibleFrom (store : Store) (id : FrameId) (nearer : Bindings) : Bindings :=
  let here := (store.frames[id]?.elim ∅ (·.bindings)).foldl
    (fun all name v => all.insertIfNew name v) nearer
  match _h : store.parent? id with
  | some parent => store.visibleFrom parent here
  | none => here
termination_by id
decreasing_by exact lt_of_parent? _h

def visible (store : Store) (id : FrameId) : List (String × Value) :=
  (store.visibleFrom id ∅).toList

def bind (store : Store) (id : FrameId) (name : String) (v : Value) : Store :=
  { store with
    frames := store.frames.modify id fun frame =>
      { frame with bindings := frame.bindings.insert name v } }

def bindGlobal (store : Store) (id : FrameId) (name : String) (v : Value) : Store :=
  store.bind (store.root id) name v

def inspectFrame (store : Store) (id : FrameId) : String :=
  let names := store.frames[id]?.elim [] (·.bindings.keys)
  "Environment \x7b names: " ++ Text.inspectedList names ++ ", depth: " ++
    toString (store.depth id) ++ " \x7d"

@[simp] theorem parent?_bind (store : Store) (id other : FrameId) (name : String) (v : Value) :
    (store.bind id name v).parent? other = store.parent? other := by
  simp only [parent?, bind, Array.getElem?_modify]
  split <;> cases store.frames[other]? <;> rfl

@[simp] theorem size_bind (store : Store) (id : FrameId) (name : String) (v : Value) :
    (store.bind id name v).frames.size = store.frames.size := by
  simp [bind]

theorem local?_bind (store : Store) (id other : FrameId) (name key : String) (v : Value) :
    (store.bind id name v).local? other key =
      if id = other ∧ name = key ∧ other < store.frames.size then some v
      else store.local? other key := by
  simp only [local?, bind, Array.getElem?_modify]
  by_cases h : id = other
  · subst h
    by_cases hlt : id < store.frames.size
    · by_cases hk : name = key
      · simp [hlt, hk]
      · simp [hlt, hk, Std.TreeMap.getElem?_insert]
    · simp [hlt]
  · simp [h]

@[simp] theorem root_bind (store : Store) (id other : FrameId) (name : String) (v : Value) :
    (store.bind id name v).root other = store.root other := by
  fun_induction store.root other with
  | case1 other parent h ih =>
    rw [root]
    split
    · next outer h' =>
      rw [parent?_bind, h, Option.some.injEq] at h'
      rw [← h', ih]
    · next h' => simp [h] at h'
  | case2 other h =>
    rw [root]
    split
    · next outer h' => simp [h] at h'
    · rfl

theorem getElem?_newFrame_of_lt {store : Store} {id : FrameId} (h : id < store.frames.size)
    (bindings : List (String × Value)) (parent : Option FrameId) :
    (store.newFrame bindings parent).2.frames[id]? = store.frames[id]? := by
  simp [newFrame, Array.getElem?_push, Nat.ne_of_lt h]

theorem local?_newFrame_of_lt {store : Store} {id : FrameId} (h : id < store.frames.size)
    (bindings : List (String × Value)) (parent : Option FrameId) (name : String) :
    (store.newFrame bindings parent).2.local? id name = store.local? id name := by
  rw [local?, getElem?_newFrame_of_lt h, local?]

theorem parent?_newFrame_of_lt {store : Store} {id : FrameId} (h : id < store.frames.size)
    (bindings : List (String × Value)) (parent : Option FrameId) :
    (store.newFrame bindings parent).2.parent? id = store.parent? id := by
  rw [parent?, getElem?_newFrame_of_lt h, parent?]

theorem parent?_newFrame_self {store : Store} {parent : FrameId} (h : parent < store.frames.size)
    (bindings : List (String × Value)) :
    (store.newFrame bindings (some parent)).2.parent? store.frames.size = some parent := by
  simp [newFrame, parent?, h]

end Store

end Lisplet
