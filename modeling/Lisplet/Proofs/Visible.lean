import Lisplet.Proofs.LetBinding

/-! The chain of frames from a frame to its root, and what is seen along it. Looking a name up,
listing all names and writing in a frame or in its root agree: a name is listed with what it means,
and a write is seen from the frames that meet it before another binding of the name. -/
namespace Lisplet

namespace Store

def chain (store : Store) (id : FrameId) : List FrameId :=
  match _h : store.parent? id with
  | some parent => id :: store.chain parent
  | none => [id]
termination_by id
decreasing_by exact lt_of_parent? _h

/-- From the frame a name is looked up in another frame, which no nearer frame hides. -/
def Reaches (store : Store) (id : FrameId) (name : String) (other : FrameId) : Prop :=
  ∃ nearer further, store.chain id = nearer ++ other :: further ∧
    ∀ near ∈ nearer, store.local? near name = none

section
variable {store : Store} {id other : FrameId} {name key : String} {v : Value}

theorem chain_eq_elim (store : Store) (id : FrameId) :
    store.chain id = id :: (store.parent? id).elim [] store.chain := by
  rw [chain]
  split <;> simp [*]

theorem chain_ne_nil (store : Store) (id : FrameId) : store.chain id ≠ [] := by
  rw [chain_eq_elim]
  exact List.cons_ne_nil _ _

theorem reaches_iff : store.Reaches id name other ↔
    id = other ∨ store.local? id name = none ∧
      ∃ p, store.parent? id = some p ∧ store.Reaches p name other := by
  constructor
  · rintro ⟨nearer, further, hchain, hnearer⟩
    rw [chain_eq_elim] at hchain
    cases nearer with
    | nil => exact .inl (List.cons.inj hchain).1
    | cons near nearer =>
      obtain ⟨rfl, hrest⟩ := List.cons.inj hchain
      refine .inr ⟨hnearer _ (.head _), ?_⟩
      cases hp : store.parent? id with
      | none => simp [hp] at hrest
      | some p =>
        rw [hp] at hrest
        exact ⟨p, rfl, nearer, further, hrest, fun near hnear => hnearer near (.tail _ hnear)⟩
  · rintro (rfl | ⟨hfree, p, hp, nearer, further, hchain, hnearer⟩)
    · exact ⟨[], _, chain_eq_elim store id, by simp⟩
    · refine ⟨id :: nearer, further, ?_, ?_⟩
      · rw [chain_eq_elim, hp, Option.elim_some, hchain, List.cons_append]
      · rintro near (_ | ⟨_, hnear⟩)
        · exact hfree
        · exact hnearer near hnear

theorem reaches_root_iff {f : FrameId} : store.Reaches id name (store.root f) ↔
    store.root id = store.root f ∧ ∀ near ∈ (store.chain id).dropLast,
      store.local? near name = none := by
  fun_induction store.chain id with
  | case1 id p hp ih =>
    have hne : id ≠ store.root f := by
      rintro rfl
      cases hp.symm.trans (store.parent?_root f)
    rw [reaches_iff, root_of_parent?_eq_some hp,
      List.dropLast_cons_of_ne_nil (store.chain_ne_nil p), List.forall_mem_cons]
    simp only [hne, hp, Option.some.injEq, exists_eq_left', false_or, ih]
    exact and_left_comm
  | case2 id hp =>
    rw [reaches_iff, root_of_parent?_eq_none hp]
    simp [hp]

/-! Writing. -/

theorem lookup?_bind_of_reaches (hid : id < store.frames.size) {g : FrameId}
    (h : store.Reaches g name id) : (store.bind id name v).lookup? g name = some v := by
  fun_induction store.chain g with
  | case1 g p hp ih =>
    rw [lookup?_eq_or, local?_bind, parent?_bind, hp, Option.bind_some]
    obtain rfl | ⟨hfree, q, hq, hreaches⟩ := reaches_iff.1 h
    · rw [if_pos ⟨rfl, rfl, hid⟩]
      rfl
    · cases hq.symm.trans hp
      split
      · rfl
      · rw [hfree, Option.none_or, ih hreaches]
  | case2 g hp =>
    obtain rfl | ⟨-, q, hq, -⟩ := reaches_iff.1 h
    · rw [lookup?_eq_or, local?_bind, if_pos ⟨rfl, rfl, hid⟩]
      rfl
    · cases hq.symm.trans hp

theorem local?_bind_of_not {g : FrameId} (h : ¬ (key = name ∧ store.Reaches g name id)) :
    (store.bind id name v).local? g key = store.local? g key := by
  rw [local?_bind]
  refine if_neg ?_
  rintro ⟨rfl, rfl, -⟩
  exact h ⟨rfl, reaches_iff.2 (.inl rfl)⟩

theorem lookup?_bind_of_not {g : FrameId} (h : ¬ (key = name ∧ store.Reaches g name id)) :
    (store.bind id name v).lookup? g key = store.lookup? g key := by
  fun_induction store.chain g with
  | case1 g p hp ih =>
    rw [lookup?_eq_or, local?_bind_of_not h, parent?_bind, lookup?_eq_or store, hp,
      Option.bind_some, Option.bind_some]
    cases hlocal : store.local? g key with
    | some u => rfl
    | none =>
      rw [Option.none_or, Option.none_or]
      refine ih fun ⟨hkey, hreaches⟩ => h ⟨hkey, reaches_iff.2 (.inr ⟨?_, p, hp, hreaches⟩)⟩
      rw [← hkey, hlocal]
  | case2 g hp =>
    rw [lookup?_eq_or, local?_bind_of_not h, parent?_bind, lookup?_eq_or store, hp,
      Option.bind_none, Option.bind_none]

/-! Listing. -/

theorem getElem?_foldl_insertIfNew (added : List (String × Value)) (nearer : Bindings)
    (name : String) :
    (added.foldl (fun all p => all.insertIfNew p.1 p.2) nearer)[name]? =
      nearer[name]?.or ((added.find? fun p => compare p.1 name == .eq).map Prod.snd) := by
  induction added generalizing nearer with
  | nil => simp
  | cons p rest ih =>
    rw [List.foldl_cons, ih, Std.TreeMap.getElem?_insertIfNew, List.find?_cons]
    by_cases hname : compare p.1 name = .eq
    · have heq : p.1 = name := Std.LawfulEqCmp.eq_of_compare hname
      cases hnear : nearer[name]? with
      | some v =>
        have hmem : name ∈ nearer := Std.TreeMap.mem_iff_isSome_getElem?.2 (by simp [hnear])
        simp [heq, hmem]
      | none =>
        have hmem : name ∉ nearer := by simp [Std.TreeMap.mem_iff_isSome_getElem?, hnear]
        simp [heq, hmem]
    · have hfalse : (compare p.1 name == .eq) = false := beq_false_of_ne hname
      rw [if_neg fun h => hname h.1, hfalse]

theorem find?_toList (bindings : Bindings) (name : String) :
    (bindings.toList.find? fun p => compare p.1 name == .eq).map Prod.snd = bindings[name]? := by
  cases h : bindings.toList.find? fun p => compare p.1 name == .eq with
  | some p =>
    obtain ⟨-, hget⟩ :=
      Std.TreeMap.find?_toList_eq_some_iff_getKey?_eq_some_and_getElem?_eq_some.1 h
    rw [hget]
    rfl
  | none =>
    have hcontains := Std.TreeMap.find?_toList_eq_none_iff_contains_eq_false.1 h
    rw [Std.TreeMap.getElem?_eq_none_of_contains_eq_false hcontains]
    rfl

theorem getElem?_collect (store : Store) (id : FrameId) (nearer : Bindings) (name : String) :
    ((store.frames[id]?.elim ∅ (·.bindings)).foldl
      (fun all name v => all.insertIfNew name v) nearer)[name]? =
      nearer[name]?.or (store.local? id name) := by
  rw [Std.TreeMap.foldl_eq_foldl_toList, getElem?_foldl_insertIfNew, find?_toList, local?]
  cases store.frames[id]? with
  | some frame => rfl
  | none => simp

theorem getElem?_visibleFrom (store : Store) (id : FrameId) (nearer : Bindings) (name : String) :
    (store.visibleFrom id nearer)[name]? = nearer[name]?.or (store.lookup? id name) := by
  fun_induction store.visibleFrom id nearer with
  | case1 id nearer here p hp ih =>
    rw [ih, getElem?_collect, lookup?_eq_or store id, hp, Option.bind_some, Option.or_assoc]
  | case2 id nearer here hp =>
    rw [getElem?_collect, lookup?_eq_or store id, hp, Option.bind_none, Option.or_none]

theorem mem_visible_iff : (name, v) ∈ store.visible id ↔ store.lookup? id name = some v := by
  rw [visible, Std.TreeMap.mem_toList_iff_getElem?_eq_some, getElem?_visibleFrom]
  simp

theorem pairwise_visible (store : Store) (id : FrameId) :
    (store.visible id).Pairwise fun a b => a.1 < b.1 := by
  have hkeys : (store.visible id).Pairwise fun a b => compare a.1 b.1 = .lt :=
    Std.TreeMap.ordered_keys_toList
  exact hkeys.imp fun hlt => compareOfLessAndEq_eq_lt.1 hlt

theorem visible_congr {old new : Store} {id id' : FrameId}
    (h : ∀ name, new.lookup? id' name = old.lookup? id name) :
    new.visible id' = old.visible id := by
  refine Std.TreeMap.Equiv.toList_eq (Std.TreeMap.Equiv.of_forall_constGet?_eq fun name => ?_)
  rw [getElem?_visibleFrom, getElem?_visibleFrom, h]

end

/-! Writes one after the other. -/

/-- A binding that is made in a frame or in the root of a frame. -/
structure Write where
  frame : FrameId
  atRoot : Bool
  name : String
  value : Value

def write (store : Store) (w : Write) : Store :=
  if w.atRoot then store.bindGlobal w.frame w.name w.value else store.bind w.frame w.name w.value

def writeAll (store : Store) (writes : List Write) : Store := writes.foldl write store

def Write.target (store : Store) (w : Write) : FrameId × String :=
  (if w.atRoot then store.root w.frame else w.frame, w.name)

section
variable {store : Store} {id : FrameId} {name : String} {w w' : Write} {writes writes' : List Write}

theorem write_eq_bind : store.write w = store.bind (w.target store).1 w.name w.value := by
  rw [write, Write.target, bindGlobal]
  split <;> rfl

theorem target_write : w.target (store.write w') = w.target store := by
  rw [write_eq_bind, Write.target, root_bind, Write.target]

theorem parent?_writeAll : (store.writeAll writes).parent? id = store.parent? id := by
  induction writes generalizing store with
  | nil => rfl
  | cons w rest ih =>
    rw [writeAll, List.foldl_cons, ← writeAll, ih, write_eq_bind, parent?_bind]

theorem local?_writeAll_of_not (h : ∀ w ∈ writes, w.target store ≠ (id, name)) :
    (store.writeAll writes).local? id name = store.local? id name := by
  induction writes generalizing store with
  | nil => rfl
  | cons w rest ih =>
    rw [writeAll, List.foldl_cons, ← writeAll, ih, write_eq_bind, local?_bind]
    · refine if_neg ?_
      rintro ⟨hframe, hname, -⟩
      exact h w (.head _) (Prod.ext hframe hname)
    · intro w' hw'
      rw [target_write]
      exact h w' (.tail _ hw')

theorem local?_writeAll_of_mem (hid : id < store.frames.size)
    (hdistinct : writes.Pairwise fun a b => a.target store ≠ b.target store) (hw : w ∈ writes)
    (htarget : w.target store = (id, name)) :
    (store.writeAll writes).local? id name = some w.value := by
  induction writes generalizing store with
  | nil => cases hw
  | cons first rest ih =>
    obtain ⟨hfirst, hrest⟩ := List.pairwise_cons.1 hdistinct
    rw [writeAll, List.foldl_cons, ← writeAll]
    obtain rfl | hw := List.mem_cons.1 hw
    · rw [local?_writeAll_of_not, write_eq_bind, local?_bind, htarget]
      · exact if_pos ⟨rfl, congrArg Prod.snd htarget, hid⟩
      · intro w' hw'
        rw [target_write, ← htarget]
        exact (hfirst w' hw').symm
    · refine ih ?_ ?_ hw (target_write.trans htarget)
      · rw [write_eq_bind, size_bind]
        exact hid
      · simpa only [target_write] using hrest

theorem size_writeAll : (store.writeAll writes).frames.size = store.frames.size := by
  induction writes generalizing store with
  | nil => rfl
  | cons w rest ih => rw [writeAll, List.foldl_cons, ← writeAll, ih, write_eq_bind, size_bind]

theorem local?_writeAll_perm (hperm : writes.Perm writes')
    (hdistinct : writes.Pairwise fun a b => a.target store ≠ b.target store) :
    (store.writeAll writes').local? id name = (store.writeAll writes).local? id name := by
  have hdistinct' : writes'.Pairwise fun a b => a.target store ≠ b.target store :=
    (hperm.pairwise_iff fun h => h.symm).1 hdistinct
  by_cases hid : id < store.frames.size
  · by_cases hsome : ∃ w ∈ writes, w.target store = (id, name)
    · obtain ⟨w, hw, htarget⟩ := hsome
      rw [local?_writeAll_of_mem hid hdistinct hw htarget,
        local?_writeAll_of_mem hid hdistinct' (hperm.mem_iff.1 hw) htarget]
    · have hnone : ∀ w ∈ writes, w.target store ≠ (id, name) := fun w hw h => hsome ⟨w, hw, h⟩
      rw [local?_writeAll_of_not hnone,
        local?_writeAll_of_not fun w hw => hnone w (hperm.mem_iff.2 hw)]
  · have hout (all : List Write) : (store.writeAll all).local? id name = none := by
      refine local?_eq_none_of_size_le ?_
      rw [size_writeAll]
      exact Nat.le_of_not_lt hid
    rw [hout, hout]

theorem local?_newFrame_perm {bindings bindings' : List (String × Value)}
    (hperm : bindings.Perm bindings') (hdistinct : (bindings.map Prod.fst).Nodup)
    (parent : Option FrameId) : (store.newFrame bindings' parent).2.local? id name =
      (store.newFrame bindings parent).2.local? id name := by
  have hofList : (Std.TreeMap.ofList bindings')[name]? = (Std.TreeMap.ofList bindings)[name]? := by
    have hpairs : bindings.Pairwise fun a b => ¬ compare a.1 b.1 = .eq :=
      (List.pairwise_map.1 hdistinct).imp fun hne heq => hne (Std.LawfulEqCmp.eq_of_compare heq)
    have hpairs' : bindings'.Pairwise fun a b => ¬ compare a.1 b.1 = .eq :=
      (hperm.pairwise_iff fun h heq => h (Std.OrientedCmp.eq_symm heq)).1 hpairs
    by_cases hname : name ∈ bindings.map Prod.fst
    · obtain ⟨⟨_, v⟩, hv, rfl⟩ := List.mem_map.1 hname
      rw [Std.TreeMap.getElem?_ofList_of_mem Std.ReflCmp.compare_self hpairs' (hperm.mem_iff.1 hv),
        Std.TreeMap.getElem?_ofList_of_mem Std.ReflCmp.compare_self hpairs hv]
    · have hname' : name ∉ bindings'.map Prod.fst := fun h => hname ((hperm.map _).mem_iff.2 h)
      rw [Std.TreeMap.getElem?_ofList_of_contains_eq_false (by simpa using hname'),
        Std.TreeMap.getElem?_ofList_of_contains_eq_false (by simpa using hname)]
  rw [local?_newFrame, local?_newFrame, hofList]

theorem lookup?_of_local?_eq {old new : Store} (hparent : ∀ id, new.parent? id = old.parent? id)
    (hlocal : ∀ id name, new.local? id name = old.local? id name) (id : FrameId) (name : String) :
    new.lookup? id name = old.lookup? id name :=
  lookup?_congr (fun id _ => hlocal id name) (fun id _ => hparent id) (Nat.lt_succ_self id)

end

/-- Looking up, listing and binding agree in every frame of every store. The list of what a frame
sees has exactly the names that mean something there, in strictly rising order, and depends on
nothing else, so neither the order of the bindings that a frame is made with nor the order of writes
with different targets makes a difference. A write at the root is seen from the frames with that
root whose other frames do not bind the name; a write in a frame is seen under its name from the
frames whose chain meets it before another binding of the name; nothing else that is looked up
changes. -/
theorem lookup_visible_bind_agree (store : Store) :
    (∀ id name v, store.lookup? id name = some v ↔ (name, v) ∈ store.visible id) ∧
    (∀ id, (store.visible id).Pairwise fun a b => a.1 < b.1) ∧
    (∀ (other : Store) id id', (∀ name, other.lookup? id' name = store.lookup? id name) →
      other.visible id' = store.visible id) ∧
    (∀ bindings bindings' parent id, bindings.Perm bindings' → (bindings.map Prod.fst).Nodup →
      (store.newFrame bindings' parent).2.visible id =
        (store.newFrame bindings parent).2.visible id) ∧
    (∀ writes writes' id, writes.Perm writes' →
      (writes.Pairwise fun a b => a.target store ≠ b.target store) →
      (store.writeAll writes').visible id = (store.writeAll writes).visible id) ∧
    (∀ f name v, f < store.frames.size → ∀ g key,
      (key = name → store.root g = store.root f →
        (∀ near ∈ (store.chain g).dropLast, store.local? near name = none) →
        (store.bindGlobal f name v).lookup? g key = some v) ∧
      (¬ (key = name ∧ store.root g = store.root f ∧
        ∀ near ∈ (store.chain g).dropLast, store.local? near name = none) →
        (store.bindGlobal f name v).lookup? g key = store.lookup? g key)) ∧
    ∀ id name v, id < store.frames.size → ∀ g key,
      (key = name → store.Reaches g name id → (store.bind id name v).lookup? g key = some v) ∧
      (¬ (key = name ∧ store.Reaches g name id) →
        (store.bind id name v).lookup? g key = store.lookup? g key) := by
  refine ⟨fun id name v => mem_visible_iff.symm, store.pairwise_visible,
    fun other id id' h => visible_congr h, fun bindings bindings' parent id hperm hdistinct => ?_,
    fun writes writes' id hperm hdistinct => ?_, fun f name v hf g key => ⟨?_, ?_⟩,
    fun id name v hid g key => ⟨?_, lookup?_bind_of_not⟩⟩
  · refine visible_congr (lookup?_of_local?_eq (fun id => ?_) (fun id name => ?_) id)
    · have hlink : (store.newFrame bindings' parent).2.link? id =
          (store.newFrame bindings parent).2.link? id := by rw [link?_newFrame, link?_newFrame]
      exact congrArg (·.filter (· < id)) hlink
    · exact local?_newFrame_perm hperm hdistinct parent
  · refine visible_congr (lookup?_of_local?_eq (fun id => ?_) (fun id name => ?_) id)
    · rw [parent?_writeAll, parent?_writeAll]
    · exact local?_writeAll_perm hperm hdistinct
  · rintro rfl hroot hfree
    exact lookup?_bind_of_reaches (Nat.lt_of_le_of_lt (store.root_le f) hf)
      (reaches_root_iff.2 ⟨hroot, hfree⟩)
  · intro h
    refine lookup?_bind_of_not fun ⟨hkey, hreaches⟩ => h ⟨hkey, ?_⟩
    exact reaches_root_iff.1 hreaches
  · rintro rfl hreaches
    exact lookup?_bind_of_reaches hid hreaches

theorem lookup_visible_bind_agree_hidden : ∃ store : Store,
    store = ((empty.newFrame [("x", .int 1), ("y", .int 2)] none).2.newFrame
      [("x", .int 3)] (some 0)).2 ∧
    (store.bindGlobal 1 "y" (.int 5)).lookup? 1 "y" = some (.int 5) ∧
    (store.bindGlobal 1 "x" (.int 5)).lookup? 1 "x" = store.lookup? 1 "x" ∧
    (store.bindGlobal 1 "x" (.int 5)).lookup? 0 "x" = some (.int 5) ∧
    (store.bind 0 "y" (.int 5)).lookup? 1 "y" = some (.int 5) ∧
    (store.bind 0 "x" (.int 5)).lookup? 1 "x" = store.lookup? 1 "x" ∧
    (store.newFrame [("b", .int 2), ("a", .int 1)] (some 1)).2.visible 2 =
      (store.newFrame [("a", .int 1), ("b", .int 2)] (some 1)).2.visible 2 := by
  obtain ⟨store, hstore⟩ : ∃ store, store =
      ((empty.newFrame [("x", .int 1), ("y", .int 2)] none).2.newFrame
        [("x", .int 3)] (some 0)).2 := ⟨_, rfl⟩
  obtain ⟨-, -, -, hframe, -, hglobal, hbind⟩ := lookup_visible_bind_agree store
  have hsize : store.frames.size = 2 := by rw [hstore]; rfl
  have hchain : store.chain 1 = [1, 0] := by rw [hstore]; decide +kernel
  have hroots : store.root 0 = 0 ∧ store.root 1 = 0 := by rw [hstore]; decide +kernel
  have hy : store.local? 1 "y" = none := by rw [hstore]; rfl
  have hx : store.local? 1 "x" = some (.int 3) := by rw [hstore]; rfl
  have hreaches : store.Reaches 1 "y" 0 := ⟨[1], [], hchain, by simpa using hy⟩
  have hhidden : ¬ store.Reaches 1 "x" 0 := by
    intro h
    obtain h | ⟨hfree, -⟩ := reaches_iff.1 h
    · cases h
    · cases hx.symm.trans hfree
  refine ⟨store, hstore, ?_, ?_, ?_, ?_, ?_, ?_⟩
  · refine (hglobal 1 "y" (.int 5) (by simp [hsize]) 1 "y").1 rfl rfl ?_
    simpa [hchain] using hy
  · refine (hglobal 1 "x" (.int 5) (by simp [hsize]) 1 "x").2 fun ⟨_, _, hfree⟩ => ?_
    cases hx.symm.trans (hfree 1 (by simp [hchain]))
  · refine (hglobal 1 "x" (.int 5) (by simp [hsize]) 0 "x").1 rfl (hroots.1.trans hroots.2.symm) ?_
    have hroot : store.chain 0 = [0] := by rw [hstore]; decide +kernel
    simp [hroot]
  · exact (hbind 0 "y" (.int 5) (by simp [hsize]) 1 "y").1 rfl hreaches
  · exact (hbind 0 "x" (.int 5) (by simp [hsize]) 1 "x").2 fun h => hhidden h.2
  · exact hframe _ _ (some 1) 2 (List.Perm.swap _ _ _) (by decide)

end Store

end Lisplet
