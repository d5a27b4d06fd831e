import Lisplet.Proofs.Batch
import Lisplet.Proofs.Ledger

/-! The store of a session, over every sequence of calls to it. -/
namespace Lisplet

/-- No entry of the registry holds a closure, and no operation brings any. -/
structure Registry.Closed (registry : Registry) : Prop where
  entries : ∀ (name : String) (v : Value), registry.get? name = some v → v.Within fun _ => False
  operations : ∀ (slot : Nat) (operation : HostOperation),
    registry.operations[slot]? = some operation → operation.Draws

namespace Registry
variable {registry : Registry} {name : String} {v : Value}

theorem Closed.constant (h : registry.Closed) (hv : v.Within fun _ => False) :
    (registry.constant name v).Closed where
  entries key u hu := by
    rw [get?_constant] at hu
    split at hu
    · cases hu
      exact hv
    · exact h.entries key u hu
  operations := h.operations

theorem Closed.foldl_constant {α : Type} (key : α → String) (value : α → Value)
    (hvalue : ∀ a, (value a).Within fun _ => False) (all : List α) (h : registry.Closed) :
    (all.foldl (fun r a => r.constant (key a) (value a)) registry).Closed := by
  induction all generalizing registry with
  | nil => exact h
  | cons a rest ih => exact ih (h.constant (hvalue a))

theorem closed_empty : empty.Closed where
  entries key v hv := by simp [get?, empty] at hv
  operations slot operation h := by simp [empty] at h

theorem closed_standard (workingDirectory : String) : (standard workingDirectory).Closed := by
  refine Closed.foldl_constant _ _ (fun op => ?_) _ ?_
  · exact fun _ h => nomatch h
  refine Closed.foldl_constant _ _ (fun op => ?_) _ ?_
  · exact fun _ h => nomatch h
  exact ((closed_empty.constant (.bool true)).constant (.bool false)).constant (.string _)

end Registry

namespace Session
open Run

abbrev Any : Closure → Prop := fun _ => True

theorem wellFormed_start {P : Closure → Prop} {registry : Registry} (h : registry.Closed)
    (console : Console) (disk : Disk) : (start registry console disk).WellFormed P where
  store := by
    have hlink (id : FrameId) : (Store.empty.newFrame registry.toList none).2.link? id = none := by
      rw [Store.link?_newFrame]
      split <;> rfl
    refine ⟨by simp [start, Store.newFrame], fun id p hp => ?_, fun id hid hzero => ?_,
      fun id name v hv => ?_⟩
    · simp only [start, hlink] at hp
      cases hp
    · simp only [start, Store.newFrame, Store.empty, List.push_toArray, List.nil_append,
        List.size_toArray, List.length_singleton] at hid
      exact absurd (Nat.lt_one_iff.1 hid) hzero
    · simp only [start, Store.local?_newFrame] at hv
      split at hv
      · have hmem := Store.mem_of_getElem?_ofList hv
        have hentry := Std.TreeMap.mem_toList_iff_getElem?_eq_some.1 hmem
        exact (h.entries name v hentry).mono fun _ hc => hc.elim
      · simp [Store.local?, Store.empty] at hv
  host := h.operations

inductive Call where
  | evalText (source : String)
  | load (source : String)
  | run (source : String)
  | loadFile (path : String)

/-- The world that a call leaves, whether it succeeds, fails or is cut off for want of fuel. -/
def Call.world (fuel : Nat) (dialect : Dialect) (w : World) : Call → World
  | .evalText source => after (Session.evalText fuel dialect source w)
  | .load source => after (Session.load fuel dialect source w)
  | .run source => after (Session.run fuel dialect source w)
  | .loadFile path => after (Session.loadFile fuel dialect path w)

inductive Leads : World → World → Prop where
  | refl (w : World) : Leads w w
  | call {w w' : World} (h : Leads w w') (fuel : Nat) (dialect : Dialect) (call : Call) :
    Leads w (call.world fuel dialect w')

theorem Leads.trans {w w₁ w' : World} (h : Leads w w₁) (h' : Leads w₁ w') : Leads w w' := by
  induction h' with
  | refl => exact h
  | call _ fuel dialect call ih => exact ih.call fuel dialect call

def resultValues (results : List (Except Error Value)) : List Value :=
  results.flatMap (outcomeValues fun v => [v])

/-! Whatever a session is asked to do is kept up. -/
section
variable {σ : Type} {I : Upkeep σ} {s : σ} (hcalls : ∀ c args id, I.Calls c args id) (fuel : Nat)
  (hglobal : I.Frame s globalFrame) {dialect : Dialect}
include hcalls hglobal

theorem carries_evalGlobal {e : Value} (he : I.Has s e) :
    I.Carries s (evalGlobal fuel e) I.Has :=
  (I.sustains fuel).expr ⟨I.code_of_has hglobal he, fun _ => hcalls _ _ _⟩

theorem carries_evalText (source : String) :
    I.Carries s (Session.evalText fuel dialect source) I.Has :=
  .parsed_bind fun _ he => carries_evalGlobal hcalls fuel hglobal ((I.hereditary s).parsed he)

theorem carries_evalItem {item : Except ParseError Value}
    (hitem : ∀ e, item = .ok e → Readable dialect maxReadDepth e) :
    I.Carries s (evalItem fuel item) I.Has :=
  .parsed_bind fun e he => carries_evalGlobal hcalls fuel hglobal
    ((I.hereditary s).readable (hitem e he))

section
variable {items : List (Except ParseError Value)}
  (hitems : ∀ e, .ok e ∈ items → Readable dialect maxReadDepth e)
include hitems

theorem carries_loadItems {last : Value} (hlast : I.Has s last) :
    I.Carries s (loadItems fuel items last) I.Has := by
  induction items generalizing s last with
  | nil => exact .pure hlast
  | cons item items ih =>
    rw [loadItems_cons]
    refine .bind (carries_evalItem hcalls fuel hglobal fun e he => hitems e (he ▸ .head _))
      fun v s₁ _ h₁ hv => ?_
    exact ih (I.frame_mono h₁ hglobal) (fun e he => hitems e (.tail _ he)) hv

theorem carries_runItems {passed : List (Except Error Value)}
    (hpassed : ∀ v ∈ resultValues passed, I.Has s v) :
    I.Carries s (runItems fuel items passed)
      fun s' results => ∀ v ∈ resultValues results, I.Has s' v := by
  induction items generalizing s passed with
  | nil =>
    refine .pure fun v hv => hpassed v ?_
    simpa [resultValues] using hv
  | cons item items ih =>
    rw [runItems_cons]
    refine .attempt_bind (carries_evalItem hcalls fuel hglobal fun e he => hitems e (he ▸ .head _))
      fun result s₁ _ h₁ hresult => ?_
    refine ih (I.frame_mono h₁ hglobal) (fun e he => hitems e (.tail _ he)) ?_
    rw [resultValues, List.flatMap_cons]
    exact List.forall_mem_append.2 ⟨hresult, Upkeep.all_mono h₁ hpassed⟩

end

theorem carries_load (source : String) : I.Carries s (Session.load fuel dialect source) I.Has :=
  .parsed_bind fun _ hreader => carries_loadItems hcalls fuel hglobal
    (Reader.readable_of_mem_items hreader) (Upkeep.has_list.2 fun _ h => nomatch h)

theorem carries_run (source : String) : I.Carries s (Session.run fuel dialect source)
    fun s' results => ∀ v ∈ resultValues results, I.Has s' v := by
  unfold Session.run
  split
  · next reader hreader =>
    exact carries_runItems hcalls fuel hglobal (Reader.readable_of_mem_items hreader)
      fun _ h => nomatch h
  · exact .pure fun _ h => nomatch h

theorem carries_loadFile (path : String) :
    I.Carries s (Session.loadFile fuel dialect path) I.Has := by
  have hread : readFile path (I.world s) = .ok ((I.world s).disk.read path) (I.world s) := rfl
  refine .of_ok_bind hread rfl (I.refl s) ?_
  cases (I.world s).disk.read path with
  | ok source => exact carries_load hcalls fuel hglobal source
  | error fault => exact .fail fun _ h => nomatch h

theorem Call.later (dialect : Dialect) (call : Call) :
    ∃ s', I.world s' = call.world fuel dialect (I.world s) ∧ I.Later s s' := by
  cases call with
  | evalText source => exact (carries_evalText hcalls fuel hglobal source).later
  | load source => exact (carries_load hcalls fuel hglobal source).later
  | run source => exact (carries_run hcalls fuel hglobal source).later
  | loadFile path => exact (carries_loadFile hcalls fuel hglobal path).later

omit fuel in
theorem Leads.later {w w' : World} (h : Leads w w') (hs : I.world s = w) :
    ∃ s', I.world s' = w' ∧ I.Later s s' := by
  induction h with
  | refl => exact ⟨s, hs, I.refl s⟩
  | call _ fuel dialect call ih =>
    obtain ⟨s₁, rfl, h₁⟩ := ih
    obtain ⟨s₂, hs₂, h₂⟩ := call.later hcalls fuel (I.frame_mono h₁ hglobal) dialect
    exact ⟨s₂, hs₂, I.trans h₁ h₂⟩

end

section
variable {registry : Registry} (hclosed : registry.Closed) (console : Console) (disk : Disk)

def ledger : Ledger where
  closures := []
  world := start registry console disk
  wellFormed := wellFormed_start hclosed console disk
  length_eq := rfl
  nodup _ h := nomatch h

end

section
variable {registry : Registry} (hclosed : registry.Closed) {console : Console} {disk : Disk}
  {w w' : World}

theorem Leads.ledger (h : Leads w w') {L : Ledger} (hL : L.world = w) :
    ∃ L' : Ledger, L'.world = w' ∧ L.Later L' :=
  h.later (I := Ledger.upkeep) (fun _ _ _ => trivial) L.wellFormed.store.nonempty hL

include hclosed

theorem wellFormed_of_leads (h : Leads (start registry console disk) w) : w.WellFormed Any := by
  obtain ⟨L, rfl, -⟩ := h.ledger (L := Session.ledger hclosed console disk) rfl
  exact ⟨L.wellFormed.store.mono fun _ _ => trivial, L.wellFormed.host⟩

theorem host_of_leads (h : Leads (start registry console disk) w) :
    w.host = registry.operations := by
  obtain ⟨L, rfl, hle⟩ := h.ledger (L := Session.ledger hclosed console disk) rfl
  exact hle.host

end

/-- In every state of a session a frame is linked to an older one, and the links lead to the global
frame; names are looked up along them. Closures that a frame's bindings hold were made in frames of
the session. From one state of the session to a later one frames keep their links and their names
stay bound. -/
theorem store_of_leads {registry : Registry} (hclosed : registry.Closed) {console : Console}
    {disk : Disk} {w w' : World} (h : Leads (start registry console disk) w) (h' : Leads w w') :
    (∀ id p, w'.store.link? id = some p → p < id) ∧
    (∀ id < w'.store.frames.size, ∃ ids, w'.store.Path id ids ∧ ids.Pairwise (· > ·) ∧
      ids.getLast? = some globalFrame ∧ w'.store.root id = globalFrame ∧
      w'.store.depth id = ids.length ∧
      ∀ name, w'.store.lookup? id name = ids.findSome? fun other => w'.store.local? other name) ∧
    (∀ id name v c, w'.store.local? id name = some v → v.Holds c →
      c.frame < w'.store.frames.size) ∧
    w.store.Extends w'.store := by
  obtain ⟨L, rfl, -⟩ := h.ledger (L := ledger hclosed console disk) rfl
  obtain ⟨L', rfl, hle⟩ := h'.ledger rfl
  have hstore := L'.wellFormed.store
  refine ⟨hstore.link_lt, fun id hid => ?_, fun id name v c hv hc => ?_, hle.store⟩
  · obtain ⟨ids, hpath, hlast⟩ := hstore.path id hid
    have hroot := Option.some.inj ((hstore.getLast?_path hpath).symm.trans hlast)
    have hdepth := hstore.depthFrom_eq hpath 0
    rw [Nat.zero_add] at hdepth
    exact ⟨ids, hpath, hstore.pairwise_path hpath, hlast, hroot, hdepth, hstore.lookup?_eq hpath⟩
  · exact (hstore.bound id name v hv c hc).1

theorem store_of_leads_let : ∃ w w' c, Leads (start (.standard "/") ⟨[], ""⟩ .empty) w ∧
    Leads w w' ∧ w.store.local? globalFrame "f" = some (.closure c) ∧ c.frame = 1 ∧
    c.frame < w'.store.frames.size ∧ w'.store.root c.frame = globalFrame ∧
    w.store.Extends w'.store := by
  have hrefl := Leads.refl (start (.standard "/") ⟨[], ""⟩ .empty)
  have h := hrefl.call 100 {} (.evalText "(define f (let g (lambda (n) (g n)) g))")
  have hcaptured : ((Call.world 100 {} (start (.standard "/") ⟨[], ""⟩ .empty)
      (.evalText "(define f (let g (lambda (n) (g n)) g))")).store.local? globalFrame "f").any
        (fun v => v.captured? == some 1) = true := by
    decide +kernel
  generalize Call.world 100 {} _ _ = w at h hcaptured
  have h' := ((Leads.refl w).call 100 {} (.load "(f 1")).call 100 {} (.run "(head 'f) (f 1)")
  obtain ⟨v, hv, hframe⟩ := (Option.any_eq_true _ _).1 hcaptured
  cases v with
  | closure c =>
    obtain ⟨-, -, hmade, -⟩ := store_of_leads (Registry.closed_standard "/") h (.refl w)
    obtain ⟨-, hpaths, -, hextends⟩ := store_of_leads (Registry.closed_standard "/") h h'
    have hlt := Nat.lt_of_lt_of_le (hmade _ _ _ c hv .self) hextends.size_le
    obtain ⟨_, _, _, _, hroot, -⟩ := hpaths c.frame hlt
    exact ⟨w, _, c, h, h', hv, by simpa [Value.captured?] using hframe, hlt, hroot, hextends⟩
  | _ => cases hframe

end Session

end Lisplet
