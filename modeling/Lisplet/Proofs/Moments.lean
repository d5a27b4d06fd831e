import Mathlib.Logic.Relation
import Lisplet.Proofs.SessionHygiene
import Lisplet.Proofs.UpkeepStarts

/-! Moments of a session, between requests and in the course of them, whether what was begun ends or
not: a world and the closures that have been at hand up to it. Every moment has a ledger. -/
namespace Lisplet

namespace Task

def Among (F : FrameId → Prop) (S : Closure → Prop) (R : Reply → Prop) : Task → Prop
  | .expr _ frame e | .form _ frame e => F frame ∧ e.Within S
  | .exprs _ frame es | .bindings _ frame es => F frame ∧ ∀ e ∈ es, e.Within S
  | .clauses _ frame list => F frame ∧
    ∀ test e, (test, e) ∈ list → test.Within S ∧ e.Within S
  | .call f args => f.Within S ∧ ∀ v ∈ args, v.Within S
  | .builtin b args => (Value.builtin b).Within S ∧ ∀ v ∈ args, v.Within S
  | .reply r => R r

def values : Task → List Value
  | .expr _ _ e | .form _ _ e => [e]
  | .exprs _ _ es | .bindings _ _ es => es
  | .clauses _ _ list => list.flatMap fun (test, e) => [test, e]
  | .call f args => f :: args
  | .builtin b args => .builtin b :: args
  | .reply (.finish o) => outcomeValues (fun v => [v]) o
  | .reply (.call f args _) => f :: args

end Task

theorem Task.Among.mono {F F' : FrameId → Prop} {S S' : Closure → Prop} {R R' : Reply → Prop}
    {t : Task} (h : t.Among F S R) (hF : ∀ id, F id → F' id) (hS : ∀ c, S c → S' c)
    (hR : ∀ r, R r → R' r) : t.Among F' S' R' := by
  cases t with
  | expr | form => exact ⟨hF _ h.1, h.2.mono hS⟩
  | exprs | bindings => exact ⟨hF _ h.1, fun e he => (h.2 e he).mono hS⟩
  | clauses =>
    exact ⟨hF _ h.1, fun test e hmem => ⟨(h.2 test e hmem).1.mono hS, (h.2 test e hmem).2.mono hS⟩⟩
  | call | builtin => exact ⟨h.1.mono hS, fun v hv => (h.2 v hv).mono hS⟩
  | reply => exact hR _ h

theorem Custody.fits_of_among {σ : Type} {C : Custody σ} {s : σ} {t : Task}
    (h : t.Among (C.Frame s) (C.Has s) (C.Asks s)) : C.upkeep.Fits s t := by
  cases t with
  | exprs => exact fun e he => ⟨h.1, h.2 e he⟩
  | _ => exact h

theorem Custody.values_of_fits {σ : Type} {C : Custody σ} {s : σ} {t : Task}
    (h : C.upkeep.Fits s t) : ∀ v ∈ t.values, v.Within (C.Has s) := by
  cases t with
  | expr | form => exact List.forall_mem_singleton.2 h.2
  | exprs => exact fun e he => (h e he).2
  | bindings => exact h.2
  | clauses _ _ list =>
    intro v hv
    obtain ⟨⟨test, e⟩, hmem, hv⟩ := List.mem_flatMap.1 hv
    obtain ⟨htest, he⟩ := h.2 test e hmem
    exact List.forall_mem_cons.2 ⟨htest, List.forall_mem_singleton.2 he⟩ v hv
  | call | builtin => exact List.forall_mem_cons.2 h
  | reply r =>
    cases r with
    | finish o => exact C.finish h
    | call f args resume => exact List.forall_mem_cons.2 ⟨(C.call h).1, (C.call h).2.1⟩

namespace Session
open Run

def Request.Among (F : FrameId → Prop) (S : Closure → Prop) : Request → Prop
  | .call _ _ => True
  | .evaluate frame e => F frame ∧ e.Within S
  | .apply f args => f.Within S ∧ ∀ v ∈ args, v.Within S
  | .bind frame _ v => F frame ∧ v.Within S

section
variable {σ : Type} {s : σ} {w w' : World} {results : List (Except Error Value)}

theorem leads_singleton {I : Upkeep σ} {o : Except Error Value}
    (h : I.Leads s w' (outcomeValues (fun v => [v]) o)) : I.Leads s w' (resultValues [o]) := by
  rwa [resultValues, List.flatMap_singleton]

theorem Call.Settles.leads {I : Upkeep σ} {dialect : Dialect} {c : Call}
    (h : c.Settles dialect w results w') (hs : I.world s = w)
    (hcalls : ∀ c args id, I.Calls c args id) (hglobal : I.Frame s globalFrame) :
    I.Leads s w' (resultValues results) := by
  subst hs
  cases c with
  | evalText source =>
    obtain ⟨o, ⟨fuel, h⟩, rfl⟩ := h
    exact leads_singleton ((carries_evalText hcalls fuel hglobal source).leads_one h)
  | load source =>
    obtain ⟨o, ⟨fuel, h⟩, rfl⟩ := h
    exact leads_singleton ((carries_load hcalls fuel hglobal source).leads_one h)
  | run source =>
    obtain ⟨fuel, h⟩ := h
    exact (carries_run hcalls fuel hglobal source).leads h
  | loadFile path =>
    obtain ⟨o, ⟨fuel, h⟩, rfl⟩ := h
    exact leads_singleton ((carries_loadFile hcalls fuel hglobal path).leads_one h)

theorem Request.leads {C : Custody σ} {request : Request} (h : request.Settles w results w')
    (hs : C.world s = w) (hglobal : C.Frame s globalFrame)
    (hr : request.Among (C.Frame s) (C.Has s)) : C.upkeep.Leads s w' (resultValues results) := by
  have hcalls : ∀ c args id, C.upkeep.Calls c args id := fun _ _ _ => trivial
  cases request with
  | call dialect c => exact Call.Settles.leads h hs hcalls hglobal
  | evaluate frame e =>
    obtain ⟨o, h, rfl⟩ := h
    exact leads_singleton (h.bigStep.leads hs ⟨hr, fun _ => trivial⟩)
  | apply f args =>
    obtain ⟨o, h, rfl⟩ := h
    exact leads_singleton ((applyEnds_iff_bigStep.1 h).leads hs ⟨hr, fun _ => trivial⟩)
  | bind frame name v =>
    subst hs
    obtain ⟨rfl, rfl⟩ := h
    obtain ⟨s', hs', hle⟩ := C.write name hr.1 hr.2
    exact ⟨s', hs', hle, fun _ h => nomatch h⟩

end

/-- A world, and the closures that were at hand before. -/
structure Moment where
  past : Closure → Prop
  world : World

namespace Moment

/-- The closure was at hand before, or it can be found in a value that a frame binds. -/
def Known (m : Moment) (c : Closure) : Prop :=
  m.past c ∨ ∃ id name v, m.world.store.local? id name = some v ∧ v.Holds c

def HasFrame (m : Moment) (id : FrameId) : Prop := id < m.world.nextFrame

def Admits (m : Moment) (t : Task) : Prop := t.Among m.HasFrame m.Known fun r => r.Draws m.Known

/-- The moment at which these values have turned up and this is the world. -/
def after (m : Moment) (w : World) (vs : List Value) : Moment where
  past c := m.Known c ∨ ∃ v ∈ vs, v.Holds c
  world := w

/-- The host asks for something, a task comes to an end, or a task begins another one, which need
not end. Nothing is used in this but what is known. -/
inductive Next : Moment → Moment → Prop where
  | request {m : Moment} {request : Request} {results : List (Except Error Value)} {w : World}
    (hr : request.Among m.HasFrame m.Known) (hs : request.Settles m.world results w) :
    Next m (m.after w (resultValues results))
  | ends {m : Moment} {t : Task} {o : Except Error t.Result} {w : World} (ht : m.Admits t)
    (h : BigStep t m.world o w) : Next m (m.after w (t.outcome o))
  | starts {m : Moment} {t t' : Task} {w : World} (ht : m.Admits t)
    (h : Starts t m.world t' w) : Next m (m.after w t'.values)

def Later : Moment → Moment → Prop := Relation.ReflTransGen Next

def opening (first : World) : Moment where
  past _ := False
  world := first

def In (m : Moment) (first : World) : Prop := (opening first).Later m

variable {m m' : Moment} {L : Ledger} {c : Closure}

theorem Known.after (h : m.Known c) (w : World) (vs : List Value) : (m.after w vs).Known c :=
  .inl (.inl h)

theorem Known.next (hc : m.Known c) (h : m.Next m') : m'.Known c := by
  cases h <;> exact hc.after _ _

theorem Known.later (hc : m.Known c) (h : m.Later m') : m'.Known c := by
  induction h with
  | refl => exact hc
  | tail _ hnext ih => exact ih.next hnext

theorem known_after_of_mem {w : World} {vs : List Value} {v : Value} (hv : v ∈ vs) :
    v.Within (m.after w vs).Known :=
  fun _ hc => .inl (.inr ⟨v, hv, hc⟩)

theorem next_of_evalEnds {depth : Nat} {frame : FrameId} {e : Value} {o : Except Error Value}
    {w : World} (hframe : m.HasFrame frame) (he : e.Within m.Known)
    (h : EvalEnds depth frame e m.world o w) :
    m.Next (m.after w (outcomeValues (fun v => [v]) o)) :=
  .ends (t := .expr depth frame e) ⟨hframe, he⟩ h.bigStep

structure CoveredBy (m : Moment) (L : Ledger) : Prop where
  world : L.world = m.world
  has : ∀ c, m.Known c → L.Has c

namespace CoveredBy

theorem hasFrame (h : m.CoveredBy L) {id : FrameId} (hid : m.HasFrame id) :
    id < L.world.nextFrame := by
  rw [h.world]
  exact hid

theorem within (h : m.CoveredBy L) {v : Value} (hv : v.Within m.Known) : v.Within L.Has :=
  hv.mono h.has

theorem admits (h : m.CoveredBy L) {t : Task} (ht : m.Admits t) : Ledger.upkeep.Admits L t where
  fits := Custody.fits_of_among (ht.mono (fun _ => h.hasFrame) h.has fun _ hr => hr.mono h.has)
  calls _ := trivial

theorem after (h : m.CoveredBy L) {w : World} {vs : List Value}
    (hleads : Ledger.upkeep.Leads L w vs) : ∃ L', L.Later L' ∧ (m.after w vs).CoveredBy L' := by
  obtain ⟨L', rfl, hle, hvs⟩ := hleads
  refine ⟨L', hle, rfl, fun c hc => ?_⟩
  obtain (hc | ⟨v, hv, hc⟩) | ⟨id, name, v, hv, hc⟩ := hc
  · exact (h.has c hc).mono hle
  · exact hvs v hv c hc
  · exact L'.wellFormed.store.bound id name v hv c hc

theorem next (h : m.CoveredBy L) (hnext : m.Next m') : ∃ L', L.Later L' ∧ m'.CoveredBy L' := by
  cases hnext with
  | @request request _ _ hr hs =>
    refine h.after (Request.leads hs h.world L.wellFormed.store.nonempty ?_)
    cases request with
    | call => exact trivial
    | evaluate => exact ⟨h.hasFrame hr.1, h.within hr.2⟩
    | apply => exact ⟨h.within hr.1, fun v hv => h.within (hr.2 v hv)⟩
    | bind => exact ⟨h.hasFrame hr.1, h.within hr.2⟩
  | ends ht hends => exact h.after (hends.leads h.world (h.admits ht))
  | starts ht hstarts =>
    obtain ⟨L', hL', hle, ht'⟩ := hstarts.leads h.world (h.admits ht)
    exact h.after ⟨L', hL', hle, Custody.values_of_fits ht'.fits⟩

theorem later (h : m.CoveredBy L) (hlater : m.Later m') :
    ∃ L', L.Later L' ∧ m'.CoveredBy L' := by
  induction hlater with
  | refl => exact ⟨L, Ledger.upkeep.refl L, h⟩
  | tail _ hnext ih =>
    obtain ⟨L₁, h₁, hcovered⟩ := ih
    obtain ⟨L₂, h₂, hcovered⟩ := hcovered.next hnext
    exact ⟨L₂, Ledger.upkeep.trans h₁ h₂, hcovered⟩

end CoveredBy

/-- Every moment of a session has a ledger. It is empty before the first request. -/
theorem In.coveredBy {registry : Registry} (hclosed : registry.Closed) {console : Console}
    {disk : Disk} (h : m.In (start registry console disk)) : ∃ L, m.CoveredBy L := by
  have hcovered : (opening (start registry console disk)).CoveredBy
      (ledger hclosed console disk) := by
    refine ⟨rfl, fun c hc => ?_⟩
    obtain hc | ⟨id, name, v, hv, hc⟩ := hc
    · exact hc.elim
    · exact (ledger hclosed console disk).wellFormed.store.bound id name v hv c hc
  obtain ⟨L, -, hcovered⟩ := hcovered.later h
  exact ⟨L, hcovered⟩

end Moment

end Session

end Lisplet
