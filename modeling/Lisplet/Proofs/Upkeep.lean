import Lisplet.Proofs.Activations
import Lisplet.Proofs.Names

/-! What is kept up along every run. A stage is a world with what is known about it. The laws say
what each single change of a world keeps up; that tasks keep it up, whatever comes of them, follows
from the laws alone. -/
namespace Lisplet

def outcomeValues {α : Type} (of : α → List Value) : Except Error α → List Value
  | .ok a => of a
  | .error e => e.values

namespace Task

def results : (t : Task) → t.Result → List Value
  | .expr _ _ _, v | .form _ _ _, v | .call _ _, v | .builtin _ _, v | .reply _, v => [v]
  | .exprs _ _ _, vs => vs
  | .clauses _ _ _, chosen => chosen.toList
  | .bindings _ _ _, _ => []

def outcome (t : Task) (o : Except Error t.Result) : List Value := outcomeValues t.results o

end Task

/-- Stages of runs, what is kept track of at each, and the laws of its upkeep. -/
structure Upkeep (σ : Type) where
  world : σ → World
  /-- The second stage can come after the first. -/
  Later : σ → σ → Prop
  /-- Frames in which code can be evaluated. -/
  Frame : σ → FrameId → Prop
  /-- Frames that were made for a `let`. -/
  Inner : σ → FrameId → Prop
  /-- Values that can be at hand. -/
  Has : σ → Value → Prop
  /-- Expressions that can come to be evaluated in the frame. -/
  Code : σ → FrameId → Value → Prop
  /-- Replies of the operations of the host. -/
  Asks : σ → Reply → Prop
  /-- Calls of closures, with the frames that are made for them. -/
  Calls : Closure → List Value → FrameId → Prop
  refl : ∀ s, Later s s
  trans : ∀ {s s₁ s'}, Later s s₁ → Later s₁ s' → Later s s'
  frame_mono : ∀ {s s' id}, Later s s' → Frame s id → Frame s' id
  inner_mono : ∀ {s s' id}, Later s s' → Inner s id → Inner s' id
  has_mono : ∀ {s s' v}, Later s s' → Has s v → Has s' v
  code_mono : ∀ {s s' frame e}, Later s s' → Code s frame e → Code s' frame e
  hereditary : ∀ s, Value.Hereditary (Has s)
  frame_of_inner : ∀ {s id}, Inner s id → Frame s id
  code_of_has : ∀ {s frame e}, Frame s frame → Has s e → Code s frame e
  code_form_iff : ∀ {s frame} {form : SpecialForm} {operands},
    Code s frame (form.applied operands) ↔ Frame s frame ∧ ∀ e ∈ operands, Has s e
  code_application : ∀ {s frame f operands}, Code s frame (.list (f :: operands)) →
    Code s frame f ∧ ∀ e ∈ operands, Code s frame e
  has_self : ∀ {s frame e}, Code s frame e → (∀ name, e ≠ .symbol name) →
    (∀ items, e ≠ .list items) → Has s e
  lookup : ∀ {s frame name v}, Code s frame (.symbol name) →
    (world s).store.lookup? frame name = some v → Has s v
  keep : ∀ {s w}, w.store = (world s).store → w.host = (world s).host →
    ∃ s', world s' = w ∧ Later s s'
  newFrame : ∀ {s frame}, Frame s frame → ∃ s', world s' = (world s).newFrame [] frame ∧
    Later s s' ∧ Inner s' (world s).nextFrame
  enter : ∀ {s c args}, Has s (.closure c) → (∀ v ∈ args, Has s v) →
    c.params.length = args.length → Calls c args (world s).nextFrame →
      ∃ s', world s' = (world s).newFrame (c.params.zip args) c.frame ∧ Later s s' ∧
        Code s' (world s).nextFrame c.body
  lambda : ∀ {s frame ps names body help}, Frame s frame → Has s ps →
    Form.params ps = .ok names → Has s body → (∀ v, help = some v → Has s v) →
      ∃ s', world s' = (world s).newClosure ∧ Later s s' ∧
        Has s' ((world s).closure names body frame help)
  curry : ∀ {s frame procedure given n names}, Frame s frame → Has s procedure →
    (∀ e ∈ given, Has s e) → procedure.arity? = some n → given.length ≤ n →
    names = Form.curriedParams (n - given.length) →
      ∃ s', world s' = (world s).newClosure ∧ Later s s' ∧
        Has s' ((world s).closure names (.list (procedure :: given ++ names.map .symbol)) frame
          none)
  define : ∀ {s frame name v}, Frame s frame → Has s (.symbol name) → Has s v →
    ∃ s', world s' = (world s).define frame name v ∧ Later s s'
  bind : ∀ {s frame name v}, Inner s frame → Has s (.symbol name) → Has s v →
    ∃ s', world s' = (world s).bind frame name v ∧ Later s s'
  host : ∀ {s} {slot : Nat} {operation args}, (world s).host[slot]? = some operation →
    (∀ v ∈ args, Has s v) → Asks s (operation args)
  finish : ∀ {s o}, Asks s (.finish o) → ∀ v ∈ outcomeValues (fun v => [v]) o, Has s v
  call : ∀ {s f args resume}, Asks s (.call f args resume) →
    Has s f ∧ (∀ v ∈ args, Has s v) ∧ ∀ s' result, Later s s' →
      (∀ v ∈ outcomeValues (fun v => [v]) result, Has s' v) → Asks s' (resume result)

namespace Upkeep
variable {σ : Type} (I : Upkeep σ) {s s' : σ}

def Fits (s : σ) : Task → Prop
  | .expr _ frame e | .form _ frame e => I.Code s frame e
  | .exprs _ frame es => ∀ e ∈ es, I.Code s frame e
  | .clauses _ frame list =>
    I.Frame s frame ∧ ∀ test e, (test, e) ∈ list → I.Has s test ∧ I.Has s e
  | .bindings _ frame list => I.Inner s frame ∧ ∀ e ∈ list, I.Has s e
  | .call f args => I.Has s f ∧ ∀ v ∈ args, I.Has s v
  | .builtin b args => I.Has s (.builtin b) ∧ ∀ v ∈ args, I.Has s v
  | .reply r => I.Asks s r

structure Admits (s : σ) (t : Task) : Prop where
  fits : I.Fits s t
  calls : ∀ {c args id}, Enters t (I.world s) c args id → I.Calls c args id

/-- A later stage has this world, and these values can be at hand there. -/
def Leads (s : σ) (w' : World) (vs : List Value) : Prop :=
  ∃ s', I.world s' = w' ∧ I.Later s s' ∧ ∀ v ∈ vs, I.Has s' v

variable {I}

theorem all_mono (h : I.Later s s') {vs : List Value} (hvs : ∀ v ∈ vs, I.Has s v) :
    ∀ v ∈ vs, I.Has s' v :=
  fun v hv => I.has_mono h (hvs v hv)

theorem codes_mono (h : I.Later s s') {frame : FrameId} {es : List Value}
    (hes : ∀ e ∈ es, I.Code s frame e) : ∀ e ∈ es, I.Code s' frame e :=
  fun e he => I.code_mono h (hes e he)

theorem clauses_mono (h : I.Later s s') {clauses : List (Value × Value)}
    (hclauses : ∀ test e, (test, e) ∈ clauses → I.Has s test ∧ I.Has s e) :
    ∀ test e, (test, e) ∈ clauses → I.Has s' test ∧ I.Has s' e :=
  fun test e hmem =>
    ⟨I.has_mono h (hclauses test e hmem).1, I.has_mono h (hclauses test e hmem).2⟩

theorem has_list {items : List Value} : I.Has s (.list items) ↔ ∀ v ∈ items, I.Has s v :=
  (I.hereditary s).list_iff

theorem print (s : σ) (v : Value) : ∃ s', I.world s' = (I.world s).print v ∧ I.Later s s' := by
  cases v <;> exact I.keep rfl rfl

theorem atHostDepth (s : σ) (depth : Nat) :
    ∃ s', I.world s' = (I.world s).atHostDepth depth ∧ I.Later s s' :=
  I.keep rfl rfl

namespace Leads

theorem refl {vs : List Value} (h : ∀ v ∈ vs, I.Has s v) : I.Leads s (I.world s) vs :=
  ⟨s, rfl, I.refl s, h⟩

theorem trans {w' : World} {vs : List Value} (hle : I.Later s s') (h : I.Leads s' w' vs) :
    I.Leads s w' vs := by
  obtain ⟨s₁, hs₁, h₁, hvs⟩ := h
  exact ⟨s₁, hs₁, I.trans hle h₁, hvs⟩

theorem atHostDepth {w' : World} {vs : List Value} (h : I.Leads s w' vs) (depth : Nat) :
    I.Leads s (w'.atHostDepth depth) vs := by
  obtain ⟨s₁, rfl, h₁, hvs⟩ := h
  obtain ⟨s₂, hs₂, h₂⟩ := Upkeep.atHostDepth s₁ depth
  exact ⟨s₂, hs₂, I.trans h₁ h₂, all_mono h₂ hvs⟩

theorem of_spares {m : Run Value} (h : m.Spares (I.Has s)) {o : Except Error Value} {w' : World}
    (hends : m.Ends (I.world s) o w') : I.Leads s w' (outcomeValues (fun v => [v]) o) := by
  obtain ⟨hstore, hhost, hyields, herror⟩ := h _ _ _ hends
  obtain ⟨s', hs', hle⟩ := I.keep hstore hhost
  refine ⟨s', hs', hle, ?_⟩
  cases o with
  | ok v => exact List.forall_mem_singleton.2 (I.has_mono hle (hyields v rfl))
  | error e =>
    intro v hv
    rw [outcomeValues, herror e rfl] at hv
    cases hv

end Leads

/-! What a task begins it can be begun with. -/
namespace Admits
variable {t t' : Task} {w' : World} {depth : Nat} {frame : FrameId} {form : SpecialForm}
  {operands : List Value} {e : Value}

/-- What is begun on the way can be begun if it fits, since its calls are calls of the whole. -/
theorem step (h : I.Admits s t) (hstarts : Starts t (I.world s) t' w') (hs' : I.world s' = w')
    (hfits : I.Fits s' t') : I.Admits s' t' where
  fits := hfits
  calls henters := h.calls (.later hstarts (hs' ▸ henters))

theorem here (h : I.Admits s t) (hstarts : Starts t (I.world s) t' (I.world s))
    (hfits : I.Fits s t') : I.Admits s t' :=
  h.step hstarts rfl hfits

section
variable (h : I.Admits s (.form depth frame (form.applied operands)))
include h

theorem inFrame : I.Frame s frame := (I.code_form_iff.1 h.fits).1

theorem has (he : e ∈ operands) : I.Has s e := (I.code_form_iff.1 h.fits).2 e he

theorem operand (hle : I.Later s s') (he : e ∈ operands) : I.Code s' frame e :=
  I.code_of_has (I.frame_mono hle h.inFrame) (I.has_mono hle (h.has he))

end

theorem clauses {list : List (Value × Value)}
    (h : I.Admits s (.form depth frame (SpecialForm.cond.applied (SpecialForm.clauseList list)))) :
    ∀ test e, (test, e) ∈ list → I.Has s test ∧ I.Has s e := by
  intro test e hmem
  have hpair := has_list.1 (h.has (List.mem_map.2 ⟨_, hmem, rfl⟩))
  exact ⟨hpair _ (.head _), hpair _ (.tail _ (.head _))⟩

theorem curried {f : Value} {given : List Value}
    (h : I.Admits s (.form depth frame (SpecialForm.curry.applied [.list (f :: given)]))) :
    I.Has s f ∧ ∀ e ∈ given, I.Has s e :=
  List.forall_mem_cons.1 (has_list.1 (h.has (.head _)))

theorem beginRest {rest : List Value} (hle : I.Later s s')
    (h : I.Admits s (.form depth frame (SpecialForm.begin.applied (e :: rest)))) :
    I.Code s' frame (SpecialForm.begin.applied rest) :=
  I.code_form_iff.2 ⟨I.frame_mono hle h.inFrame, fun _ he => I.has_mono hle (h.has (.tail _ he))⟩

section
variable {bindings : List Value} {body : Value}
  (hparts : Form.letParts? operands = some (bindings, body))
  (h : I.Admits s (.form depth frame (SpecialForm.letIn.applied operands)))
include hparts h

theorem letParts : (∀ v ∈ bindings, I.Has s v) ∧ I.Has s body := by
  obtain ⟨name, e, rfl, rfl⟩ | rfl := Form.letParts?_eq_some_iff.1 hparts
  · obtain ⟨hname, hrest⟩ := List.forall_mem_cons.1 fun v hv => h.has hv
    obtain ⟨he, hbody⟩ := List.forall_mem_cons.1 hrest
    have hpair := List.forall_mem_cons.2 ⟨hname, List.forall_mem_singleton.2 he⟩
    exact ⟨List.forall_mem_singleton.2 (has_list.2 hpair), List.forall_mem_singleton.1 hbody⟩
  · exact ⟨has_list.1 (h.has (.head _)), h.has (.tail _ (.head _))⟩

theorem letBindings : ∃ s', I.world s' = (I.world s).newFrame [] frame ∧ I.Later s s' ∧
    I.Fits s' (.bindings depth (I.world s).nextFrame bindings) := by
  obtain ⟨s', hs', hle, hinner⟩ := I.newFrame h.inFrame
  exact ⟨s', hs', hle, hinner, all_mono hle (h.letParts hparts).1⟩

theorem letBody {inner : FrameId} (hle : I.Later s s') (hinner : I.Inner s' inner) :
    I.Code s' inner body :=
  I.code_of_has (I.frame_of_inner hinner) (I.has_mono hle (h.letParts hparts).2)

end

theorem application {f : Value} (h : I.Admits s (.form depth frame (.list (f :: operands)))) :
    I.Code s frame f ∧ ∀ e ∈ operands, I.Code s frame e :=
  I.code_application h.fits

theorem binding {name : String} {rest : List Value}
    (h : I.Admits s (.bindings depth frame (.list [.symbol name, e] :: rest))) :
    I.Has s (.symbol name) ∧ I.Has s e ∧ ∀ v ∈ rest, I.Has s v := by
  obtain ⟨hbinding, hrest⟩ := List.forall_mem_cons.1 h.fits.2
  have hpair := has_list.1 hbinding
  exact ⟨hpair _ (.head _), hpair _ (.tail _ (.head _)), hrest⟩

end Admits

end Upkeep

end Lisplet
