import Lisplet.Proofs.Batch
import Lisplet.Proofs.Calls
import Lisplet.Proofs.HygienicRuns
import Lisplet.Proofs.SessionStore

/-! Hygiene of a session over the standard registry, over every sequence of requests to it. -/
namespace Lisplet

theorem Unary.plain_name (op : Unary) : Plain op.name := by
  cases op <;> decide

theorem Binary.plain_name (op : Binary) : Plain op.name := by
  cases op with
  | compare c => cases c <;> decide
  | _ => decide

namespace Registry
variable {P : String → Value → Prop} {registry : Registry}

theorem forall_constant (h : ∀ key v, registry.get? key = some v → P key v) {name : String}
    {v : Value} (hv : P name v) :
    ∀ key u, (registry.constant name v).get? key = some u → P key u := by
  intro key u hu
  rw [get?_constant] at hu
  split at hu
  · next heq =>
    cases hu
    rwa [← heq]
  · exact h key u hu

theorem forall_foldl_constant {α : Type} (name : α → String) (value : α → Value)
    (hvalue : ∀ a, P (name a) (value a)) (all : List α)
    (h : ∀ key v, registry.get? key = some v → P key v) :
    ∀ key v, (all.foldl (fun r a => r.constant (name a) (value a)) registry).get? key = some v →
      P key v := by
  induction all generalizing registry with
  | nil => exact h
  | cons a rest ih => exact ih (forall_constant h (hvalue a))

theorem forall_standard (workingDirectory : String) (htrue : P "t" (.bool true))
    (hnil : P "nil" (.bool false)) (hpwd : P "pwd" (.string workingDirectory))
    (hunary : ∀ op : Unary, P op.name (.builtin (.unary op)))
    (hbinary : ∀ op : Binary, P op.name (.builtin (.binary op))) :
    ∀ key v, (standard workingDirectory).get? key = some v → P key v := by
  have hempty : ∀ key v, empty.get? key = some v → P key v := by
    intro key v hv
    simp [get?, empty] at hv
  refine forall_foldl_constant _ _ hbinary _ (forall_foldl_constant _ _ hunary _ ?_)
  exact forall_constant (forall_constant (forall_constant hempty htrue) hnil) hpwd

end Registry

namespace Session
open Run

/-- What comes of a call, one outcome or, of a text that is run, all of them. -/
def Call.Settles (dialect : Dialect) (w : World) (results : List (Except Error Value))
    (w' : World) : Call → Prop
  | .evalText source => ∃ o, Run.Settles (Session.evalText · dialect source) w o w' ∧ results = [o]
  | .load source => ∃ o, Run.Settles (Session.load · dialect source) w o w' ∧ results = [o]
  | .run source => Run.Settles (Session.run · dialect source) w (.ok results) w'
  | .loadFile path => ∃ o, Run.Settles (Session.loadFile · dialect path) w o w' ∧ results = [o]

/-- The session evaluates expressions that were read, and answers with what came of some of them,
with the empty list or with an error without values. -/
def Serves (dialect : Dialect) (w : World) (results : List (Except Error Value)) (w' : World) :
    Prop :=
  ∃ items os, (∀ e, Except.ok e ∈ items → Readable dialect maxReadDepth e) ∧
    Outcomes w items os w' ∧
      ∀ o ∈ results, o ∈ os ∨ o = .ok .nil ∨ ∃ e : Error, e.values = [] ∧ o = .error e

section
variable {dialect : Dialect} {source : String} {w w' : World} {o : Except Error Value}

theorem readable_of_mem_collect {tokens : List Token}
    (htokens : Token.ofSource dialect source = .ok tokens) (e : Value)
    (he : Except.ok e ∈ Reader.collect source tokens []) : Readable dialect maxReadDepth e := by
  have hreader : Reader.ofSource dialect source = .ok ⟨source, tokens, false⟩ := by
    rw [Reader.ofSource, htokens]
    rfl
  exact Reader.readable_of_mem_items hreader e he

namespace Serves

theorem error {e : Error} (h : e.values = []) : Serves dialect w [.error e] w :=
  ⟨[], [], (fun _ h => nomatch h), .nil,
    List.forall_mem_singleton.2 (.inr (.inr ⟨e, h, rfl⟩))⟩

theorem evalText (h : Run.Settles (Session.evalText · dialect source) w o w') :
    Serves dialect w [o] w' := by
  have houtcome : Outcome w (Value.parse dialect source) o w' := settles_evalItem.1 h
  refine ⟨[Value.parse dialect source], [o], fun e he => ?_, .cons houtcome .nil,
    List.forall_mem_singleton.2 (.inl (.head _))⟩
  exact Value.readable_of_parse (List.mem_singleton.1 he).symm

theorem load (h : Run.Settles (Session.load · dialect source) w o w') :
    Serves dialect w [o] w' := by
  cases htokens : Token.ofSource dialect source with
  | error e =>
    obtain ⟨fuel, h⟩ := h
    obtain ⟨rfl, rfl⟩ := (ends_of_error (run_of_error htokens fuel).2).1 h
    exact .error rfl
  | ok tokens =>
    have hitems := readable_of_mem_collect htokens
    simp only [load_of_tokens htokens] at h
    obtain ⟨vs, houtcomes, rfl⟩ | ⟨done, later, vs, e, heq, houtcomes, rfl⟩ :=
      settles_loadItems.1 h
    · refine ⟨_, _, hitems, houtcomes, List.forall_mem_singleton.2 ?_⟩
      rw [List.getLastD_eq_getLast?]
      cases hlast : vs.getLast? with
      | none => exact .inr (.inl rfl)
      | some v => exact .inl (List.mem_map.2 ⟨v, List.mem_of_getLast? hlast, rfl⟩)
    · rw [heq] at hitems
      exact ⟨_, _, fun e he => hitems e (List.mem_append_left _ he), houtcomes,
        List.forall_mem_singleton.2 (.inl (List.mem_append_right _ (.head _)))⟩

theorem run {results : List (Except Error Value)}
    (h : Run.Settles (Session.run · dialect source) w (.ok results) w') :
    Serves dialect w results w' := by
  cases htokens : Token.ofSource dialect source with
  | error e =>
    obtain ⟨fuel, h⟩ := h
    obtain ⟨hresults, rfl⟩ := (ends_of_ok (run_of_error htokens fuel).1).1 h
    cases hresults
    exact .error rfl
  | ok tokens =>
    obtain ⟨os, houtcomes, hresults⟩ := (settles_run htokens).1 h
    cases hresults
    exact ⟨_, _, readable_of_mem_collect htokens, houtcomes, fun o ho => .inl ho⟩

theorem loadFile {path : String} (h : Run.Settles (Session.loadFile · dialect path) w o w') :
    Serves dialect w [o] w' := by
  obtain ⟨fuel, h⟩ := h
  have hread : readFile path w = .ok (w.disk.read path) w := rfl
  cases hfile : w.disk.read path with
  | ok source =>
    have hrun : Session.loadFile fuel dialect path w = Session.load fuel dialect source w := by
      rw [Session.loadFile, bind_apply, hread, hfile]
    exact load ⟨fuel, (ends_congr hrun).1 h⟩
  | error fault =>
    have hrun : Session.loadFile fuel dialect path w =
        (fail (.eval (.loadFile path fault)) : Run Value) w := by
      rw [Session.loadFile, bind_apply, hread, hfile]
    obtain ⟨rfl, rfl⟩ := ends_fail.1 ((ends_congr hrun).1 h)
    exact .error rfl

end Serves

theorem Call.Settles.serves {results : List (Except Error Value)} {c : Call}
    (h : c.Settles dialect w results w') : Serves dialect w results w' := by
  cases c with
  | evalText source =>
    obtain ⟨o, h, rfl⟩ := h
    exact .evalText h
  | load source =>
    obtain ⟨o, h, rfl⟩ := h
    exact .load h
  | run source => exact .run h
  | loadFile path =>
    obtain ⟨o, h, rfl⟩ := h
    exact .loadFile h

end

/-- What the host asks for: a call of the session, an expression of its own to be evaluated, a
procedure to be called, or a name to be bound. -/
inductive Request where
  | call (dialect : Dialect) (c : Call)
  | evaluate (frame : FrameId) (e : Value)
  | apply (f : Value) (args : List Value)
  | bind (frame : FrameId) (name : String) (v : Value)

namespace Request

def Hygienic : Request → Prop
  | .call _ _ => True
  | .evaluate _ e => e.Hygienic
  | .apply f args => f.Hygienic ∧ ∀ v ∈ args, v.Hygienic
  | .bind _ name v => Plain name ∧ v.Hygienic

def Settles (w : World) (results : List (Except Error Value)) (w' : World) : Request → Prop
  | .call dialect c => c.Settles dialect w results w'
  | .evaluate frame e => ∃ o, EvalEnds 0 frame e w o w' ∧ results = [o]
  | .apply f args => ∃ o, ApplyEnds f args w o w' ∧ results = [o]
  | .bind frame name v => results = [] ∧ w' = { w with store := w.store.bind frame name v }

end Request

inductive Visits (first : World) : World → Prop where
  | start : Visits first first
  | request {w w' : World} {request : Request} {results : List (Except Error Value)}
    (h : Visits first w) (hr : request.Hygienic) (hs : request.Settles w results w') :
    Visits first w'

/-- A task that a hygienic request begins with. The expressions of a text are such tasks too, one
after the other. -/
inductive Opens : Task → Prop where
  | evaluate {frame : FrameId} {e : Value} (h : e.Hygienic) : Opens (.expr 0 frame e)
  | apply {f : Value} {args : List Value} (hf : f.Hygienic) (hargs : ∀ v ∈ args, v.Hygienic) :
    Opens (.call f args)

theorem Opens.hygienic {t : Task} (h : Opens t) (w : World) : t.Hygienic w := by
  cases h with
  | evaluate h => exact .code h
  | apply hf hargs => exact ⟨hf, hargs⟩

/-- A task that is begun in the course of a session, whether it ends or not, and the world in which
it is begun. -/
inductive Performs (first : World) : Task → World → Prop where
  | opens {t : Task} {w : World} (h : Visits first w) (ht : Opens t) : Performs first t w
  | starts {t t' : Task} {w w' : World} (h : Performs first t w) (hstarts : Starts t w t' w') :
    Performs first t' w'

/-- The frame was made for a call of a curried closure, which bound the name to the value. -/
def Borrowed (first : World) (id : FrameId) (name : String) (v : Value) : Prop :=
  ∃ t w c args, Performs first t w ∧ Enters t w c args id ∧ c.Curried ∧
    (name, v) ∈ c.params.zip args

/-- A hygienic world in which every name with a blank is borrowed. -/
structure Separate (first w : World) : Prop where
  hygienic : w.Hygienic
  borrowed : ∀ id name v, w.store.local? id name = some v → ¬ Plain name →
    Borrowed first id name v

section
variable {first w w' : World} {t : Task}

theorem Separate.traced (hw : Separate first w) (ht : Performs first t w)
    (h : Traced t w w w') : Separate first w' := by
  refine ⟨h.hygienic, fun id name v hv hname => ?_⟩
  by_cases hid : id < w.nextFrame
  · rw [h.old id name hid hname] at hv
    exact hw.borrowed id name v hv hname
  · obtain ⟨c, args, henters, hc, hmem⟩ := h.new id name v (Nat.not_lt.1 hid) hname hv
    exact ⟨t, w, c, args, ht, henters, hc, hmem⟩

theorem Performs.separate (hvisits : ∀ w, Visits first w → Separate first w)
    (h : Performs first t w) : t.Hygienic w ∧ Separate first w := by
  induction h with
  | opens h ht => exact ⟨ht.hygienic _, hvisits _ h⟩
  | starts h hstarts ih =>
    obtain ⟨htask, htraced⟩ := hstarts.traced ih.1 ih.2.hygienic
    exact ⟨htask, ih.2.traced h htraced⟩

end

structure Sound (first w : World) : Prop extends Separate first w where
  visits : Visits first w

namespace Sound
variable {first w w' : World}

theorem opens {t : Task} {o : Except Error t.Result} (hw : Sound first w) (ht : Opens t)
    (h : BigStep t w o w') (hvisits : Visits first w') :
    Sound first w' ∧ ∀ a, o = .ok a → t.Yields a := by
  obtain ⟨htraced, hyields⟩ := h.preserves (ht.hygienic w) hw.hygienic
  exact ⟨⟨hw.traced (.opens hw.visits ht) htraced, hvisits⟩, hyields⟩

theorem evaluate {frame : FrameId} {e : Value} {o : Except Error Value} (hw : Sound first w)
    (he : e.Hygienic) (h : EvalEnds 0 frame e w o w') :
    Sound first w' ∧ ∀ v, o = .ok v → v.Hygienic := by
  have hr : Request.Hygienic (.evaluate frame e) := he
  have hs : Request.Settles w [o] w' (.evaluate frame e) := ⟨o, h, rfl⟩
  exact hw.opens (.evaluate he) h.bigStep (.request hw.visits hr hs)

theorem outcome {item : Except ParseError Value} {o : Except Error Value} (hw : Sound first w)
    (hitem : ∀ e, item = .ok e → e.Hygienic) (h : Outcome w item o w') :
    Sound first w' ∧ ∀ v, o = .ok v → v.Hygienic := by
  cases h with
  | value heval => exact hw.evaluate (hitem _ rfl) heval
  | fault => exact ⟨hw, fun _ h => nomatch h⟩

theorem outcomes {items : List (Except ParseError Value)} {os : List (Except Error Value)}
    (hw : Sound first w) (hitems : ∀ e, Except.ok e ∈ items → e.Hygienic)
    (h : Outcomes w items os w') : Sound first w' ∧ ∀ v, Except.ok v ∈ os → v.Hygienic := by
  induction h with
  | nil => exact ⟨hw, fun _ h => nomatch h⟩
  | cons hitem _ ih =>
    obtain ⟨hw₁, hvalue⟩ := hw.outcome (fun e he => hitems e (he ▸ .head _)) hitem
    obtain ⟨hw', hvalues⟩ := ih hw₁ fun e he => hitems e (.tail _ he)
    refine ⟨hw', fun v hv => ?_⟩
    obtain hv | hv := List.mem_cons.1 hv
    · exact hvalue v hv.symm
    · exact hvalues v hv

theorem request {request : Request} {results : List (Except Error Value)} (hw : Sound first w)
    (hr : request.Hygienic) (hs : request.Settles w results w') :
    Sound first w' ∧ ∀ v, Except.ok v ∈ results → v.Hygienic := by
  have hsingle {o : Except Error Value} (h : Sound first w' ∧ ∀ v, o = .ok v → v.Hygienic) :
      Sound first w' ∧ ∀ v, Except.ok v ∈ [o] → v.Hygienic :=
    ⟨h.1, fun v hv => h.2 v (List.mem_singleton.1 hv).symm⟩
  cases request with
  | call dialect c =>
    obtain ⟨items, os, hitems, houtcomes, hresults⟩ := Call.Settles.serves hs
    obtain ⟨hw', hvalues⟩ := hw.outcomes (fun e he => .of_readable (hitems e he)) houtcomes
    refine ⟨hw', fun v hv => ?_⟩
    obtain hv | hv | ⟨e, -, hv⟩ := hresults _ hv
    · exact hvalues v hv
    · cases hv
      exact .list fun _ h => nomatch h
    · cases hv
  | evaluate frame e =>
    obtain ⟨o, hs, rfl⟩ := hs
    exact hsingle (hw.evaluate hr hs)
  | apply f args =>
    have hvisits := Visits.request hw.visits hr hs
    obtain ⟨o, hs, rfl⟩ := hs
    exact hsingle (hw.opens (.apply hr.1 hr.2) (applyEnds_iff_bigStep.1 hs) hvisits)
  | bind frame name v =>
    have hvisits := Visits.request hw.visits hr hs
    obtain ⟨rfl, rfl⟩ := hs
    obtain ⟨hname, hv⟩ := hr
    refine ⟨⟨⟨hw.hygienic.bindStore frame name hv, fun id key u hu hkey => ?_⟩, hvisits⟩,
      fun _ h => nomatch h⟩
    rw [Store.local?_bind, if_neg] at hu
    · exact hw.borrowed id key u hu hkey
    · rintro ⟨-, rfl, -⟩
      exact hkey hname

end Sound

theorem sound_start (workingDirectory : String) (console : Console) (disk : Disk) :
    Sound (start (.standard workingDirectory) console disk)
      (start (.standard workingDirectory) console disk) := by
  have hentries := Registry.forall_standard (P := fun name v => Plain name ∧ v.Hygienic)
    workingDirectory ⟨by decide, .bool _⟩ ⟨by decide, .bool _⟩ ⟨by decide, .string _⟩
    (fun op => ⟨op.plain_name, .unary op⟩) fun op => ⟨op.plain_name, .binary op⟩
  have hbound {id : FrameId} {name : String} {v : Value}
      (hv : (start (.standard workingDirectory) console disk).store.local? id name = some v) :
      Plain name ∧ v.Hygienic := by
    simp only [start, Store.local?_newFrame] at hv
    split at hv
    · have hmem := Store.mem_of_getElem?_ofList hv
      exact hentries name v (Std.TreeMap.mem_toList_iff_getElem?_eq_some.1 hmem)
    · simp [Store.local?, Store.empty] at hv
  exact ⟨⟨⟨fun id name v hv => (hbound hv).2, rfl⟩,
    fun id name v hv hname => absurd (hbound hv).1 hname⟩, .start⟩

theorem sound_of_visits {workingDirectory : String} {console : Console} {disk : Disk} {w : World}
    (h : Visits (start (.standard workingDirectory) console disk) w) :
    Sound (start (.standard workingDirectory) console disk) w := by
  induction h with
  | start => exact sound_start workingDirectory console disk
  | request _ hr hs ih => exact (ih.request hr hs).1

/-- What a task in this world has to do with names: its code is plain, that of special forms always
and that of applications except in the bodies of curried closures, in the frames of whose calls the
parameters are looked up. No name with a blank is defined, bound by a form or made a parameter. -/
structure Respects (t : Task) (w : World) : Prop where
  code : t.Hygienic w
  yields : ∀ o w', BigStep t w o w' → ∀ a, o = .ok a → t.Yields a
  lookup : ∀ depth frame name, t = .form depth frame (.symbol name) → ¬ Plain name →
    ∃ c, c.Curried ∧ w.Entered frame c ∧ name ∈ c.params
  operands : ∀ depth frame form operands,
    t = .form depth frame (SpecialForm.applied form operands) → ∀ e ∈ operands, e.Hygienic
  define : ∀ depth frame name e,
    t = .form depth frame (SpecialForm.define.applied [.symbol name, e]) → Plain name
  binding : ∀ depth frame name e rest,
    t = .bindings depth frame (.list [.symbol name, e] :: rest) → Plain name
  parameter : ∀ depth frame ps rest names,
    t = .form depth frame (SpecialForm.lambda.applied (ps :: rest)) → Form.params ps = .ok names →
      ∀ name ∈ names, Plain name

theorem respects_of_hygienic {t : Task} {w : World} (ht : t.Hygienic w) (hw : w.Hygienic) :
    Respects t w where
  code := ht
  yields _ _ h := (h.preserves ht hw).yields
  lookup depth frame name heq hname := by
    subst heq
    cases ht with
    | code h => exact absurd (Value.Hygienic.symbol_iff.1 h) hname
    | body hc hentered he =>
      obtain ⟨procedure, given, hcurries, -⟩ := hc
      exact nomatch he.trans hcurries.body
    | param hc hentered hmem he =>
      cases he
      exact ⟨_, hc, hentered, hmem⟩
  operands depth frame form operands heq := by
    subst heq
    exact World.Admits.operands ht
  define depth frame name e heq := by
    subst heq
    exact Value.Hygienic.symbol_iff.1 (World.Admits.operands ht _ (.head _))
  binding depth frame name e rest heq := by
    subst heq
    exact Value.Hygienic.symbol_iff.1 (ht _ (.head _)).of_pair.1
  parameter depth frame ps rest names heq hparams := by
    subst heq
    exact Form.plain_of_params (World.Admits.operands ht _ (.head _)) hparams

/-- In a session over the standard registry the names that `curry` makes up meet no others: not
between requests, not in what comes of them, and at no time while one of them is served. -/
theorem keeps_names_apart (workingDirectory : String) (console : Console) (disk : Disk) :
    let first := start (.standard workingDirectory) console disk
    (∀ w, Visits first w → Separate first w ∧
      ∀ (request : Request) (results : List (Except Error Value)) (w' : World),
        request.Hygienic → request.Settles w results w' →
          ∀ v, Except.ok v ∈ results → v.Hygienic) ∧
    ∀ t w, Performs first t w → Separate first w ∧ Respects t w := by
  constructor
  · intro w hvisits
    have hw := sound_of_visits hvisits
    exact ⟨hw.toSeparate, fun request results w' hr hs => (hw.request hr hs).2⟩
  · intro t w hperforms
    obtain ⟨ht, hw⟩ := hperforms.separate fun w h => (sound_of_visits h).toSeparate
    exact ⟨hw, respects_of_hygienic ht hw.hygienic⟩

theorem keeps_names_apart_addition : ∃ first w w' c,
    first = start (.standard "/") ⟨[], ""⟩ .empty ∧
    (Request.call {} (.evalText "(curry (+ 1))")).Settles first [.ok (.closure c)] w ∧
    (Value.closure c).Hygienic ∧ Performs first (.call (.closure c) [.int 2]) w ∧
    Performs first (.form 1 1 (.symbol "curried arg 0")) w' ∧
    Borrowed first 1 "curried arg 0" (.int 2) ∧ ∃ c', c'.Curried ∧ w'.Entered 1 c' := by
  obtain ⟨first, hfirst⟩ : ∃ first, first = start (.standard "/") ⟨[], ""⟩ .empty := ⟨_, rfl⟩
  have hplus : first.store.lookup? globalFrame "+" = some (.builtin (.binary .add)) := by
    rw [hfirst, Store.lookup?]
    rfl
  have hnext : first.newClosure.nextFrame = 1 := by
    rw [hfirst]
    rfl
  have hdepth : first.newClosure.hostDepth = 0 := by
    rw [hfirst]
    rfl
  have htokens : Token.ofSource {} "(curry (+ 1))" = .ok [⟨.opening, 0⟩, ⟨.atom "curry", 1⟩,
      ⟨.opening, 7⟩, ⟨.atom "+", 8⟩, ⟨.atom "1", 10⟩, ⟨.closing, 11⟩, ⟨.closing, 12⟩] := by
    decide +kernel
  have hparse : Value.parse {} "(curry (+ 1))" =
      .ok (SpecialForm.curry.applied [.list [.symbol "+", .int 1]]) :=
    Value.parse_eq_ok_iff.2 ⟨_, htokens, rfl⟩
  obtain ⟨c, hc⟩ : ∃ c : Closure, c = ⟨first.store.closures, ["curried arg 0"],
    .list [.builtin (.binary .add), .int 1, .symbol "curried arg 0"], globalFrame, none⟩ :=
      ⟨_, rfl⟩
  have hcurry : BigStep (.expr 0 globalFrame (SpecialForm.curry.applied
      [.list [.symbol "+", .int 1]])) first (.ok (.closure c)) first.newClosure := by
    rw [hc]
    exact .within (by decide) (.curry (.within (by decide) (.symbol hplus)) rfl (by decide) rfl)
  have hsettles : (Request.call {} (.evalText "(curry (+ 1))")).Settles first [.ok (.closure c)]
      first.newClosure := by
    refine ⟨.ok (.closure c), settles_evalItem.2 ?_, rfl⟩
    rw [hparse]
    exact .value (BigStep.evalEnds hcurry)
  have hrequest : (Request.call {} (.evalText "(curry (+ 1))")).Hygienic := trivial
  obtain ⟨hvisited, hperformed⟩ := keeps_names_apart "/" ⟨[], ""⟩ .empty
  rw [← hfirst] at hvisited hperformed
  have hclosure : (Value.closure c).Hygienic :=
    (hvisited first .start).2 _ _ _ hrequest hsettles _ (.head _)
  have hcall : Performs first (.call (.closure c) [.int 2]) first.newClosure :=
    .opens (.request .start hrequest hsettles)
      (.apply hclosure (List.forall_mem_singleton.2 (.number (.int 2))))
  have hbody : Performs first (.form 0 1 c.body)
      (first.newClosure.newFrame (c.params.zip [.int 2]) c.frame) := by
    have hbegun := hcall.starts (.callClosure (by rw [hc]; rfl))
    rw [hdepth, hnext] at hbegun
    exact hbegun.starts (.within (by decide))
  rw [hc] at hbody
  have hoperands := hbody.starts (.operands rfl (BigStep.expr_procedure (by decide) rfl).2)
  have hlast := hoperands.starts (.exprsRest (.expr_int (by decide) 1))
  have hparameter := (hlast.starts .exprsFirst).starts (.within (by decide))
  have hmem : "curried arg 0" ∈ Form.curriedParams 1 := .head _
  have hblank := Form.not_plain_of_mem_curriedParams hmem
  obtain ⟨hseparate, hrespects⟩ := hperformed _ _ hparameter
  obtain ⟨c', hc', hentered, -⟩ := hrespects.lookup _ _ _ rfl hblank
  refine ⟨first, _, _, c, hfirst, hsettles, hclosure, hcall, hparameter, ?_, c', hc', hentered⟩
  refine hseparate.borrowed 1 _ _ ?_ hblank
  rw [World.local?_newFrame, if_pos hnext.symm]
  rfl

end Session

end Lisplet
