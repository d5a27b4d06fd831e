import Lisplet.Proofs.Activations
import Lisplet.Proofs.Names

/-! What `curry` makes up stays where `curry` put it. In a hygienic world a run binds a name with a
blank only where a curried closure is called, in the frame of that call, and looks such a name up
only for the arguments at the end of the closure's body. -/
namespace Lisplet

theorem Store.exists_local?_of_lookup? {store : Store} {id : FrameId} {name : String} {v : Value}
    (h : store.lookup? id name = some v) : ∃ other, store.local? other name = some v := by
  fun_induction store.lookup? id name with
  | case1 id u hlocal =>
    cases h
    exact ⟨id, hlocal⟩
  | case2 id hlocal parent hparent ih => exact ih h
  | case3 => cases h

namespace World

/-- Every value that is bound is hygienic, and the host has no operations of its own. -/
structure Hygienic (w : World) : Prop where
  bound : ∀ id name v, w.store.local? id name = some v → v.Hygienic
  host : w.host = #[]

structure Entered (w : World) (frame : FrameId) (c : Closure) : Prop where
  link : w.store.link? frame = some c.frame
  bound : ∀ name ∈ c.params, (w.store.local? frame name).isSome

/-- What can come to be evaluated in a frame: code whose symbols are plain, the body of a curried
closure in the frame of a call, and the parameters there. -/
inductive Admits (w : World) (frame : FrameId) (e : Value) : Prop where
  | code (h : e.Hygienic)
  | body {c : Closure} (hc : c.Curried) (hentered : w.Entered frame c) (he : e = c.body)
  | param {c : Closure} {name : String} (hc : c.Curried) (hentered : w.Entered frame c)
    (hname : name ∈ c.params) (he : e = .symbol name)

section
variable (w : World) (bindings : List (String × Value)) (parent id : FrameId)

theorem local?_newFrame (name : String) : (w.newFrame bindings parent).store.local? id name =
    if id = w.nextFrame then (Std.TreeMap.ofList bindings)[name]? else w.store.local? id name :=
  Store.local?_newFrame bindings (some parent) id name

theorem link?_newFrame : (w.newFrame bindings parent).store.link? id =
    if id = w.nextFrame then some parent else w.store.link? id :=
  Store.link?_newFrame bindings (some parent) id

end

section
variable {w w' : World} {frame : FrameId}

theorem Hygienic.lookup? (hw : w.Hygienic) {name : String} {v : Value}
    (h : w.store.lookup? frame name = some v) : v.Hygienic := by
  obtain ⟨id, hlocal⟩ := Store.exists_local?_of_lookup? h
  exact hw.bound id name v hlocal

namespace Hygienic

theorem of_store_eq (hw : w.Hygienic) (hstore : w'.store = w.store) (hhost : w'.host = w.host) :
    w'.Hygienic :=
  ⟨hstore ▸ hw.bound, hhost.trans hw.host⟩

theorem newFrame (hw : w.Hygienic) {bindings : List (String × Value)} {parent : FrameId}
    (h : ∀ name v, (name, v) ∈ bindings → v.Hygienic) : (w.newFrame bindings parent).Hygienic := by
  refine ⟨fun id name v hv => ?_, hw.host⟩
  rw [local?_newFrame] at hv
  split at hv
  · exact h name v (Store.mem_of_getElem?_ofList hv)
  · exact hw.bound id name v hv

theorem newFrame_nil (hw : w.Hygienic) (parent : FrameId) : (w.newFrame [] parent).Hygienic :=
  hw.newFrame fun _ _ h => nomatch h

theorem bindStore (hw : w.Hygienic) (frame : FrameId) (name : String) {v : Value}
    (hv : v.Hygienic) : World.Hygienic { w with store := w.store.bind frame name v } := by
  refine ⟨fun id key u hu => ?_, hw.host⟩
  rw [Store.local?_bind] at hu
  split at hu
  · cases hu
    exact hv
  · exact hw.bound id key u hu

end Hygienic

theorem Entered.mono {c : Closure} (h : w.Entered frame c) (hext : w.store.Extends w'.store) :
    w'.Entered frame c where
  link := by
    have hlt : frame < w.store.frames.size := by
      by_contra hle
      have hlink := h.link
      rw [Store.link?, Array.getElem?_eq_none (Nat.not_lt.1 hle)] at hlink
      cases hlink
    rw [hext.link?_eq frame hlt, h.link]
  bound name hname := hext.isSome_local? frame name (h.bound name hname)

namespace Admits
variable {e : Value}

theorem mono (h : w.Admits frame e) (hext : w.store.Extends w'.store) : w'.Admits frame e := by
  cases h with
  | code h => exact .code h
  | body hc hentered he => exact .body hc (hentered.mono hext) he
  | param hc hentered hname he => exact .param hc (hentered.mono hext) hname he

theorem application {head : Value} {operands : List Value}
    (h : w.Admits frame (.list (head :: operands))) :
    head.Hygienic ∧ (∀ e ∈ operands, w.Admits frame e) ∧
      (head.arity? = none → ∀ e ∈ operands, e.Hygienic) := by
  cases h with
  | code h =>
    obtain ⟨hhead, hoperands⟩ := List.forall_mem_cons.1 (Value.Hygienic.list_iff.1 h)
    exact ⟨hhead, fun e he => .code (hoperands e he), fun _ => hoperands⟩
  | body hc hentered he =>
    obtain ⟨procedure, given, hcurries, hprocedure, hgiven⟩ := id hc
    rw [hcurries.body] at he
    cases he
    refine ⟨hprocedure, fun e he => ?_, fun hnone => ?_⟩
    · obtain he | he := List.mem_append.1 he
      · exact .code (hgiven e he)
      · obtain ⟨name, hname, rfl⟩ := List.mem_map.1 he
        exact .param hc hentered hname rfl
    · rw [hcurries.arity] at hnone
      cases hnone
  | param hc hentered hname he => cases he

theorem applied (form : SpecialForm) {operands : List Value} (h : ∀ e ∈ operands, e.Hygienic) :
    w.Admits frame (form.applied operands) :=
  .code (.list (List.forall_mem_cons.2 ⟨.symbol form.plain_name, h⟩))

theorem operands {form : SpecialForm} {operands : List Value}
    (h : w.Admits frame (form.applied operands)) : ∀ e ∈ operands, e.Hygienic :=
  h.application.2.2 rfl

theorem self (h : w.Admits frame e) (hsymbol : ∀ name, e ≠ .symbol name)
    (hlist : ∀ items, e ≠ .list items) : e.Hygienic := by
  cases h with
  | code h => exact h
  | body hc hentered he =>
    obtain ⟨procedure, given, hcurries, -⟩ := hc
    exact absurd (he.trans hcurries.body) (hlist _)
  | param hc hentered hname he => exact absurd he (hsymbol _)

end Admits

end

end World

/-- From the first world to the second, both in the course of a task, frames keep their links and
names with a blank stay as they were; new ones are bound in the frames of calls of curried closures
to the arguments of the call. -/
structure Traced (t : Task) (w₀ w w' : World) : Prop where
  hygienic : w'.Hygienic
  store_extends : w.store.Extends w'.store
  old : ∀ id name, id < w.nextFrame → ¬ Plain name →
    w'.store.local? id name = w.store.local? id name
  new : ∀ id name v, w.nextFrame ≤ id → ¬ Plain name → w'.store.local? id name = some v →
    ∃ c args, Enters t w₀ c args id ∧ c.Curried ∧ (name, v) ∈ c.params.zip args

namespace Traced
variable {t : Task} {w₀ w w₁ w' : World}

theorem of_store_eq (hw : w.Hygienic) (hstore : w'.store = w.store) (hhost : w'.host = w.host) :
    Traced t w₀ w w' where
  hygienic := hw.of_store_eq hstore hhost
  store_extends := hstore ▸ .refl _
  old id name _ _ := by rw [hstore]
  new id name v hid _ hv := by
    rw [hstore, Store.local?_eq_none_of_size_le hid] at hv
    cases hv

theorem refl (hw : w.Hygienic) : Traced t w₀ w w := of_store_eq hw rfl rfl

theorem trans (h : Traced t w₀ w w₁) (h' : Traced t w₀ w₁ w') : Traced t w₀ w w' where
  hygienic := h'.hygienic
  store_extends := h.store_extends.trans h'.store_extends
  old id name hid hname :=
    (h'.old id name (Nat.lt_of_lt_of_le hid h.store_extends.size_le) hname).trans
      (h.old id name hid hname)
  new id name v hid hname hv := by
    by_cases hlt : id < w₁.nextFrame
    · rw [h'.old id name hlt hname] at hv
      exact h.new id name v hid hname hv
    · exact h'.new id name v (Nat.not_lt.1 hlt) hname hv

theorem newClosure (hw : w.Hygienic) : Traced t w₀ w w.newClosure where
  hygienic := ⟨hw.bound, hw.host⟩
  store_extends := Store.extends_newClosure
  old _ _ _ _ := rfl
  new id name v hid _ hv := by
    have hnone : w.store.local? id name = none := Store.local?_eq_none_of_size_le hid
    exact nomatch hnone.symm.trans hv

theorem bindStore (hw : w.Hygienic) {frame : FrameId} {name : String} {v : Value}
    (hname : Plain name) (hv : v.Hygienic) :
    Traced t w₀ w { w with store := w.store.bind frame name v } where
  hygienic := hw.bindStore frame name hv
  store_extends := Store.extends_bind
  old id key _ hkey := by
    rw [Store.local?_bind, if_neg]
    rintro ⟨-, rfl, -⟩
    exact hkey hname
  new id key u hid _ hu := by
    have hlt : ¬ id < w.store.frames.size := Nat.not_lt.2 hid
    rw [Store.local?_bind, if_neg fun h => hlt h.2.2, Store.local?_eq_none_of_size_le hid] at hu
    cases hu

theorem bind (hw : w.Hygienic) {frame : FrameId} {name : String} {v : Value} (hname : Plain name)
    (hv : v.Hygienic) : Traced t w₀ w (w.bind frame name v) := by
  cases v with
  | closure c =>
    have hfirst : Traced t w₀ w { w with store := w.store.bind c.frame name (.closure c) } :=
      bindStore hw hname hv
    exact hfirst.trans (bindStore hfirst.hygienic hname hv)
  | _ => exact bindStore hw hname hv

theorem define (hw : w.Hygienic) {frame : FrameId} {name : String} {v : Value} (hname : Plain name)
    (hv : v.Hygienic) : Traced t w₀ w (w.define frame name v) :=
  bindStore hw hname hv

theorem newFrame (hw : w.Hygienic) {bindings : List (String × Value)} {parent : FrameId}
    (hbindings : ∀ name v, (name, v) ∈ bindings → v.Hygienic)
    (hnames : ∀ name v, (name, v) ∈ bindings → ¬ Plain name → ∃ c args,
      Enters t w₀ c args w.nextFrame ∧ c.Curried ∧ (name, v) ∈ c.params.zip args) :
    Traced t w₀ w (w.newFrame bindings parent) where
  hygienic := hw.newFrame hbindings
  store_extends := Store.extends_newFrame _ _
  old id name hid _ := by
    rw [World.local?_newFrame, if_neg (Nat.ne_of_lt hid)]
  new id name v hid hname hv := by
    rw [World.local?_newFrame] at hv
    split at hv
    · next heq =>
      rw [heq]
      exact hnames name v (Store.mem_of_getElem?_ofList hv) hname
    · rw [Store.local?_eq_none_of_size_le hid] at hv
      cases hv

theorem newFrame_nil (hw : w.Hygienic) (parent : FrameId) :
    Traced t w₀ w (w.newFrame [] parent) :=
  newFrame hw (fun _ _ h => nomatch h) fun _ _ h => nomatch h

theorem newFrame_call (hw : w.Hygienic) {c : Closure} {args : List Value}
    (hc : (Value.closure c).Hygienic) (hargs : ∀ v ∈ args, v.Hygienic)
    (henters : Enters t w₀ c args w.nextFrame) :
    Traced t w₀ w (w.newFrame (c.params.zip args) c.frame) := by
  refine newFrame hw (fun name v hmem => hargs v (List.of_mem_zip hmem).2)
    fun name v hmem hname => ?_
  cases hc with
  | lambda hparams => exact absurd (hparams name (List.of_mem_zip hmem).1) hname
  | curried hcurries hprocedure hgiven =>
    exact ⟨c, args, henters, ⟨_, _, hcurries, hprocedure, hgiven⟩, hmem⟩

end Traced

theorem World.admits_body {w : World} {c : Closure} {args : List Value}
    (hc : (Value.closure c).Hygienic) (hcount : c.params.length = args.length) :
    (w.newFrame (c.params.zip args) c.frame).Admits w.nextFrame c.body := by
  cases hc with
  | lambda _ hbody => exact .code hbody
  | curried hcurries hprocedure hgiven =>
    refine .body ⟨_, _, hcurries, hprocedure, hgiven⟩ ⟨?_, fun name hname => ?_⟩ rfl
    · rw [World.link?_newFrame, if_pos rfl]
    · rw [World.local?_newFrame, if_pos rfl, ← Std.TreeMap.mem_iff_isSome_getElem?,
        Std.TreeMap.mem_ofList, List.map_fst_zip (Nat.le_of_eq hcount)]
      simpa using hname

namespace Task

def Hygienic (w : World) : Task → Prop
  | .expr _ frame e | .form _ frame e => w.Admits frame e
  | .exprs _ frame es => ∀ e ∈ es, w.Admits frame e
  | .clauses _ _ list => ∀ test e, (test, e) ∈ list → test.Hygienic ∧ e.Hygienic
  | .bindings _ _ list => ∀ v ∈ list, v.Hygienic
  | .call f args => f.Hygienic ∧ ∀ v ∈ args, v.Hygienic
  | .builtin b args => (Value.builtin b).Hygienic ∧ ∀ v ∈ args, v.Hygienic
  | .reply _ => False

def Yields : (t : Task) → t.Result → Prop
  | .expr _ _ _, v | .form _ _ _, v | .call _ _, v | .builtin _ _, v | .reply _, v => v.Hygienic
  | .exprs _ _ _, vs => ∀ v ∈ vs, v.Hygienic
  | .clauses _ _ _, chosen => ∀ e, chosen = some e → e.Hygienic
  | .bindings _ _ _, _ => True

structure Preserves (t : Task) (w : World) (o : Except Error t.Result) (w' : World) : Prop where
  traced : Traced t w w w'
  yields : ∀ a, o = .ok a → t.Yields a

end Task

end Lisplet
