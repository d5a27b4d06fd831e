import Lisplet.Proofs.Applications
import Lisplet.Proofs.Batch
import Lisplet.Proofs.Parameters
import Lisplet.Proofs.Patching

/-! The library of a standard session as syntax, and what its names mean once the prelude has been
loaded. The prelude is read as the definitions listed here; each makes one closure in the global
frame, so a name of the library stands for that closure and every other name for what the registry
gave it. -/
namespace Lisplet

mutual

def Value.coincides : Value → Value → Bool
  | .number (.int a), .number (.int b) => a == b
  | .symbol a, .symbol b => a == b
  | .string a, .string b => a == b
  | .list vs, .list us => coincideAll vs us
  | _, _ => false

def Value.coincideAll : List Value → List Value → Bool
  | [], [] => true
  | v :: vs, u :: us => v.coincides u && coincideAll vs us
  | _, _ => false

end

mutual

theorem Value.eq_of_coincides : ∀ {v u : Value}, v.coincides u = true → v = u
  | .number (.int _), .number (.int _), h => by
    rw [coincides, beq_iff_eq] at h
    rw [h]
  | .symbol _, .symbol _, h => by
    rw [coincides, beq_iff_eq] at h
    rw [h]
  | .string _, .string _, h => by
    rw [coincides, beq_iff_eq] at h
    rw [h]
  | .list _, .list _, h => by
    rw [coincides] at h
    rw [eq_of_coincideAll h]

theorem Value.eq_of_coincideAll : ∀ {vs us : List Value}, coincideAll vs us = true → vs = us
  | [], [], _ => rfl
  | v :: vs, u :: us, h => by
    rw [coincideAll, Bool.and_eq_true] at h
    rw [Value.eq_of_coincides h.1, eq_of_coincideAll h.2]

end

structure Library.Entry where
  name : String
  params : List String
  help : String
  body : Value
  nodup : params.Nodup := by decide

namespace Library

def call (name : String) (operands : List Value) : Value := .list (.symbol name :: operands)

def emptyTest : Entry where
  name := "empty?"
  params := ["xs"]
  help := "true when xs is the empty list"
  body := call "=" [.symbol "xs", .quoted .nil]

def evaluateText : Entry where
  name := "evalS"
  params := ["source"]
  help := "read and evaluate a source string"
  body := SpecialForm.eval.applied [.symbol "source"]

def foldl : Entry where
  name := "foldl"
  params := ["f", "acc", "xs"]
  help := "combine acc with each element of xs from the left: (f acc x)"
  body := SpecialForm.ite.applied [call "empty?" [.symbol "xs"], .symbol "acc",
    call "foldl" [.symbol "f", call "f" [.symbol "acc", call "head" [.symbol "xs"]],
      call "tail" [.symbol "xs"]]]

/-- A fold over `xs` with a procedure made for it, which takes what has been made so far by the
given name. -/
def foldWith (name : String) (body start : Value) : Value :=
  call "foldl" [SpecialForm.lambda.applied [.list [.symbol name, .symbol "x"], body], start,
    .symbol "xs"]

def counting : Value := call "++" [.symbol "n"]

def length : Entry where
  name := "length"
  params := ["xs"]
  help := "number of elements in xs"
  body := foldWith "n" counting (.int 0)

def prepending : Value := call "cons" [.symbol "x", .symbol "acc"]

def reverse : Entry where
  name := "reverse"
  params := ["xs"]
  help := "elements of xs in reverse order"
  body := foldWith "acc" prepending (.quoted .nil)

def collecting : Value := call "append" [call "f" [.symbol "x"], .symbol "acc"]

def map : Entry where
  name := "map"
  params := ["f", "xs"]
  help := "apply f to every element of xs"
  body := foldWith "acc" collecting (.quoted .nil)

def selecting : Value :=
  SpecialForm.ite.applied [call "keep?" [.symbol "x"], call "append" [.symbol "x", .symbol "acc"],
    .symbol "acc"]

def filter : Entry where
  name := "filter"
  params := ["keep?", "xs"]
  help := "elements of xs for which keep? holds"
  body := foldWith "acc" selecting (.quoted .nil)

def last : Entry where
  name := "last"
  params := ["xs"]
  help := "final element of xs"
  body := SpecialForm.ite.applied [call "empty?" [call "tail" [.symbol "xs"]],
    call "head" [.symbol "xs"], call "last" [call "tail" [.symbol "xs"]]]

def rangeInto : Entry where
  name := "range-into"
  params := ["acc", "n", "to"]
  help := "append the integers n, n+1, ... below to onto acc"
  body := SpecialForm.ite.applied [call "<" [.symbol "n", .symbol "to"],
    call "range-into" [call "append" [.symbol "n", .symbol "acc"], call "++" [.symbol "n"],
      .symbol "to"], .symbol "acc"]

def range : Entry where
  name := "range"
  params := ["from", "to"]
  help := "integers from `from` up to, but not including, `to`"
  body := call "range-into" [.quoted .nil, .symbol "from", .symbol "to"]

def entries : List Entry :=
  [emptyTest, evaluateText, foldl, length, reverse, map, filter, last, rangeInto, range]

namespace Entry
variable (entry : Entry)

def definition : Value :=
  SpecialForm.define.applied [.symbol entry.name,
    SpecialForm.lambda.applied [.list (entry.params.map .symbol), .literal entry.help, entry.body]]

def closure (id : Nat) : Closure :=
  ⟨id, entry.params, entry.body, Session.globalFrame, some (.string entry.help)⟩

def install (w : World) : World :=
  w.newClosure.define Session.globalFrame entry.name (.closure (entry.closure w.store.closures))

theorem bigStep_definition (w : World) :
    BigStep (.expr 0 Session.globalFrame entry.definition) w (.ok (.symbol entry.name))
      (entry.install w) := by
  have hparams := Form.params_map_symbol entry.nodup
  have hhelp : BigStep (.expr 2 Session.globalFrame (.literal entry.help)) w
      (.ok (.string entry.help)) w := .within (by decide) .stringText
  exact .within (by decide) (.define (.within (by decide) (.lambdaHelp hparams hhelp)))

end Entry

def readAll (source : String) (cs : List Char) : Except ParseError (List Value) :=
  Token.cut {} source (Token.skipTrivia {} cs 0).1 (Token.skipTrivia {} cs 0).2 [] >>=
    fun tokens => (Reader.collect source tokens []).mapM id

theorem parseAll_eq_readAll (source : String) :
    Value.parseAll {} source = readAll source source.toList := by
  unfold Value.parseAll readAll Reader.ofSource Token.ofSource
  dsimp only
  generalize Token.cut {} source _ _ [] = tokens
  cases tokens <;> rfl

def readsAs (vs : List Value) (result : Except ParseError (List Value)) : Bool :=
  match result with
  | .ok us => Value.coincideAll us vs
  | .error _ => false

theorem parseAll_of_readsAs {source : String} {cs : List Char} {vs : List Value}
    (hcs : source = String.ofList cs) (h : readsAs vs (readAll source cs) = true) :
    Value.parseAll {} source = .ok vs := by
  have hchars : source.toList = cs := by rw [hcs, String.toList_ofList]
  rw [parseAll_eq_readAll, hchars]
  cases hread : readAll source cs with
  | ok us =>
    rw [hread] at h
    rw [Value.eq_of_coincideAll h]
  | error e =>
    rw [hread] at h
    cases h

set_option maxRecDepth 100000 in
theorem readsAs_prelude : ∃ cs, prelude = String.ofList cs ∧
    readsAs (entries.map Entry.definition) (readAll prelude cs) = true :=
  ⟨_, rfl, by decide +kernel⟩

theorem parseAll_prelude : Value.parseAll {} prelude = .ok (entries.map Entry.definition) := by
  obtain ⟨cs, hcs, h⟩ := readsAs_prelude
  exact parseAll_of_readsAs hcs h

end Library

section
variable {w : World} {name : String} {v : Value}

theorem Store.parent?_zero (store : Store) : store.parent? 0 = none := by
  cases h : store.parent? 0 with
  | none => rfl
  | some p => exact absurd (Store.lt_of_parent? h) (Nat.not_lt_zero p)

theorem Store.lookup?_zero (store : Store) (name : String) :
    store.lookup? 0 name = store.local? 0 name := by
  rw [Store.lookup?_eq_or, Store.parent?_zero]
  exact Option.or_none

namespace Registry

theorem get?_foldl_constant {α : Type} (key : α → String) (value : α → Value) (all : List α)
    (registry : Registry) (name : String) :
    (all.foldl (fun r a => r.constant (key a) (value a)) registry).get? name =
      ((all.reverse.find? fun a => key a = name).map value).or (registry.get? name) := by
  induction all generalizing registry with
  | nil => rfl
  | cons a all ih =>
    rw [List.foldl_cons, ih, get?_constant, List.reverse_cons, List.find?_append]
    by_cases h : key a = name <;> cases all.reverse.find? fun a => key a = name <;> simp [h]

theorem get?_standard_binary (dir : String) (op : Binary) :
    (standard dir).get? op.name = some (.builtin (.binary op)) := by
  have hfind : (Binary.all.reverse.find? fun other => other.name = op.name) = some op := by
    cases op with
    | compare c => cases c <;> decide
    | _ => decide
  simp only [standard]
  rw [get?_foldl_constant, hfind]
  rfl

theorem get?_standard_unary (dir : String) (op : Unary) :
    (standard dir).get? op.name = some (.builtin (.unary op)) := by
  have hnone : (Binary.all.reverse.find? fun other => other.name = op.name) = none := by
    cases op <;> decide
  have hfind : (Unary.all.reverse.find? fun other => other.name = op.name) = some op := by
    cases op <;> decide
  simp only [standard]
  rw [get?_foldl_constant, hnone, get?_foldl_constant, hfind]
  rfl

theorem get?_standard_true (dir : String) : (standard dir).get? "t" = some (.bool true) := by
  have hbinary : (Binary.all.reverse.find? fun other => other.name = "t") = none := by decide
  have hunary : (Unary.all.reverse.find? fun other => other.name = "t") = none := by decide
  simp only [standard]
  rw [get?_foldl_constant, hbinary, get?_foldl_constant, hunary]
  simp [get?_constant]

end Registry

namespace Session

theorem lookup?_start {registry : Registry} (console : Console) (disk : Disk)
    (h : registry.get? name = some v) :
    (start registry console disk).store.lookup? globalFrame name = some v := by
  have hfirst : 0 = Store.empty.frames.size := rfl
  rw [globalFrame, Store.lookup?_zero, start, Store.local?_newFrame, if_pos hfirst]
  exact Std.TreeMap.getElem?_ofList_of_mem Std.ReflCmp.compare_self
    Std.TreeMap.distinct_keys_toList (Std.TreeMap.mem_toList_iff_getElem?_eq_some.2 h)

theorem nextFrame_start_pos (registry : Registry) (console : Console) (disk : Disk) :
    0 < (start registry console disk).nextFrame := Nat.zero_lt_one

end Session

theorem World.lookup?_define (hw : 0 < w.nextFrame) (key : String) :
    (w.define Session.globalFrame name v).store.lookup? Session.globalFrame key =
      if name = key then some v else w.store.lookup? Session.globalFrame key := by
  have hroot : w.store.root 0 = 0 := Store.root_of_parent?_eq_none (Store.parent?_zero _)
  rw [Session.globalFrame, Store.lookup?_zero, Store.lookup?_zero, define, Store.bindGlobal, hroot,
    Store.local?_bind]
  by_cases h : name = key
  · rw [if_pos ⟨rfl, h, hw⟩, if_pos h]
  · rw [if_neg fun hall => h hall.2.1, if_neg h]

namespace Library

theorem Entry.lookup?_install (entry : Entry) (hw : 0 < w.nextFrame) (name : String) :
    (entry.install w).store.lookup? Session.globalFrame name =
      if entry.name = name then some (.closure (entry.closure w.store.closures))
      else w.store.lookup? Session.globalFrame name := by
  have hnext : 0 < w.newClosure.nextFrame := hw
  have hsame : w.newClosure.store.lookup? Session.globalFrame name =
      w.store.lookup? Session.globalFrame name := by
    rw [Session.globalFrame, Store.lookup?_zero, Store.lookup?_zero]
    rfl
  rw [install, World.lookup?_define hnext, hsame]

theorem Entry.nextFrame_install (entry : Entry) (w : World) :
    (entry.install w).nextFrame = w.nextFrame :=
  Store.size_bind _ _ _ _

def installAll (entries : List Entry) (w : World) : World :=
  entries.foldl (fun w entry => entry.install w) w

theorem lookup?_installAll_of_not_mem {entries : List Entry} (hw : 0 < w.nextFrame)
    (h : name ∉ entries.map Entry.name) :
    (installAll entries w).store.lookup? Session.globalFrame name =
      w.store.lookup? Session.globalFrame name := by
  induction entries generalizing w with
  | nil => rfl
  | cons entry entries ih =>
    obtain ⟨hne, hrest⟩ := not_or.1 (List.mem_cons.not.1 h)
    have hnext := entry.nextFrame_install w
    have hfirst := entry.lookup?_install hw name
    rw [if_neg (Ne.symm hne)] at hfirst
    rw [← hfirst]
    exact ih (hnext ▸ hw) hrest

/-- Of distinct names each stands for the closure of its definition. Closures are numbered in the
order of the definitions. -/
theorem lookup?_installAll {entries : List Entry} (hnames : (entries.map Entry.name).Nodup)
    (hw : 0 < w.nextFrame) {i : Nat} {entry : Entry} (h : entries[i]? = some entry) :
    (installAll entries w).store.lookup? Session.globalFrame entry.name =
      some (.closure (entry.closure (w.store.closures + i))) := by
  induction entries generalizing w i with
  | nil => cases h
  | cons first entries ih =>
    obtain ⟨hnew, hrest⟩ := List.nodup_cons.1 hnames
    have hnext : 0 < (first.install w).nextFrame := by
      rw [first.nextFrame_install]
      exact hw
    cases i with
    | zero =>
      obtain rfl : first = entry := Option.some.inj h
      have hlater := lookup?_installAll_of_not_mem hnext hnew
      have hfirst := first.lookup?_install hw first.name
      rw [if_pos rfl] at hfirst
      exact hlater.trans hfirst
    | succ i =>
      have hlater := ih hrest hnext h
      have hcount : (first.install w).store.closures = w.store.closures + 1 := rfl
      rw [hcount, Nat.succ_add_eq_add_succ] at hlater
      exact hlater

theorem outcomes_definitions (entries : List Entry) (w : World) :
    Session.Outcomes w ((entries.map Entry.definition).map .ok)
      ((entries.map fun entry => Value.symbol entry.name).map .ok) (installAll entries w) := by
  induction entries generalizing w with
  | nil => exact .nil
  | cons entry entries ih =>
    exact .cons (.value (BigStep.evalEnds (entry.bigStep_definition w))) (ih _)

end Library

namespace Session
open Library Run

/-- A standard session as it is when the prelude has been loaded. -/
def Opened (w : World) : Prop :=
  ∃ dir console disk fuel v, loadPrelude fuel (start (.standard dir) console disk) = .ok v w

theorem opened_iff : Opened w ↔
    ∃ dir console disk, w = installAll entries (start (.standard dir) console disk) := by
  obtain ⟨tokens, htokens, hcollect⟩ := Value.parseAll_eq_ok_iff.1 parseAll_prelude
  have hload (w₀ w : World) (o : Except Error Value) :=
    (settles_load_of_outcomes htokens (hcollect ▸ outcomes_definitions entries w₀)).1 _ rfl o w
  constructor
  · rintro ⟨dir, console, disk, fuel, v, h⟩
    exact ⟨dir, console, disk, ((hload _ w (.ok v)).1 ⟨fuel, h⟩).2⟩
  · rintro ⟨dir, console, disk, rfl⟩
    obtain ⟨fuel, h⟩ := (hload (start (.standard dir) console disk) _ _).2 ⟨rfl, rfl⟩
    exact ⟨dir, console, disk, fuel, _, h⟩

namespace Opened
variable (h : Opened w)
include h

theorem lookup?_entry {i : Nat} {entry : Entry} (hentry : entries[i]? = some entry) :
    w.store.lookup? globalFrame entry.name = some (.closure (entry.closure i)) := by
  obtain ⟨dir, console, disk, rfl⟩ := opened_iff.1 h
  have hlookup := lookup?_installAll (by decide)
    (nextFrame_start_pos (.standard dir) console disk) hentry
  have hnone : (start (.standard dir) console disk).store.closures = 0 := rfl
  rwa [hnone, Nat.zero_add] at hlookup

theorem lookup?_unary (op : Unary) :
    w.store.lookup? globalFrame op.name = some (.builtin (.unary op)) := by
  obtain ⟨dir, console, disk, rfl⟩ := opened_iff.1 h
  rw [lookup?_installAll_of_not_mem (nextFrame_start_pos _ _ _) (by cases op <;> decide)]
  exact lookup?_start console disk (Registry.get?_standard_unary dir op)

theorem lookup?_binary (op : Binary) :
    w.store.lookup? globalFrame op.name = some (.builtin (.binary op)) := by
  obtain ⟨dir, console, disk, rfl⟩ := opened_iff.1 h
  have hnew : op.name ∉ entries.map Entry.name := by
    cases op with
    | compare c => cases c <;> decide
    | _ => decide
  rw [lookup?_installAll_of_not_mem (nextFrame_start_pos _ _ _) hnew]
  exact lookup?_start console disk (Registry.get?_standard_binary dir op)

theorem lookup?_true : w.store.lookup? globalFrame "t" = some (.bool true) := by
  obtain ⟨dir, console, disk, rfl⟩ := opened_iff.1 h
  rw [lookup?_installAll_of_not_mem (nextFrame_start_pos _ _ _) (by decide)]
  exact lookup?_start console disk (Registry.get?_standard_true dir)

end Opened

end Session

end

end Lisplet
