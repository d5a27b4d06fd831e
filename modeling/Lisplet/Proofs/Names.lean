import Lisplet.Proofs.Frames
import Lisplet.Proofs.Parameters
import Lisplet.Proofs.Runs

/-! Names in values. No name in source text has a blank in it and every name that `curry` makes up
has one. Values keep the two apart: outside of what `curry` made there are only names without a
blank, and in that the others are the parameters and the arguments at the end of the body. The
operations that every registry can offer do not mix them up. -/
namespace Lisplet
open Run

/-- A name as it can stand in source text. -/
def Plain (name : String) : Prop := ∀ c ∈ name.toList, Text.isBlank c = false

instance (name : String) : Decidable (Plain name) :=
  decidable_of_iff (name.toList.all fun c => !Text.isBlank c) (by simp [Plain])

theorem Dialect.IsAtom.plain {dialect : Dialect} {text : String}
    (h : dialect.IsAtom text.toList) : Plain text := by
  intro c hc
  have hatom := h.2 c hc
  simp only [isAtomChar, Bool.not_eq_true', Bool.or_eq_false_iff] at hatom
  simp [hatom]

theorem SpecialForm.plain_name (form : SpecialForm) : Plain form.name := by
  cases form <;> decide

namespace Form
variable {count : Nat} {name : String}

theorem not_plain_of_mem_curriedParams (h : name ∈ curriedParams count) : ¬ Plain name := by
  obtain ⟨i, -, rfl⟩ := List.mem_map.1 h
  intro hplain
  have hblank := hplain ' ' (by simp)
  exact absurd hblank (by decide)

end Form

/-- What `curry` makes of a procedure with some of its arguments: the missing ones are the
parameters, and they come last. -/
structure Closure.Curries (c : Closure) (procedure : Value) (given : List Value) : Prop where
  arity : procedure.arity? = some (given.length + c.params.length)
  params : c.params = Form.curriedParams c.params.length
  body : c.body = .list (procedure :: given ++ c.params.map .symbol)
  help : c.help = none

/-- All symbols in the value are plain, except where a closure that `curry` made holds its
parameters. -/
inductive Value.Hygienic : Value → Prop where
  | number (n : Number) : Hygienic (.number n)
  | symbol {name : String} (h : Plain name) : Hygienic (.symbol name)
  | string (text : String) : Hygienic (.string text)
  | bool (b : Bool) : Hygienic (.bool b)
  | unspecified : Hygienic .unspecified
  | list {items : List Value} (h : ∀ v ∈ items, Hygienic v) : Hygienic (.list items)
  | lambda {c : Closure} (hparams : ∀ name ∈ c.params, Plain name) (hbody : Hygienic c.body)
    (hhelp : ∀ v, c.help = some v → Hygienic v) : Hygienic (.closure c)
  | curried {c : Closure} {procedure : Value} {given : List Value} (h : c.Curries procedure given)
    (hprocedure : Hygienic procedure) (hgiven : ∀ v ∈ given, Hygienic v) : Hygienic (.closure c)
  | unary (op : Unary) : Hygienic (.builtin (.unary op))
  | binary (op : Binary) : Hygienic (.builtin (.binary op))
  | composed {f g : Value} (hf : Hygienic f) (hg : Hygienic g) :
    Hygienic (.builtin (.composed f g))
  | host (name : String) (arity slot : Nat) : Hygienic (.builtin (.host name arity slot))

def Closure.Curried (c : Closure) : Prop :=
  ∃ procedure given, c.Curries procedure given ∧ procedure.Hygienic ∧ ∀ v ∈ given, v.Hygienic

namespace Value.Hygienic
variable {v : Value}

theorem list_iff {items : List Value} : (Value.list items).Hygienic ↔ ∀ v ∈ items, v.Hygienic := by
  constructor
  · rintro ⟨⟩
    assumption
  · exact .list

theorem symbol_iff {name : String} : (Value.symbol name).Hygienic ↔ Plain name := by
  constructor
  · rintro ⟨⟩
    assumption
  · exact .symbol

theorem composed_iff {f g : Value} :
    (Value.builtin (.composed f g)).Hygienic ↔ f.Hygienic ∧ g.Hygienic := by
  constructor
  · rintro ⟨⟩
    constructor <;> assumption
  · rintro ⟨hf, hg⟩
    exact .composed hf hg

theorem of_readable {dialect : Dialect} {room : Nat} (h : Readable dialect room v) :
    v.Hygienic := by
  induction h with
  | number => exact .number _
  | symbol hatom => exact .symbol hatom.plain
  | literal =>
    refine .list fun w hw => ?_
    simp only [List.mem_cons, List.not_mem_nil, or_false] at hw
    obtain rfl | rfl := hw
    · exact .symbol SpecialForm.string.plain_name
    · exact .string _
  | list _ ih => exact .list ih

end Value.Hygienic

/-- The property passes from values to their parts and back, and holds of what is read. -/
structure Value.Hereditary (P : Value → Prop) : Prop where
  number : ∀ n, P (.number n)
  string : ∀ text, P (.string text)
  bool : ∀ b, P (.bool b)
  unspecified : P .unspecified
  list_iff : ∀ {items : List Value}, P (.list items) ↔ ∀ v ∈ items, P v
  help : ∀ {c : Closure} {v : Value}, P (.closure c) → c.help = some v → P v
  composed_iff : ∀ {f g : Value}, P (.builtin (.composed f g)) ↔ P f ∧ P g
  readable : ∀ {dialect : Dialect} {room : Nat} {v : Value}, Readable dialect room v → P v

theorem Value.Hereditary.parsed {P : Value → Prop} (hP : Value.Hereditary P) {dialect : Dialect}
    {source : String} {v : Value} (h : Value.parse dialect source = .ok v) : P v :=
  hP.readable (Value.readable_of_parse h)

theorem Value.hereditary_hygienic : Value.Hereditary Value.Hygienic where
  number := .number
  string := .string
  bool := .bool
  unspecified := .unspecified
  list_iff := Value.Hygienic.list_iff
  help {c v} hc hhelp := by
    cases hc with
    | lambda _ _ h => exact h v hhelp
    | curried h =>
      rw [h.help] at hhelp
      cases hhelp
  composed_iff := Value.Hygienic.composed_iff
  readable := .of_readable

namespace Form

theorem plain_of_params {ps : Value} {names : List String} (hps : ps.Hygienic)
    (h : params ps = .ok names) : ∀ name ∈ names, Plain name := by
  obtain ⟨-, rfl⟩ := params_eq_ok_iff.1 h
  intro name hname
  exact Value.Hygienic.symbol_iff.1
    (Value.Hygienic.list_iff.1 hps _ (List.mem_map.2 ⟨name, hname, rfl⟩))

theorem values_of_params_error {P : Value → Prop} (hP : Value.Hereditary P) {ps : Value}
    {error : Error} (hps : P ps) (h : params ps = .error error) : ∀ v ∈ error.values, P v := by
  obtain ⟨names, -, -, h'⟩ | ⟨fault, hbad, h'⟩ := params_cases ps
  · cases h'.symm.trans h
  · cases h'.symm.trans h
    cases hbad with
    | notList => exact List.forall_mem_singleton.2 hps
    | notSymbol later =>
      refine List.forall_mem_singleton.2 (hP.list_iff.1 hps _ ?_)
      exact List.mem_append_right _ (.head _)
    | duplicate => exact fun _ h => nomatch h

end Form

namespace Run
variable {α β : Type} {m : Run α} {Q : α → Prop}

/-- However it ends, the run leaves the frames and the operations of the host alone. Its result is
as the condition says, and its error holds no values. -/
def Spares (m : Run α) (Q : α → Prop) : Prop :=
  ∀ w o w', m.Ends w o w' → w'.store = w.store ∧ w'.host = w.host ∧ (∀ a, o = .ok a → Q a) ∧
    ∀ e, o = .error e → e.values = []

namespace Spares

theorem pure {a : α} (h : Q a) : (Pure.pure a : Run α).Spares Q := by
  intro w o w' hends
  obtain ⟨rfl, rfl⟩ := ends_pure.1 hends
  refine ⟨rfl, rfl, ?_, fun _ h => nomatch h⟩
  rintro _ ⟨⟩
  exact h

theorem fail (e : Error) (h : e.values = []) : (Run.fail e : Run α).Spares Q := by
  intro w o w' hends
  obtain ⟨rfl, rfl⟩ := ends_fail.1 hends
  refine ⟨rfl, rfl, (fun _ h => nomatch h), ?_⟩
  rintro _ ⟨⟩
  exact h

theorem bind {f : α → Run β} {R : β → Prop} (hm : m.Spares Q) (hf : ∀ a, Q a → (f a).Spares R) :
    (m >>= f).Spares R := by
  intro w o w' hends
  obtain ⟨a, w₁, hfirst, hsecond⟩ | ⟨e, hfirst, rfl⟩ := ends_bind.1 hends
  · obtain ⟨hstore, hhost, hQ, -⟩ := hm _ _ _ hfirst
    obtain ⟨hstore', hhost', hR⟩ := hf a (hQ a rfl) _ _ _ hsecond
    exact ⟨hstore'.trans hstore, hhost'.trans hhost, hR⟩
  · obtain ⟨hstore, hhost, -, herror⟩ := hm _ _ _ hfirst
    refine ⟨hstore, hhost, (fun _ h => nomatch h), ?_⟩
    rintro _ ⟨⟩
    exact herror e rfl

theorem parsed {result : Except ParseError α} (h : ∀ a, result = .ok a → Q a) :
    (Run.parsed result).Spares Q := by
  cases result with
  | ok a => exact pure (h a rfl)
  | error e => exact fail _ rfl

theorem of_ok {f : World → α × World} (h : ∀ w, m w = .ok (f w).1 (f w).2)
    (hstore : ∀ w, (f w).2.store = w.store ∧ (f w).2.host = w.host) :
    m.Spares fun _ => True := by
  intro w o w' hends
  obtain ⟨rfl, rfl⟩ := (ends_of_ok (h w)).1 hends
  exact ⟨(hstore w).1, (hstore w).2, fun _ _ => trivial, fun _ h => nomatch h⟩

theorem print (text : String) : (Run.print text).Spares fun _ => True :=
  of_ok (f := fun w => ((), { w with console := w.console.print text })) (fun _ => rfl)
    fun _ => ⟨rfl, rfl⟩

theorem readFile (path : String) : (Run.readFile path).Spares fun _ => True :=
  of_ok (f := fun w => (w.disk.read path, w)) (fun _ => rfl) fun _ => ⟨rfl, rfl⟩

theorem readLine? : Run.readLine?.Spares fun _ => True := by
  intro w o w' hends
  have happly := readLine?_apply w
  split at happly
  · obtain ⟨rfl, rfl⟩ := (ends_of_ok happly).1 hends
    exact ⟨rfl, rfl, fun _ _ => trivial, fun _ h => nomatch h⟩
  · obtain ⟨rfl, rfl⟩ := (ends_of_ok happly).1 hends
    exact ⟨rfl, rfl, fun _ _ => trivial, fun _ h => nomatch h⟩

theorem writeFile (path text : String) : (Run.writeFile path text).Spares fun _ => True := by
  intro w o w' hends
  have happly := writeFile_apply path text w
  split at happly
  · obtain ⟨rfl, rfl⟩ := (ends_of_ok happly).1 hends
    exact ⟨rfl, rfl, fun _ _ => trivial, fun _ h => nomatch h⟩
  · obtain ⟨rfl, rfl⟩ := (ends_of_ok happly).1 hends
    exact ⟨rfl, rfl, fun _ _ => trivial, fun _ h => nomatch h⟩

theorem toNumber (x : Value) : (Run.ofExcept x.toNumber).Spares fun _ => True := by
  cases x with
  | number n => exact pure trivial
  | _ => exact fail _ rfl

theorem toReal (x : Value) : (Run.ofExcept x.toReal).Spares fun _ => True := by
  cases x with
  | number n => exact pure trivial
  | _ => exact fail _ rfl

theorem toText (x : Value) : (Run.ofExcept x.toText).Spares fun _ => True := by
  cases x with
  | string text => exact pure trivial
  | _ => exact fail _ rfl

section
variable {P : Value → Prop} (hP : Value.Hereditary P)
include hP

theorem arithmetic (result : Except ArithmeticFault Number) :
    (Run.arithmetic result).Spares P := by
  cases result with
  | ok n => exact pure (hP.number n)
  | error fault => exact fail _ rfl

theorem readExpression (prompt : String) : (Run.readExpression prompt).Spares P := by
  refine (print prompt).bind fun _ _ => readLine?.bind fun line _ => ?_
  match line with
  | some (.text line) => exact parsed fun _ => hP.parsed
  | some .garbled => exact fail _ rfl
  | none => exact parsed fun _ => hP.parsed

theorem readText (x : Value) : (Run.ofExcept x.toText >>= Run.readExpression).Spares P :=
  (toText x).bind fun prompt _ => readExpression hP prompt

theorem toItems {x : Value} (hx : P x) :
    (Run.ofExcept x.toItems).Spares fun items => ∀ v ∈ items, P v := by
  cases x with
  | list items => exact pure (hP.list_iff.1 hx)
  | _ => exact fail _ rfl

end

end Spares

end Run

section
variable {P : Value → Prop} (hP : Value.Hereditary P)
include hP

theorem Comparison.spares_run (c : Comparison) (x y : Value) : (c.run x y).Spares P := by
  unfold Comparison.run
  split
  · exact .pure (hP.bool _)
  · exact .pure (hP.bool _)
  · exact .fail _ rfl

theorem Unary.spares_run (op : Unary) {x : Value} (hx : P x) : (op.run x).Spares P := by
  cases op with
  | not | isList | isAtom => exact .pure (hP.bool _)
  | increment | double => exact (Spares.toNumber x).bind fun _ _ => .arithmetic hP _
  | head =>
    refine (Spares.toItems hP hx).bind fun items hitems => .pure ?_
    cases items with
    | nil => exact hP.string _
    | cons v rest => exact hitems v (.head _)
  | tail =>
    exact (Spares.toItems hP hx).bind fun items hitems =>
      .pure (hP.list_iff.2 fun v hv => hitems v (List.mem_of_mem_tail hv))
  | help =>
    cases x with
    | closure c =>
      refine .pure ?_
      cases hhelp : c.help with
      | none => exact hP.bool _
      | some v => exact hP.help hx hhelp
    | _ => exact .pure (hP.bool _)
  | sleep =>
    refine (Spares.toReal x).bind fun seconds _ => ?_
    split
    · exact .pure (hP.list_iff.2 fun _ h => nomatch h)
    · exact .fail _ rfl
  | read => exact .readText hP x
  | readFile =>
    refine (Spares.toText x).bind fun path _ => (Spares.readFile path).bind fun result _ => ?_
    cases result with
    | ok text => exact .pure (hP.string _)
    | error fault => exact .fail _ rfl

theorem Binary.spares_run (apply : Applier) {op : Binary} (hop : op ≠ .readWithMacro) {x y : Value}
    (hx : P x) (hy : P y) : (op.run apply x y).Spares P := by
  cases op with
  | and | or =>
    refine .pure ?_
    split <;> assumption
  | implies =>
    refine .pure ?_
    split
    · exact hy
    · exact hP.bool _
  | equal | unequal => exact .pure (hP.bool _)
  | compare c => exact c.spares_run hP x y
  | add =>
    change (Binary.sum x y).Spares _
    unfold Binary.sum
    split
    · exact .arithmetic hP _
    · exact .pure (hP.string _)
    · refine .pure (hP.list_iff.2 fun v hv => ?_)
      obtain hv | hv := List.mem_append.1 hv
      · exact hP.list_iff.1 hx v hv
      · exact hP.list_iff.1 hy v hv
    · exact .fail _ rfl
  | sub | mul | div | mod =>
    exact (Spares.toNumber x).bind fun _ _ => (Spares.toNumber y).bind fun _ _ => .arithmetic hP _
  | cons =>
    exact (Spares.toItems hP hy).bind fun items hitems =>
      .pure (hP.list_iff.2 (List.forall_mem_cons.2 ⟨hx, hitems⟩))
  | append =>
    refine (Spares.toItems hP hy).bind fun items hitems => .pure (hP.list_iff.2 fun v hv => ?_)
    obtain hv | hv := List.mem_append.1 hv
    · exact hitems v hv
    · rwa [List.mem_singleton.1 hv]
  | compose =>
    change (Binary.composed x y).Spares _
    unfold Binary.composed
    split
    · exact .fail _ rfl
    · split
      · exact .fail _ rfl
      · exact .pure (hP.composed_iff.2 ⟨hx, hy⟩)
  | readWithMacro => exact absurd rfl hop
  | writeFile =>
    refine (Spares.toText x).bind fun path _ => (Spares.toText y).bind fun text _ => ?_
    refine (Spares.writeFile path text).bind fun result _ => ?_
    cases result with
    | ok _ => exact .pure (hP.number _)
    | error fault => exact .fail _ rfl

end

end Lisplet
