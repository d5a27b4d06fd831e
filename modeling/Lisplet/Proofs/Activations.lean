import Mathlib.Logic.Relation
import Lisplet.Proofs.BigStepComplete

/-! What is begun while a program runs, whether the run ends or not. A builtin continues the depth
of the application that called it, and what it calls counts from there. The body of a closure meets
the limit again and a builtin does not, so the depth of a builtin is bounded by the limit and by the
number of builtins that are called one from within the other. -/
namespace Lisplet
open Run

theorem BigStep.hostDepth_eq {t : Task} {w w' : World} {o : Except Error t.Result}
    (h : BigStep t w o w') : w'.hostDepth = w.hostDepth := by
  induction h with
  | unary hrun => exact (Unary.local_run _ _).hostDepth_eq hrun
  | binary hop hrun =>
    exact (Binary.local_run (fun _ _ => outOfFuel) hop _ _).hostDepth_eq (hrun _)
  | readWithMacro hread _ ih => exact ih.trans ((Local.readText _).hostDepth_eq hread)
  | readWithMacroError hread => exact (Local.readText _).hostDepth_eq hread
  | _ => simp_all

theorem BigStep.clauses_ne_nil {depth : Nat} {frame : FrameId} {clauses : List (Value × Value)}
    {w w' : World} {o : Except Error (Option Value)}
    (h : BigStep (.clauses depth frame clauses) w o w') (ho : o ≠ .ok none) : clauses ≠ [] := by
  rintro rfl
  cases h
  exact ho rfl

/-- The first task begins the second in this world, once what comes before it has ended. -/
inductive Starts : Task → World → Task → World → Prop where
  | within (hdepth : depth < maxEvalDepth) :
    Starts (.expr depth frame e) w (.form depth frame e) w

  | lambdaHelp (hparams : Form.params ps = .ok names) :
    Starts (.form depth frame (SpecialForm.lambda.applied [ps, help, body])) w
      (.expr (depth + 1) frame help) w
  | define : Starts (.form depth frame (SpecialForm.define.applied [.symbol name, e])) w
    (.expr (depth + 1) frame e) w
  | condTests (hne : clauses ≠ []) :
    Starts (.form depth frame (SpecialForm.cond.applied (SpecialForm.clauseList clauses))) w
      (.clauses depth frame clauses) w
  | condTail (htests : BigStep (.clauses depth frame clauses) w (.ok (some e)) w₁) :
    Starts (.form depth frame (SpecialForm.cond.applied (SpecialForm.clauseList clauses))) w
      (.expr depth frame e) w₁
  | condAgain (htests : BigStep (.clauses depth frame clauses) w (.ok none) w₁)
    (hlast : clauses.getLast? = some (test, e)) :
    Starts (.form depth frame (SpecialForm.cond.applied (SpecialForm.clauseList clauses))) w
      (.expr (depth + 1) frame test) w₁
  | iteTest : Starts (.form depth frame (SpecialForm.ite.applied [test, thenE, elseE])) w
    (.expr (depth + 1) frame test) w
  | iteTail (htest : BigStep (.expr (depth + 1) frame test) w (.ok v) w₁) :
    Starts (.form depth frame (SpecialForm.ite.applied [test, thenE, elseE])) w
      (.expr depth frame (if v.isTruthy then thenE else elseE)) w₁
  | beginLast : Starts (.form depth frame (SpecialForm.begin.applied [e])) w
    (.expr depth frame e) w
  | beginFirst : Starts (.form depth frame (SpecialForm.begin.applied (e :: next :: rest))) w
    (.expr (depth + 1) frame e) w
  | beginRest (hfirst : BigStep (.expr (depth + 1) frame e) w (.ok v) w₁) :
    Starts (.form depth frame (SpecialForm.begin.applied (e :: next :: rest))) w
      (.form depth frame (SpecialForm.begin.applied (next :: rest))) w₁
  | list : Starts (.form depth frame (SpecialForm.list.applied es)) w (.exprs depth frame es) w
  | curry : Starts (.form depth frame (SpecialForm.curry.applied [.list (f :: given)])) w
    (.expr (depth + 1) frame f) w
  | letOneBinding {w : World} :
    Starts (.form depth frame (SpecialForm.letIn.applied [.symbol name, e, body])) w
      (.bindings depth w.nextFrame [.list [.symbol name, e]]) (w.newFrame [] frame)
  | letOneBody {w : World}
    (hbinding : BigStep (.bindings depth w.nextFrame [.list [.symbol name, e]])
      (w.newFrame [] frame) (.ok ()) w₁) :
    Starts (.form depth frame (SpecialForm.letIn.applied [.symbol name, e, body])) w
      (.expr depth w.nextFrame body) w₁
  | letManyBindings {w : World} :
    Starts (.form depth frame (SpecialForm.letIn.applied [.list bindings, body])) w
      (.bindings depth w.nextFrame bindings) (w.newFrame [] frame)
  | letManyBody {w : World}
    (hbindings : BigStep (.bindings depth w.nextFrame bindings) (w.newFrame [] frame) (.ok ()) w₁) :
    Starts (.form depth frame (SpecialForm.letIn.applied [.list bindings, body])) w
      (.expr depth w.nextFrame body) w₁
  | evalOperand : Starts (.form depth frame (SpecialForm.eval.applied [e])) w
    (.expr (depth + 1) frame e) w
  | evalCode (he : BigStep (.expr (depth + 1) frame e) w (.ok code) w₁)
    (hcode : ∀ source, code ≠ .string source) :
    Starts (.form depth frame (SpecialForm.eval.applied [e])) w (.expr depth frame code) w₁
  | evalText (he : BigStep (.expr (depth + 1) frame e) w (.ok (.string source)) w₁)
    (hcode : Value.parse {} source = .ok code) :
    Starts (.form depth frame (SpecialForm.eval.applied [e])) w (.expr depth frame code) w₁
  | print : Starts (.form depth frame (SpecialForm.print.applied [e])) w
    (.expr (depth + 1) frame e) w

  | head (hform : Form.form? f = none) :
    Starts (.form depth frame (.list (f :: operands))) w (.expr (depth + 1) frame f) w
  | operands (hform : Form.form? f = none)
    (hf : BigStep (.expr (depth + 1) frame f) w (.ok v) w₁) :
    Starts (.form depth frame (.list (f :: operands))) w (.exprs depth frame operands) w₁
  | body {w₂ : World} (hform : Form.form? f = none)
    (hf : BigStep (.expr (depth + 1) frame f) w (.ok (.closure c)) w₁)
    (hargs : BigStep (.exprs depth frame operands) w₁ (.ok args) w₂)
    (hcount : c.params.length = args.length) :
    Starts (.form depth frame (.list (f :: operands))) w
      (.expr depth w₂.nextFrame c.body) (w₂.newFrame (c.params.zip args) c.frame)
  | builtin (hform : Form.form? f = none)
    (hf : BigStep (.expr (depth + 1) frame f) w (.ok (.builtin b)) w₁)
    (hargs : BigStep (.exprs depth frame operands) w₁ (.ok args) w₂) :
    Starts (.form depth frame (.list (f :: operands))) w
      (.builtin b args) (w₂.atHostDepth (depth + 1))

  | exprsFirst : Starts (.exprs depth frame (e :: es)) w (.expr (depth + 1) frame e) w
  | exprsRest (he : BigStep (.expr (depth + 1) frame e) w (.ok v) w₁) :
    Starts (.exprs depth frame (e :: es)) w (.exprs depth frame es) w₁
  | clausesFirst : Starts (.clauses depth frame ((test, e) :: clauses)) w
    (.expr (depth + 1) frame test) w
  | clausesRest (htest : BigStep (.expr (depth + 1) frame test) w (.ok v) w₁)
    (hv : v.isTruthy = false) :
    Starts (.clauses depth frame ((test, e) :: clauses)) w (.clauses depth frame clauses) w₁
  | bindingsFirst : Starts (.bindings depth frame (.list [.symbol name, e] :: rest)) w
    (.expr (depth + 1) frame e) w
  | bindingsRest (he : BigStep (.expr (depth + 1) frame e) w (.ok v) w₁) :
    Starts (.bindings depth frame (.list [.symbol name, e] :: rest)) w
      (.bindings depth frame rest) (w₁.bind frame name v)

  | callClosure {w : World} (hcount : c.params.length = args.length) :
    Starts (.call (.closure c) args) w
      (.expr w.hostDepth w.nextFrame c.body) (w.newFrame (c.params.zip args) c.frame)
  | callBuiltin {w : World} :
    Starts (.call (.builtin b) args) w (.builtin b args) (w.atHostDepth (w.hostDepth + 1))
  | readWithMacro (hread : (Run.ofExcept x.toText >>= Run.readExpression).Ends w (.ok e) w₁) :
    Starts (.builtin (.binary .readWithMacro) [x, expander]) w (.call expander [e]) w₁
  | composedInner : Starts (.builtin (.composed f g) [x]) w (.call g [x]) w
  | composedOuter (hg : BigStep (.call g [x]) w (.ok y) w₁) :
    Starts (.builtin (.composed f g) [x]) w (.call f [y]) w₁
  | host {w : World} (hcount : args.length = arity) (hslot : w.host[slot]? = some operation) :
    Starts (.builtin (.host name arity slot) args) w (.reply (operation args)) w
  | replyCall : Starts (.reply (.call f args resume)) w (.call f args) w
  | replyRest (hcall : BigStep (.call f args) w result w₁) :
    Starts (.reply (.call f args resume)) w (.reply (resume result)) w₁

namespace Starts
variable {depth : Nat} {frame : FrameId} {operands bindings : List Value} {body : Value}
  {w w₁ : World} (hparts : Form.letParts? operands = some (bindings, body))
include hparts

theorem letBindings : Starts (.form depth frame (SpecialForm.letIn.applied operands)) w
    (.bindings depth w.nextFrame bindings) (w.newFrame [] frame) := by
  obtain ⟨name, e, rfl, rfl⟩ | rfl := Form.letParts?_eq_some_iff.1 hparts
  · exact .letOneBinding
  · exact .letManyBindings

theorem letBody
    (hbindings : BigStep (.bindings depth w.nextFrame bindings) (w.newFrame [] frame) (.ok ()) w₁) :
    Starts (.form depth frame (SpecialForm.letIn.applied operands)) w
      (.expr depth w.nextFrame body) w₁ := by
  obtain ⟨name, e, rfl, rfl⟩ | rfl := Form.letParts?_eq_some_iff.1 hparts
  · exact .letOneBody hbindings
  · exact .letManyBody hbindings

end Starts

/-- In the course of the task the closure is called with these arguments, and this is the frame of
the call. -/
inductive Enters : Task → World → Closure → List Value → FrameId → Prop where
  | application {w₂ : World} (hform : Form.form? f = none)
    (hf : BigStep (.expr (depth + 1) frame f) w (.ok (.closure c)) w₁)
    (hargs : BigStep (.exprs depth frame operands) w₁ (.ok args) w₂)
    (hcount : c.params.length = args.length) :
    Enters (.form depth frame (.list (f :: operands))) w c args w₂.nextFrame
  | callback {w : World} (hcount : c.params.length = args.length) :
    Enters (.call (.closure c) args) w c args w.nextFrame
  | later {frame : FrameId} (hstarts : Starts t w t' w') (h : Enters t' w' c args frame) :
    Enters t w c args frame

def Task.Finishes (t : Task) (w : World) : Prop := ∃ o w', BigStep t w o w'

def Task.PartsFinish (t : Task) (w : World) : Prop :=
  ∀ t' w', Starts t w t' w' → t'.Finishes w'

section
variable {depth : Nat} {frame : FrameId} {w : World} {operands : List Value}

theorem finishes_lambda (haccepts : SpecialForm.lambda.Accepts operands)
    (h : (Task.form depth frame (SpecialForm.lambda.applied operands)).PartsFinish w) :
    (Task.form depth frame (SpecialForm.lambda.applied operands)).Finishes w := by
  obtain ⟨ps, body, rfl | ⟨help, rfl⟩⟩ := haccepts
  · cases hparams : Form.params ps with
    | ok names => exact ⟨_, _, .lambda hparams⟩
    | error error => exact ⟨_, _, .lambdaParams ⟨ps, body, .inl rfl⟩ hparams⟩
  · cases hparams : Form.params ps with
    | ok names =>
      obtain ⟨o, w₁, hhelp⟩ := h _ _ (.lambdaHelp hparams)
      cases o with
      | ok v => exact ⟨_, _, .lambdaHelp hparams hhelp⟩
      | error error => exact ⟨_, _, .lambdaError hparams hhelp⟩
    | error error => exact ⟨_, _, .lambdaParams ⟨ps, body, .inr ⟨help, rfl⟩⟩ hparams⟩

theorem finishes_define (haccepts : SpecialForm.define.Accepts operands)
    (h : (Task.form depth frame (SpecialForm.define.applied operands)).PartsFinish w) :
    (Task.form depth frame (SpecialForm.define.applied operands)).Finishes w := by
  obtain ⟨target, e, rfl⟩ := haccepts
  by_cases htarget : ∃ name, target = .symbol name
  · obtain ⟨name, rfl⟩ := htarget
    obtain ⟨o, w₁, he⟩ := h _ _ .define
    cases o with
    | ok v => exact ⟨_, _, .define he⟩
    | error error => exact ⟨_, _, .defineError he⟩
  · exact ⟨_, _, .defineTarget fun name heq => htarget ⟨name, heq⟩⟩

theorem finishes_cond (haccepts : SpecialForm.cond.Accepts operands)
    (h : (Task.form depth frame (SpecialForm.cond.applied operands)).PartsFinish w) :
    (Task.form depth frame (SpecialForm.cond.applied operands)).Finishes w := by
  obtain ⟨clauses, hne, rfl⟩ := haccepts
  obtain ⟨⟨test, last⟩, hlast⟩ :=
    Option.ne_none_iff_exists'.1 (mt List.getLast?_eq_none_iff.1 hne)
  obtain ⟨o, w₁, htests⟩ := h _ _ (.condTests hne)
  match o with
  | .ok (some e) =>
    obtain ⟨o, w', htail⟩ := h _ _ (.condTail htests)
    exact ⟨_, _, .cond htests htail⟩
  | .ok none =>
    obtain ⟨o, w₂, hagain⟩ := h _ _ (.condAgain htests hlast)
    cases o with
    | ok v =>
      cases hv : v.isTruthy with
      | true => exact ⟨_, _, .condUnspecified htests hlast hagain hv⟩
      | false => exact ⟨_, _, .condNoClause htests hlast hagain hv⟩
    | error error => exact ⟨_, _, .condAgainError htests hlast hagain⟩
  | .error error => exact ⟨_, _, .condError htests⟩

theorem finishes_ite (haccepts : SpecialForm.ite.Accepts operands)
    (h : (Task.form depth frame (SpecialForm.ite.applied operands)).PartsFinish w) :
    (Task.form depth frame (SpecialForm.ite.applied operands)).Finishes w := by
  obtain ⟨test, thenE, elseE, rfl⟩ := haccepts
  obtain ⟨o, w₁, htest⟩ := h _ _ .iteTest
  cases o with
  | ok v =>
    obtain ⟨o, w', htail⟩ := h _ _ (.iteTail htest)
    exact ⟨_, _, .ite htest htail⟩
  | error error => exact ⟨_, _, .iteError htest⟩

theorem finishes_begin (haccepts : SpecialForm.begin.Accepts operands)
    (h : (Task.form depth frame (SpecialForm.begin.applied operands)).PartsFinish w) :
    (Task.form depth frame (SpecialForm.begin.applied operands)).Finishes w := by
  match operands, haccepts with
  | [e], _ =>
    obtain ⟨o, w', htail⟩ := h _ _ .beginLast
    exact ⟨_, _, .beginLast htail⟩
  | e :: next :: rest, _ =>
    obtain ⟨o, w₁, hfirst⟩ := h _ _ .beginFirst
    cases o with
    | ok v =>
      obtain ⟨o, w', hrest⟩ := h _ _ (.beginRest hfirst)
      exact ⟨_, _, .beginNext hfirst hrest⟩
    | error error => exact ⟨_, _, .beginError hfirst⟩

theorem finishes_curry (haccepts : SpecialForm.curry.Accepts operands)
    (h : (Task.form depth frame (SpecialForm.curry.applied operands)).PartsFinish w) :
    (Task.form depth frame (SpecialForm.curry.applied operands)).Finishes w := by
  obtain ⟨f, given, rfl⟩ := haccepts
  obtain ⟨o, w₁, hf⟩ := h _ _ .curry
  cases o with
  | ok procedure =>
    cases harity : procedure.arity? with
    | none => exact ⟨_, _, .curryType hf harity⟩
    | some n =>
      by_cases hgiven : given.length ≤ n
      · exact ⟨_, _, .curry hf harity hgiven rfl⟩
      · exact ⟨_, _, .curryArity hf harity (Nat.lt_of_not_le hgiven)⟩
  | error error => exact ⟨_, _, .curryError hf⟩

theorem finishes_letIn (haccepts : SpecialForm.letIn.Accepts operands)
    (h : (Task.form depth frame (SpecialForm.letIn.applied operands)).PartsFinish w) :
    (Task.form depth frame (SpecialForm.letIn.applied operands)).Finishes w := by
  obtain ⟨bindings, body, hparts⟩ := Form.exists_letParts? haccepts
  obtain ⟨o, w₁, hbindings⟩ := h _ _ (.letBindings hparts)
  cases o with
  | ok _ =>
    obtain ⟨o, w', htail⟩ := h _ _ (.letBody hparts hbindings)
    exact ⟨_, _, .letIn hparts hbindings htail⟩
  | error error => exact ⟨_, _, .letInError hparts hbindings⟩

theorem finishes_evalForm (haccepts : SpecialForm.eval.Accepts operands)
    (h : (Task.form depth frame (SpecialForm.eval.applied operands)).PartsFinish w) :
    (Task.form depth frame (SpecialForm.eval.applied operands)).Finishes w := by
  obtain ⟨e, rfl⟩ := haccepts
  obtain ⟨o, w₁, he⟩ := h _ _ .evalOperand
  cases o with
  | ok code =>
    by_cases hstring : ∃ source, code = .string source
    · obtain ⟨source, rfl⟩ := hstring
      cases hcode : Value.parse {} source with
      | ok code =>
        obtain ⟨o, w', htail⟩ := h _ _ (.evalText he hcode)
        exact ⟨_, _, .evalText he hcode htail⟩
      | error fault => exact ⟨_, _, .evalUnreadable he hcode⟩
    · have hcode : ∀ source, code ≠ .string source := fun source heq => hstring ⟨source, heq⟩
      obtain ⟨o, w', htail⟩ := h _ _ (.evalCode he hcode)
      exact ⟨_, _, .evalCode he hcode htail⟩
  | error error => exact ⟨_, _, .evalError he⟩

theorem finishes_form {form : SpecialForm}
    (h : (Task.form depth frame (form.applied operands)).PartsFinish w) :
    (Task.form depth frame (form.applied operands)).Finishes w := by
  by_cases haccepts : form.Accepts operands
  · cases form with
    | quote =>
      obtain ⟨v, rfl⟩ := haccepts
      exact ⟨_, _, .quote⟩
    | string =>
      obtain ⟨text, rfl | rfl⟩ := haccepts
      · exact ⟨_, _, .stringText⟩
      · exact ⟨_, _, .stringSymbol⟩
    | lambda => exact finishes_lambda haccepts h
    | define => exact finishes_define haccepts h
    | cond => exact finishes_cond haccepts h
    | ite => exact finishes_ite haccepts h
    | begin => exact finishes_begin haccepts h
    | list =>
      obtain ⟨o, w₁, hes⟩ := h _ _ .list
      cases o with
      | ok vs => exact ⟨_, _, .list hes⟩
      | error error => exact ⟨_, _, .listError hes⟩
    | curry => exact finishes_curry haccepts h
    | letIn => exact finishes_letIn haccepts h
    | eval => exact finishes_evalForm haccepts h
    | print =>
      obtain ⟨e, rfl⟩ := haccepts
      obtain ⟨o, w₁, he⟩ := h _ _ .print
      cases o with
      | ok v => exact ⟨_, _, .print he⟩
      | error error => exact ⟨_, _, .printError he⟩
  · exact ⟨_, _, .malformed haccepts⟩

theorem finishes_application {f : Value} (hform : Form.form? f = none)
    (h : (Task.form depth frame (.list (f :: operands))).PartsFinish w) :
    (Task.form depth frame (.list (f :: operands))).Finishes w := by
  obtain ⟨o, w₁, hf⟩ := h _ _ (.head hform)
  cases o with
  | error error => exact ⟨_, _, .headError hform hf⟩
  | ok procedure =>
    obtain ⟨o, w₂, hargs⟩ := h _ _ (.operands hform hf)
    cases o with
    | error error => exact ⟨_, _, .argumentError hform hf hargs⟩
    | ok args =>
      cases procedure with
      | closure c =>
        by_cases hcount : c.params.length = args.length
        · obtain ⟨o, w', htail⟩ := h _ _ (.body hform hf hargs hcount)
          exact ⟨_, _, .closure hform hf hargs hcount htail⟩
        · exact ⟨_, _, .closureArity hform hf hargs hcount⟩
      | builtin b =>
        obtain ⟨o, w', hrun⟩ := h _ _ (.builtin hform hf hargs)
        exact ⟨_, _, .builtin hform hf hargs hrun⟩
      | number | symbol | string | bool | list | unspecified =>
        exact ⟨_, _, .notProcedure hform hf rfl hargs⟩

theorem finishes_bindings {bindings : List Value}
    (h : (Task.bindings depth frame bindings).PartsFinish w) :
    (Task.bindings depth frame bindings).Finishes w := by
  match bindings with
  | [] => exact ⟨_, _, .bindingsNil⟩
  | binding :: rest =>
    by_cases hbinding : ∃ name e, binding = .list [.symbol name, e]
    · obtain ⟨name, e, rfl⟩ := hbinding
      obtain ⟨o, w₁, he⟩ := h _ _ .bindingsFirst
      cases o with
      | ok v =>
        obtain ⟨o, w', hrest⟩ := h _ _ (.bindingsRest he)
        exact ⟨_, _, .bindingsCons he hrest⟩
      | error error => exact ⟨_, _, .bindingsError he⟩
    · exact ⟨_, _, .bindingsMalformed fun name e heq => hbinding ⟨name, e, heq⟩⟩

theorem finishes_builtin {b : Builtin} {args : List Value}
    (h : (Task.builtin b args).PartsFinish w) :
    (Task.builtin b args).Finishes w := by
  by_cases hcount : args.length = b.arity
  · cases b with
    | unary op =>
      obtain ⟨x, rfl⟩ := List.length_eq_one_iff.1 hcount
      obtain ⟨o, w', hrun⟩ := op.finishes x w
      exact ⟨o, w', .unary hrun⟩
    | binary op =>
      obtain ⟨x, y, rfl⟩ : ∃ x y, args = [x, y] := by
        match args, hcount with
        | [x, y], _ => exact ⟨x, y, rfl⟩
      by_cases hop : op = .readWithMacro
      · subst hop
        obtain ⟨o, w₁, hread⟩ := Finishes.readText x w
        cases o with
        | ok e =>
          obtain ⟨o, w', hcall⟩ := h _ _ (.readWithMacro hread)
          exact ⟨_, _, .readWithMacro hread hcall⟩
        | error error => exact ⟨_, _, .readWithMacroError hread⟩
      · obtain ⟨o, w', hrun⟩ := Binary.finishes (fun _ _ => outOfFuel) hop x y w
        exact ⟨o, w', .binary hop fun apply => Binary.run_eq_run _ apply hop x y ▸ hrun⟩
    | composed f g =>
      obtain ⟨x, rfl⟩ := List.length_eq_one_iff.1 hcount
      obtain ⟨o, w₁, hg⟩ := h _ _ .composedInner
      cases o with
      | ok y =>
        obtain ⟨o, w', hf⟩ := h _ _ (.composedOuter hg)
        exact ⟨_, _, .composed hg hf⟩
      | error error => exact ⟨_, _, .composedError hg⟩
    | host name arity slot =>
      cases hslot : w.host[slot]? with
      | some operation =>
        obtain ⟨o, w', hreply⟩ := h _ _ (.host hcount hslot)
        exact ⟨_, _, .host hcount hslot hreply⟩
      | none => exact ⟨_, _, .hostMissing hcount hslot⟩
  · exact ⟨_, _, .builtinArity hcount⟩

end

/-- Nothing is left out: a task comes to an end if everything does that it starts. -/
theorem finishes_of_starts {t : Task} {w : World}
    (h : ∀ t' w', Starts t w t' w' → t'.Finishes w') : t.Finishes w := by
  match t with
  | .expr depth frame e =>
    by_cases hdepth : depth < maxEvalDepth
    · obtain ⟨o, w', hform⟩ := h _ _ (.within hdepth)
      exact ⟨o, w', .within hdepth hform⟩
    · exact ⟨_, _, .tooDeep (Nat.not_lt.1 hdepth)⟩
  | .form depth frame (.symbol name) =>
    cases hlookup : w.store.lookup? frame name with
    | some v => exact ⟨_, _, .symbol hlookup⟩
    | none => exact ⟨_, _, .unbound hlookup⟩
  | .form depth frame (.list []) => exact ⟨_, _, .nil⟩
  | .form depth frame (.list (head :: operands)) =>
    cases hform : Form.form? head with
    | none => exact finishes_application hform h
    | some form =>
      obtain rfl := Form.form?_eq_some hform
      exact finishes_form h
  | .form depth frame (.number _) | .form depth frame (.string _) | .form depth frame (.bool _)
  | .form depth frame (.closure _) | .form depth frame (.builtin _)
  | .form depth frame .unspecified => exact ⟨_, _, .self (by simp) (by simp)⟩
  | .exprs depth frame [] => exact ⟨_, _, .exprsNil⟩
  | .exprs depth frame (e :: es) =>
    obtain ⟨o, w₁, he⟩ := h _ _ .exprsFirst
    cases o with
    | ok v =>
      obtain ⟨o, w', hes⟩ := h _ _ (.exprsRest he)
      cases o with
      | ok vs => exact ⟨_, _, .exprsCons he hes⟩
      | error error => exact ⟨_, _, .exprsRest he hes⟩
    | error error => exact ⟨_, _, .exprsError he⟩
  | .clauses depth frame [] => exact ⟨_, _, .clausesNil⟩
  | .clauses depth frame ((test, e) :: clauses) =>
    obtain ⟨o, w₁, htest⟩ := h _ _ .clausesFirst
    cases o with
    | ok v =>
      cases hv : v.isTruthy with
      | true => exact ⟨_, _, .clausesFound htest hv⟩
      | false =>
        obtain ⟨o, w', hrest⟩ := h _ _ (.clausesRest htest hv)
        exact ⟨_, _, .clausesNext htest hv hrest⟩
    | error error => exact ⟨_, _, .clausesError htest⟩
  | .bindings depth frame bindings => exact finishes_bindings h
  | .call (.closure c) args =>
    by_cases hcount : c.params.length = args.length
    · obtain ⟨o, w', hbody⟩ := h _ _ (.callClosure hcount)
      exact ⟨_, _, .callClosure hcount hbody⟩
    · exact ⟨_, _, .callArity hcount⟩
  | .call (.builtin b) args =>
    obtain ⟨o, w', hrun⟩ := h _ _ .callBuiltin
    exact ⟨_, _, .callBuiltin hrun⟩
  | .call (.number _) args | .call (.symbol _) args | .call (.string _) args
  | .call (.bool _) args | .call (.list _) args | .call .unspecified args =>
    exact ⟨_, _, .callNotProcedure rfl⟩
  | .builtin b args => exact finishes_builtin h
  | .reply (.finish result) => exact ⟨_, _, .finish⟩
  | .reply (.call f args resume) =>
    obtain ⟨result, w₁, hcall⟩ := h _ _ .replyCall
    obtain ⟨o, w', hresume⟩ := h _ _ (.replyRest hcall)
    exact ⟨_, _, .call hcall hresume⟩

/-- A task that has been begun, the world in which it was, and how many builtins have been called
one from within the other since an evaluation was begun last, this one included. -/
structure Activation where
  task : Task
  world : World
  row : Nat

/-- An evaluation starts the count again and a builtin adds to it. -/
def Task.row (n : Nat) : Task → Nat
  | .expr _ _ _ => 0
  | .builtin _ _ => n + 1
  | _ => n

namespace Activation

def Begins (a a' : Activation) : Prop :=
  Starts a.task a.world a'.task a'.world ∧ a'.row = a'.task.row a.row

def Reaches : Activation → Activation → Prop := Relation.ReflTransGen Begins

/-- Parts of an evaluation are below the greatest depth. The depth at which a builtin or what it
calls continues exceeds it by the builtins in a row at most. -/
def Bounded (a : Activation) : Prop :=
  match a.task with
  | .expr _ _ _ => True
  | .form depth _ _ | .exprs depth _ _ | .clauses depth _ _ | .bindings depth _ _ =>
    depth < maxEvalDepth
  | .call _ _ | .builtin _ _ | .reply _ => a.world.hostDepth + 1 ≤ maxEvalDepth + a.row

theorem Bounded.begins {a a' : Activation} (h : a.Bounded) (hbegins : a.Begins a') :
    a'.Bounded := by
  obtain ⟨task, world, row⟩ := a
  obtain ⟨task', world', row'⟩ := a'
  obtain ⟨hstarts, hrow⟩ := hbegins
  simp only at hstarts hrow
  subst hrow
  cases hstarts with
  | readWithMacro hread =>
    have hdepth := (Local.readText _).hostDepth_eq hread
    simp_all [Bounded, Task.row]
  | composedOuter hg =>
    have hdepth := hg.hostDepth_eq
    simp_all [Bounded, Task.row]
  | replyRest hcall =>
    have hdepth := hcall.hostDepth_eq
    simp_all [Bounded, Task.row]
  -- One level deeper there is one builtin more in a row; an application is below the limit.
  | callBuiltin =>
    simp only [Bounded, Task.row, World.hostDepth_atHostDepth] at h ⊢
    omega
  | builtin =>
    simp only [Bounded, Task.row, World.hostDepth_atHostDepth] at h ⊢
    omega
  | _ => simp_all [Bounded, Task.row]

theorem Bounded.reaches {a a' : Activation} (h : a.Bounded) (hreaches : a.Reaches a') :
    a'.Bounded := by
  induction hreaches with
  | refl => exact h
  | tail _ hbegins ih => exact ih.begins hbegins

end Activation

end Lisplet
