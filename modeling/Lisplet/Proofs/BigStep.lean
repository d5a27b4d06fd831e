import Lisplet.Proofs.Runs

/-! Evaluation without a loop and without fuel: rules that say what an expression evaluates to from
what its parts evaluate to. Parts that are not in tail position are evaluated one level deeper, from
left to right, and the first error is the error of the whole; what is in tail position is evaluated
at the same depth. -/
namespace Lisplet

namespace SpecialForm

def applied (form : SpecialForm) (operands : List Value) : Value :=
  .list (.symbol form.name :: operands)

def clauseList (clauses : List (Value × Value)) : List Value :=
  clauses.map fun (test, e) => .list [test, e]

/-- The operands have the shape that is checked before anything is evaluated. -/
def Accepts (form : SpecialForm) (operands : List Value) : Prop :=
  match form with
  | quote => ∃ v, operands = [v]
  | string => ∃ text, operands = [.string text] ∨ operands = [.symbol text]
  | lambda => ∃ ps body, operands = [ps, body] ∨ ∃ help, operands = [ps, help, body]
  | define => ∃ target e, operands = [target, e]
  | cond => ∃ clauses, clauses ≠ [] ∧ operands = clauseList clauses
  | ite => ∃ test thenE elseE, operands = [test, thenE, elseE]
  | begin => operands ≠ []
  | list => True
  | curry => ∃ f given, operands = [.list (f :: given)]
  | letIn =>
    ∃ body, (∃ name e, operands = [.symbol name, e, body]) ∨
      ∃ bindings, operands = [.list bindings, body]
  | eval => ∃ e, operands = [e]
  | print => ∃ e, operands = [e]

end SpecialForm

namespace World

def nextFrame (w : World) : FrameId := w.store.frames.size

def newFrame (w : World) (bindings : List (String × Value)) (parent : FrameId) : World :=
  { w with store := (w.store.newFrame bindings (some parent)).2 }

def closure (w : World) (params : List String) (body : Value) (frame : FrameId)
    (help : Option Value) : Value :=
  .closure ⟨w.store.closures, params, body, frame, help⟩

def newClosure (w : World) : World := { w with store := w.store.newClosure.2 }

def define (w : World) (frame : FrameId) (name : String) (v : Value) : World :=
  { w with store := w.store.bindGlobal frame name v }

/-- Binds a name in a frame; a closure also in the frame it was made in. -/
def bind (w : World) (frame : FrameId) (name : String) (v : Value) : World :=
  match v with
  | .closure c => { w with store := (w.store.bind c.frame name v).bind frame name v }
  | _ => { w with store := w.store.bind frame name v }

def print (w : World) (v : Value) : World :=
  match v with
  | .string text => { w with console := w.console.print (text ++ "\n") }
  | v => { w with console := w.console.print (v.text ++ "\n") }

def atHostDepth (w : World) (depth : Nat) : World := { w with hostDepth := depth }

section
variable (w : World)

@[simp] theorem nextFrame_newFrame (bindings : List (String × Value)) (parent : FrameId) :
    (w.newFrame bindings parent).nextFrame = w.nextFrame + 1 := Array.size_push ..

@[simp] theorem hostDepth_newFrame (bindings : List (String × Value)) (parent : FrameId) :
    (w.newFrame bindings parent).hostDepth = w.hostDepth := rfl

@[simp] theorem hostDepth_newClosure : w.newClosure.hostDepth = w.hostDepth := rfl

@[simp] theorem hostDepth_define (frame : FrameId) (name : String) (v : Value) :
    (w.define frame name v).hostDepth = w.hostDepth := rfl

@[simp] theorem hostDepth_bind (frame : FrameId) (name : String) (v : Value) :
    (w.bind frame name v).hostDepth = w.hostDepth := by
  cases v <;> rfl

@[simp] theorem hostDepth_print (v : Value) : (w.print v).hostDepth = w.hostDepth := by
  cases v <;> rfl

@[simp] theorem hostDepth_atHostDepth (depth : Nat) : (w.atHostDepth depth).hostDepth = depth := rfl

end

end World

theorem Form.bindValue_eq (ev : Evaluator) (depth : Nat) (frame : FrameId) (name : String)
    (e : Value) : bindValue ev depth frame name e =
      ev (depth + 1) frame e >>= fun v => modify fun w => w.bind frame name v := by
  unfold bindValue
  refine congrArg _ (funext fun v => ?_)
  cases v <;> rfl

theorem Form.print_eq (ev : Evaluator) (depth : Nat) (frame : FrameId) (e : Value) :
    print ev depth frame [e] = ev (depth + 1) frame e >>= fun v => do
      modify fun w => w.print v
      return .done v := by
  rw [print]
  refine congrArg _ (funext fun v => ?_)
  cases v <;> rfl

/-- What there is to do: evaluate an expression, the same below the greatest depth, expressions one
after the other, the tests of clauses, bindings, call a procedure from within a builtin, run a
builtin, or do what an operation of the host asks for. -/
inductive Task where
  | expr (depth : Nat) (frame : FrameId) (e : Value)
  | form (depth : Nat) (frame : FrameId) (e : Value)
  | exprs (depth : Nat) (frame : FrameId) (es : List Value)
  | clauses (depth : Nat) (frame : FrameId) (clauses : List (Value × Value))
  | bindings (depth : Nat) (frame : FrameId) (bindings : List Value)
  | call (f : Value) (args : List Value)
  | builtin (b : Builtin) (args : List Value)
  | reply (r : Reply)

/-- What comes of a task; of clauses the expression that was chosen. -/
abbrev Task.Result : Task → Type
  | exprs _ _ _ => List Value
  | clauses _ _ _ => Option Value
  | bindings _ _ _ => Unit
  | _ => Value

inductive BigStep : (t : Task) → World → Except Error t.Result → World → Prop where
  | tooDeep (hdepth : maxEvalDepth ≤ depth) :
    BigStep (.expr depth frame e) w (.error .tooDeep) w
  | within (hdepth : depth < maxEvalDepth) (h : BigStep (.form depth frame e) w o w') :
    BigStep (.expr depth frame e) w o w'

  | symbol (h : w.store.lookup? frame name = some v) :
    BigStep (.form depth frame (.symbol name)) w (.ok v) w
  | unbound (h : w.store.lookup? frame name = none) :
    BigStep (.form depth frame (.symbol name)) w (.error (.unbound name)) w
  | nil : BigStep (.form depth frame (.list [])) w (.ok (.list [])) w
  | self (hsymbol : ∀ name, e ≠ .symbol name) (hlist : ∀ items, e ≠ .list items) :
    BigStep (.form depth frame e) w (.ok e) w

  | malformed {form : SpecialForm} (h : ¬ form.Accepts operands) :
    BigStep (.form depth frame (form.applied operands)) w (.error (.malformed form)) w
  | quote : BigStep (.form depth frame (SpecialForm.quote.applied [v])) w (.ok v) w
  | stringText : BigStep (.form depth frame (SpecialForm.string.applied [.string text])) w
    (.ok (.string text)) w
  | stringSymbol : BigStep (.form depth frame (SpecialForm.string.applied [.symbol text])) w
    (.ok (.string text)) w
  | lambda (hparams : Form.params ps = .ok names) :
    BigStep (.form depth frame (SpecialForm.lambda.applied [ps, body])) w
      (.ok (w.closure names body frame none)) w.newClosure
  | lambdaHelp (hparams : Form.params ps = .ok names)
    (hhelp : BigStep (.expr (depth + 1) frame help) w (.ok v) w₁) :
    BigStep (.form depth frame (SpecialForm.lambda.applied [ps, help, body])) w
      (.ok (w₁.closure names body frame (some v))) w₁.newClosure
  | lambdaParams (hrest : SpecialForm.lambda.Accepts (ps :: rest))
    (hparams : Form.params ps = .error error) :
    BigStep (.form depth frame (SpecialForm.lambda.applied (ps :: rest))) w (.error error) w
  | lambdaError (hparams : Form.params ps = .ok names)
    (hhelp : BigStep (.expr (depth + 1) frame help) w (.error error) w₁) :
    BigStep (.form depth frame (SpecialForm.lambda.applied [ps, help, body])) w (.error error) w₁
  | define (he : BigStep (.expr (depth + 1) frame e) w (.ok v) w₁) :
    BigStep (.form depth frame (SpecialForm.define.applied [.symbol name, e])) w
      (.ok (.symbol name)) (w₁.define frame name v)
  | defineTarget (htarget : ∀ name, target ≠ .symbol name) :
    BigStep (.form depth frame (SpecialForm.define.applied [target, e])) w
      (.error (.eval (.defineTarget target))) w
  | defineError (he : BigStep (.expr (depth + 1) frame e) w (.error error) w₁) :
    BigStep (.form depth frame (SpecialForm.define.applied [.symbol name, e])) w (.error error) w₁
  | cond (htests : BigStep (.clauses depth frame clauses) w (.ok (some e)) w₁)
    (htail : BigStep (.expr depth frame e) w₁ o w') :
    BigStep (.form depth frame (SpecialForm.cond.applied (SpecialForm.clauseList clauses))) w o w'
  | condError (htests : BigStep (.clauses depth frame clauses) w (.error error) w₁) :
    BigStep (.form depth frame (SpecialForm.cond.applied (SpecialForm.clauseList clauses))) w
      (.error error) w₁
  | condUnspecified (htests : BigStep (.clauses depth frame clauses) w (.ok none) w₁)
    (hlast : clauses.getLast? = some (test, e))
    (hagain : BigStep (.expr (depth + 1) frame test) w₁ (.ok v) w₂) (hv : v.isTruthy = true) :
    BigStep (.form depth frame (SpecialForm.cond.applied (SpecialForm.clauseList clauses))) w
      (.ok .unspecified) w₂
  | condNoClause (htests : BigStep (.clauses depth frame clauses) w (.ok none) w₁)
    (hlast : clauses.getLast? = some (test, e))
    (hagain : BigStep (.expr (depth + 1) frame test) w₁ (.ok v) w₂) (hv : v.isTruthy = false) :
    BigStep (.form depth frame (SpecialForm.cond.applied (SpecialForm.clauseList clauses))) w
      (.error (.eval (.noClause test))) w₂
  | condAgainError (htests : BigStep (.clauses depth frame clauses) w (.ok none) w₁)
    (hlast : clauses.getLast? = some (test, e))
    (hagain : BigStep (.expr (depth + 1) frame test) w₁ (.error error) w₂) :
    BigStep (.form depth frame (SpecialForm.cond.applied (SpecialForm.clauseList clauses))) w
      (.error error) w₂
  | ite (htest : BigStep (.expr (depth + 1) frame test) w (.ok v) w₁)
    (htail : BigStep (.expr depth frame (if v.isTruthy then thenE else elseE)) w₁ o w') :
    BigStep (.form depth frame (SpecialForm.ite.applied [test, thenE, elseE])) w o w'
  | iteError (htest : BigStep (.expr (depth + 1) frame test) w (.error error) w₁) :
    BigStep (.form depth frame (SpecialForm.ite.applied [test, thenE, elseE])) w (.error error) w₁
  | beginLast (htail : BigStep (.expr depth frame e) w o w') :
    BigStep (.form depth frame (SpecialForm.begin.applied [e])) w o w'
  | beginNext (hfirst : BigStep (.expr (depth + 1) frame e) w (.ok v) w₁)
    (hrest : BigStep (.form depth frame (SpecialForm.begin.applied (next :: rest))) w₁ o w') :
    BigStep (.form depth frame (SpecialForm.begin.applied (e :: next :: rest))) w o w'
  | beginError (hfirst : BigStep (.expr (depth + 1) frame e) w (.error error) w₁) :
    BigStep (.form depth frame (SpecialForm.begin.applied (e :: next :: rest))) w (.error error) w₁
  | list (hes : BigStep (.exprs depth frame es) w (.ok vs) w₁) :
    BigStep (.form depth frame (SpecialForm.list.applied es)) w (.ok (.list vs)) w₁
  | listError (hes : BigStep (.exprs depth frame es) w (.error error) w₁) :
    BigStep (.form depth frame (SpecialForm.list.applied es)) w (.error error) w₁
  | curry (hf : BigStep (.expr (depth + 1) frame f) w (.ok procedure) w₁)
    (harity : procedure.arity? = some n) (hgiven : given.length ≤ n)
    (hnames : names = Form.curriedParams (n - given.length)) :
    BigStep (.form depth frame (SpecialForm.curry.applied [.list (f :: given)])) w
      (.ok (w₁.closure names (.list (procedure :: given ++ names.map .symbol)) frame none))
      w₁.newClosure
  | curryType (hf : BigStep (.expr (depth + 1) frame f) w (.ok v) w₁) (harity : v.arity? = none) :
    BigStep (.form depth frame (SpecialForm.curry.applied [.list (f :: given)])) w
      (.error (.type (.curry v.kind))) w₁
  | curryArity (hf : BigStep (.expr (depth + 1) frame f) w (.ok procedure) w₁)
    (harity : procedure.arity? = some n) (hgiven : n < given.length) :
    BigStep (.form depth frame (SpecialForm.curry.applied [.list (f :: given)])) w
      (.error (.arity n given.length (some ("(curry " ++ (Value.list (f :: given)).text ++ ")"))))
      w₁
  | curryError (hf : BigStep (.expr (depth + 1) frame f) w (.error error) w₁) :
    BigStep (.form depth frame (SpecialForm.curry.applied [.list (f :: given)])) w (.error error) w₁
  | letOne {w : World}
    (hbinding : BigStep (.bindings depth w.nextFrame [.list [.symbol name, e]])
      (w.newFrame [] frame) (.ok ()) w₁)
    (htail : BigStep (.expr depth w.nextFrame body) w₁ o w') :
    BigStep (.form depth frame (SpecialForm.letIn.applied [.symbol name, e, body])) w o w'
  | letOneError {w : World}
    (hbinding : BigStep (.bindings depth w.nextFrame [.list [.symbol name, e]])
      (w.newFrame [] frame) (.error error) w₁) :
    BigStep (.form depth frame (SpecialForm.letIn.applied [.symbol name, e, body])) w
      (.error error) w₁
  | letMany {w : World}
    (hbindings : BigStep (.bindings depth w.nextFrame bindings) (w.newFrame [] frame) (.ok ()) w₁)
    (htail : BigStep (.expr depth w.nextFrame body) w₁ o w') :
    BigStep (.form depth frame (SpecialForm.letIn.applied [.list bindings, body])) w o w'
  | letManyError {w : World}
    (hbindings : BigStep (.bindings depth w.nextFrame bindings) (w.newFrame [] frame)
      (.error error) w₁) :
    BigStep (.form depth frame (SpecialForm.letIn.applied [.list bindings, body])) w
      (.error error) w₁
  | evalCode (he : BigStep (.expr (depth + 1) frame e) w (.ok code) w₁)
    (hcode : ∀ source, code ≠ .string source) (htail : BigStep (.expr depth frame code) w₁ o w') :
    BigStep (.form depth frame (SpecialForm.eval.applied [e])) w o w'
  | evalText (he : BigStep (.expr (depth + 1) frame e) w (.ok (.string source)) w₁)
    (hcode : Value.parse {} source = .ok code) (htail : BigStep (.expr depth frame code) w₁ o w') :
    BigStep (.form depth frame (SpecialForm.eval.applied [e])) w o w'
  | evalUnreadable (he : BigStep (.expr (depth + 1) frame e) w (.ok (.string source)) w₁)
    (hcode : Value.parse {} source = .error fault) :
    BigStep (.form depth frame (SpecialForm.eval.applied [e])) w (.error (.parse fault)) w₁
  | evalError (he : BigStep (.expr (depth + 1) frame e) w (.error error) w₁) :
    BigStep (.form depth frame (SpecialForm.eval.applied [e])) w (.error error) w₁
  | print (he : BigStep (.expr (depth + 1) frame e) w (.ok v) w₁) :
    BigStep (.form depth frame (SpecialForm.print.applied [e])) w (.ok v) (w₁.print v)
  | printError (he : BigStep (.expr (depth + 1) frame e) w (.error error) w₁) :
    BigStep (.form depth frame (SpecialForm.print.applied [e])) w (.error error) w₁

  | closure {w₂ : World} (hform : Form.form? f = none)
    (hf : BigStep (.expr (depth + 1) frame f) w (.ok (.closure c)) w₁)
    (hargs : BigStep (.exprs depth frame operands) w₁ (.ok args) w₂)
    (hcount : c.params.length = args.length)
    (htail : BigStep (.expr depth w₂.nextFrame c.body)
      (w₂.newFrame (c.params.zip args) c.frame) o w') :
    BigStep (.form depth frame (.list (f :: operands))) w o w'
  | closureArity (hform : Form.form? f = none)
    (hf : BigStep (.expr (depth + 1) frame f) w (.ok (.closure c)) w₁)
    (hargs : BigStep (.exprs depth frame operands) w₁ (.ok args) w₂)
    (hcount : c.params.length ≠ args.length) :
    BigStep (.form depth frame (.list (f :: operands))) w
      (.error (.arity c.params.length args.length (some (Form.lambdaText c)))) w₂
  | builtin (hform : Form.form? f = none)
    (hf : BigStep (.expr (depth + 1) frame f) w (.ok (.builtin b)) w₁)
    (hargs : BigStep (.exprs depth frame operands) w₁ (.ok args) w₂)
    (hrun : BigStep (.builtin b args) (w₂.atHostDepth (depth + 1)) o w') :
    BigStep (.form depth frame (.list (f :: operands))) w o (w'.atHostDepth w₂.hostDepth)
  | notProcedure (hform : Form.form? f = none)
    (hf : BigStep (.expr (depth + 1) frame f) w (.ok v) w₁) (harity : v.arity? = none)
    (hargs : BigStep (.exprs depth frame operands) w₁ (.ok args) w₂) :
    BigStep (.form depth frame (.list (f :: operands))) w (.error (.type (.notProcedure v))) w₂
  | headError (hform : Form.form? f = none)
    (hf : BigStep (.expr (depth + 1) frame f) w (.error error) w₁) :
    BigStep (.form depth frame (.list (f :: operands))) w (.error error) w₁
  | argumentError (hform : Form.form? f = none)
    (hf : BigStep (.expr (depth + 1) frame f) w (.ok v) w₁)
    (hargs : BigStep (.exprs depth frame operands) w₁ (.error error) w₂) :
    BigStep (.form depth frame (.list (f :: operands))) w (.error error) w₂

  | exprsNil : BigStep (.exprs depth frame []) w (.ok []) w
  | exprsCons (he : BigStep (.expr (depth + 1) frame e) w (.ok v) w₁)
    (hes : BigStep (.exprs depth frame es) w₁ (.ok vs) w₂) :
    BigStep (.exprs depth frame (e :: es)) w (.ok (v :: vs)) w₂
  | exprsError (he : BigStep (.expr (depth + 1) frame e) w (.error error) w₁) :
    BigStep (.exprs depth frame (e :: es)) w (.error error) w₁
  | exprsRest (he : BigStep (.expr (depth + 1) frame e) w (.ok v) w₁)
    (hes : BigStep (.exprs depth frame es) w₁ (.error error) w₂) :
    BigStep (.exprs depth frame (e :: es)) w (.error error) w₂

  | clausesNil : BigStep (.clauses depth frame []) w (.ok none) w
  | clausesFound (htest : BigStep (.expr (depth + 1) frame test) w (.ok v) w₁)
    (hv : v.isTruthy = true) :
    BigStep (.clauses depth frame ((test, e) :: clauses)) w (.ok (some e)) w₁
  | clausesNext (htest : BigStep (.expr (depth + 1) frame test) w (.ok v) w₁)
    (hv : v.isTruthy = false) (hrest : BigStep (.clauses depth frame clauses) w₁ o w') :
    BigStep (.clauses depth frame ((test, e) :: clauses)) w o w'
  | clausesError (htest : BigStep (.expr (depth + 1) frame test) w (.error error) w₁) :
    BigStep (.clauses depth frame ((test, e) :: clauses)) w (.error error) w₁

  | bindingsNil : BigStep (.bindings depth frame []) w (.ok ()) w
  | bindingsCons (he : BigStep (.expr (depth + 1) frame e) w (.ok v) w₁)
    (hrest : BigStep (.bindings depth frame rest) (w₁.bind frame name v) o w') :
    BigStep (.bindings depth frame (.list [.symbol name, e] :: rest)) w o w'
  | bindingsError (he : BigStep (.expr (depth + 1) frame e) w (.error error) w₁) :
    BigStep (.bindings depth frame (.list [.symbol name, e] :: rest)) w (.error error) w₁
  | bindingsMalformed (h : ∀ name e, binding ≠ .list [.symbol name, e]) :
    BigStep (.bindings depth frame (binding :: rest)) w (.error (.malformed .letIn)) w

  | callClosure {w w' : World} {o : Except Error Value} (hcount : c.params.length = args.length)
    (hbody : BigStep (.expr w.hostDepth w.nextFrame c.body)
      (w.newFrame (c.params.zip args) c.frame) o w') :
    BigStep (.call (.closure c) args) w o w'
  | callArity (hcount : c.params.length ≠ args.length) :
    BigStep (.call (.closure c) args) w
      (.error (.arity c.params.length args.length (some (Form.lambdaText c)))) w
  | callBuiltin (hrun : BigStep (.builtin b args) (w.atHostDepth (w.hostDepth + 1)) o w') :
    BigStep (.call (.builtin b) args) w o (w'.atHostDepth w.hostDepth)
  | callNotProcedure (harity : v.arity? = none) :
    BigStep (.call v args) w (.error (.type (.notProcedure v))) w

  | unary {op : Unary} (hrun : (op.run x).Ends w o w') : BigStep (.builtin (.unary op) [x]) w o w'
  | binary {op : Binary} (hop : op ≠ .readWithMacro)
    (hrun : ∀ apply, (op.run apply x y).Ends w o w') :
    BigStep (.builtin (.binary op) [x, y]) w o w'
  | readWithMacro (hread : (Run.ofExcept x.toText >>= Run.readExpression).Ends w (.ok e) w₁)
    (hcall : BigStep (.call expander [e]) w₁ o w') :
    BigStep (.builtin (.binary .readWithMacro) [x, expander]) w o w'
  | readWithMacroError
    (hread : (Run.ofExcept x.toText >>= Run.readExpression).Ends w (.error error) w₁) :
    BigStep (.builtin (.binary .readWithMacro) [x, expander]) w (.error error) w₁
  | composed (hg : BigStep (.call g [x]) w (.ok y) w₁)
    (hf : BigStep (.call f [y]) w₁ o w') :
    BigStep (.builtin (.composed f g) [x]) w o w'
  | composedError (hg : BigStep (.call g [x]) w (.error error) w₁) :
    BigStep (.builtin (.composed f g) [x]) w (.error error) w₁
  | host {o : Except Error Value} (hcount : args.length = arity)
    (hslot : w.host[slot]? = some operation)
    (hreply : BigStep (.reply (operation args)) w o w') :
    BigStep (.builtin (.host name arity slot) args) w o w'
  | hostMissing (hcount : args.length = arity) (hslot : w.host[slot]? = none) :
    BigStep (.builtin (.host name arity slot) args) w (.ok .unspecified) w
  | builtinArity {b : Builtin} (hcount : args.length ≠ b.arity) :
    BigStep (.builtin b args) w (.error (.arity b.arity args.length (some b.name))) w

  | finish : BigStep (.reply (.finish o)) w o w
  | call (hcall : BigStep (.call f args) w result w₁)
    (hresume : BigStep (.reply (resume result)) w₁ o w') :
    BigStep (.reply (.call f args resume)) w o w'

end Lisplet
