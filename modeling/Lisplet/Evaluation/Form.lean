import Lisplet.Builtin

/-! The special forms and application, over a way to evaluate sub-expressions. A form either has a
value or leaves an expression in tail position, which takes its place at the same depth. All other
sub-expressions are evaluated one level deeper, from left to right. -/
namespace Lisplet

abbrev Evaluator := Nat → FrameId → Value → Run Value

inductive Step where
  | done (v : Value)
  | tail (expression : Value) (frame : FrameId)

namespace Form
open Run

def evalAll (eval : Evaluator) (depth : Nat) (frame : FrameId) : List Value → Run (List Value) :=
  List.mapM fun e => eval (depth + 1) frame e

def quote : List Value → Run Step
  | [v] => pure (.done v)
  | _ => fail (.malformed .quote)

def string : List Value → Run Step
  | [.string text] | [.symbol text] => pure (.done (.string text))
  | _ => fail (.malformed .string)

/-- The names in a list of parameters; `passed` holds those before it, last first. -/
def paramNames : List Value → List String → Except EvalFault (List String)
  | [], passed => .ok passed.reverse
  | .symbol name :: rest, passed =>
    if passed.contains name then .error (.duplicateParam name) else paramNames rest (name :: passed)
  | other :: _, _ => .error (.paramNotSymbol other)

def params (v : Value) : Except Error (List String) :=
  match v with
  | .list items => (paramNames items []).mapError .eval
  | v => .error (.eval (.paramsNotList v))

def lambda (eval : Evaluator) (depth : Nat) (frame : FrameId) : List Value → Run Step
  | [ps, body] => do
    let names ← ofExcept (params ps)
    return .done (← newClosure names body frame none)
  | [ps, help, body] => do
    let names ← ofExcept (params ps)
    let help ← eval (depth + 1) frame help
    return .done (← newClosure names body frame (some help))
  | _ => fail (.malformed .lambda)

/-- Binds in the root frame and yields the name. -/
def define (eval : Evaluator) (depth : Nat) (frame : FrameId) : List Value → Run Step
  | [.symbol name, e] => do
    let v ← eval (depth + 1) frame e
    bindGlobal frame name v
    return .done (.symbol name)
  | [other, _] => fail (.eval (.defineTarget other))
  | _ => fail (.malformed .define)

def clause? : Value → Option (Value × Value)
  | .list [test, e] => some (test, e)
  | _ => none

def firstClause (eval : Evaluator) (depth : Nat) (frame : FrameId) :
    List (Value × Value) → Run (Option Value)
  | [] => pure none
  | (test, e) :: clauses => do
    if (← eval (depth + 1) frame test).isTruthy then pure (some e)
    else firstClause eval depth frame clauses

/-- If no test holds, the last one is tried once more: if it still does not hold there is no value,
and if it does the value is unspecified. -/
def cond (eval : Evaluator) (depth : Nat) (frame : FrameId) (operands : List Value) : Run Step :=
  match operands.mapM clause? with
  | none => fail (.malformed .cond)
  | some clauses =>
    match clauses.getLast? with
    | none => fail (.malformed .cond)
    | some (lastTest, _) => do
      match ← firstClause eval depth frame clauses with
      | some e => return .tail e frame
      | none =>
        if (← eval (depth + 1) frame lastTest).isTruthy then return .done .unspecified
        else fail (.eval (.noClause lastTest))

def ite (eval : Evaluator) (depth : Nat) (frame : FrameId) : List Value → Run Step
  | [test, thenE, elseE] => do
    if (← eval (depth + 1) frame test).isTruthy then return .tail thenE frame
    else return .tail elseE frame
  | _ => fail (.malformed .ite)

def begin (eval : Evaluator) (depth : Nat) (frame : FrameId) : List Value → Run Step
  | [] => fail (.malformed .begin)
  | [e] => pure (.tail e frame)
  | e :: rest => do
    let _ ← eval (depth + 1) frame e
    begin eval depth frame rest

def list (eval : Evaluator) (depth : Nat) (frame : FrameId) (operands : List Value) : Run Step := do
  return .done (.list (← evalAll eval depth frame operands))

/-- The parameters of a curried procedure. No symbol in source text has a space in its name. -/
def curriedParams (count : Nat) : List String :=
  (List.range count).map fun i => "curried arg " ++ toString i

/-- A closure over the arguments that are missing. The procedure stands in its body as a value, so
it is evaluated once; the arguments given are evaluated at each call. -/
def curry (eval : Evaluator) (depth : Nat) (frame : FrameId) : List Value → Run Step
  | [.list (f :: given)] => do
    let procedure ← eval (depth + 1) frame f
    match procedure.arity? with
    | none => fail (.type (.curry procedure.kind))
    | some arity =>
      if arity < given.length then
        fail (.arity arity given.length
          (some ("(curry " ++ (Value.list (f :: given)).text ++ ")")))
      else do
        let names := curriedParams (arity - given.length)
        let body := Value.list (procedure :: given ++ names.map .symbol)
        return .done (← newClosure names body frame none)
  | _ => fail (.malformed .curry)

/-- Binds a name in a frame to the value of an expression. A closure is also bound in the frame it
was made in, so that it can call itself. -/
def bindValue (eval : Evaluator) (depth : Nat) (frame : FrameId) (name : String) (e : Value) :
    Run Unit := do
  let v ← eval (depth + 1) frame e
  match v with
  | .closure c => bind c.frame name v
  | _ => pure ()
  bind frame name v

def bindValues (eval : Evaluator) (depth : Nat) (frame : FrameId) : List Value → Run Unit
  | [] => pure ()
  | .list [.symbol name, e] :: rest => do
    bindValue eval depth frame name e
    bindValues eval depth frame rest
  | _ => fail (.malformed .letIn)

def letIn (eval : Evaluator) (depth : Nat) (frame : FrameId) : List Value → Run Step
  | [.symbol name, e, body] => do
    let inner ← newFrame [] (some frame)
    bindValue eval depth inner name e
    return .tail body inner
  | [.list bindings, body] => do
    let inner ← newFrame [] (some frame)
    bindValues eval depth inner bindings
    return .tail body inner
  | _ => fail (.malformed .letIn)

/-- Evaluates the value of an expression; a string is read first. -/
def eval (evalE : Evaluator) (depth : Nat) (frame : FrameId) : List Value → Run Step
  | [e] => do
    match ← evalE (depth + 1) frame e with
    | .string source => return .tail (← parsed (Value.parse {} source)) frame
    | code => return .tail code frame
  | _ => fail (.malformed .eval)

def print (eval : Evaluator) (depth : Nat) (frame : FrameId) : List Value → Run Step
  | [e] => do
    let v ← eval (depth + 1) frame e
    match v with
    | .string text => Run.print (text ++ "\n")
    | v => Run.print (v.text ++ "\n")
    return .done v
  | _ => fail (.malformed .print)

end Form

def Closure.callFrame (c : Closure) (args : List Value) (expression : Option String) :
    Run FrameId :=
  if c.params.length = args.length then Run.newFrame (c.params.zip args) (some c.frame)
  else Run.fail (.arity c.params.length args.length expression)

namespace Form

def lambdaText (c : Closure) : String :=
  "(lambda (" ++ " ".intercalate c.params ++ ") " ++ c.body.text ++ ")"

def enter (c : Closure) (args : List Value) : Run FrameId :=
  c.callFrame args (some (lambdaText c))

def callBuiltin (apply : Applier) (b : Builtin) (args : List Value) (depth : Nat) : Run Value :=
  Run.atHostDepth depth (b.run apply args)

def application (eval : Evaluator) (apply : Applier) (depth : Nat) (frame : FrameId) (f : Value)
    (operands : List Value) : Run Step := do
  let procedure ← eval (depth + 1) frame f
  let args ← evalAll eval depth frame operands
  match procedure with
  | .closure c => return .tail c.body (← enter c args)
  | .builtin b => return .done (← callBuiltin apply b args (depth + 1))
  | other => Run.fail (.type (.notProcedure other))

def form? : Value → Option SpecialForm
  | .symbol name => SpecialForm.ofName? name
  | _ => none

def step (eval : Evaluator) (apply : Applier) (depth : Nat) (frame : FrameId) (head : Value)
    (operands : List Value) : Run Step :=
  match form? head with
  | some .quote => quote operands
  | some .string => string operands
  | some .lambda => lambda eval depth frame operands
  | some .define => define eval depth frame operands
  | some .cond => cond eval depth frame operands
  | some .ite => ite eval depth frame operands
  | some .begin => begin eval depth frame operands
  | some .list => list eval depth frame operands
  | some .curry => curry eval depth frame operands
  | some .letIn => letIn eval depth frame operands
  | some .eval => Form.eval eval depth frame operands
  | some .print => print eval depth frame operands
  | none => application eval apply depth frame head operands

end Form

end Lisplet
