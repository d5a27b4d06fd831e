import Lisplet.Evaluation.Form

/-! Evaluation. The depth counts evaluations around this one that wait for it; an expression in tail
position is evaluated at the depth of the form it stands in, in a loop. The fuel bounds the number
of steps in a row, so that every run ends; more fuel never changes a result. -/
namespace Lisplet

/-- More steps than a program takes before it is stopped from outside. -/
def ampleFuel : Nat := Nat.pow 2 60

mutual

def eval : Nat → Evaluator
  | 0, _, _, _ => Run.outOfFuel
  | fuel + 1, depth, frame, e =>
    if maxEvalDepth ≤ depth then Run.fail .tooDeep
    else match e with
      | .symbol name => Run.lookup frame name
      | .list [] => pure .nil
      | .list (head :: operands) => do
        match ← Form.step (eval fuel) (apply fuel) depth frame head operands with
        | .done v => pure v
        | .tail e frame => eval fuel depth frame e
      | v => pure v

/-- Calls a procedure from within a builtin, or from outside the program. -/
def apply : Nat → Applier
  | 0, _, _ => Run.outOfFuel
  | fuel + 1, f, args => do
    let depth ← Run.hostDepth
    match f with
    | .closure c =>
      let frame ← Form.enter c args
      eval fuel depth frame c.body
    | .builtin b => Form.callBuiltin (apply fuel) b args (depth + 1)
    | other => Run.fail (.type (.notProcedure other))

end

end Lisplet
