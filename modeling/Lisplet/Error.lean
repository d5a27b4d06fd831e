import Lisplet.Disk
import Lisplet.SpecialForm
import Lisplet.Text.Excerpt
import Lisplet.Value.Printer

/-! Everything that can go wrong, by cause. The wording of each cause stands in one place. -/
namespace Lisplet

def maxReadDepth : Nat := 512

/-- How deeply evaluations that are not in tail position may nest. -/
def maxEvalDepth : Nat := 256

inductive ParseErrorKind where
  | unexpectedEnd
  | unexpectedClose
  | incomplete
  | tooDeeplyNested
  | trailingContent
deriving DecidableEq, Repr

inductive ParseFault where
  | endOfInput
  | closing
  | openString
  | strayCharacter
  | tooDeep
  | trailing
deriving DecidableEq, Repr

namespace ParseFault

def kind : ParseFault → ParseErrorKind
  | endOfInput => .unexpectedEnd
  | closing => .unexpectedClose
  | openString => .incomplete
  | strayCharacter => .unexpectedEnd
  | tooDeep => .tooDeeplyNested
  | trailing => .trailingContent

def message : ParseFault → String
  | endOfInput => "unexpected end of input"
  | closing => "unexpected closing parenthesis"
  | openString => "unterminated string literal"
  | strayCharacter => "unrecognized input"
  | tooDeep => "Expression too deeply nested (max depth: " ++ toString maxReadDepth ++ ")"
  | trailing => "Unexpected remaining input after expression"

end ParseFault

structure ParseError where
  kind : ParseErrorKind
  message : String
  context : Option String
  found : Option String
deriving DecidableEq, Repr

namespace ParseError

def within (kind : ParseErrorKind) (message source : String) (offset : Nat)
    (found : Option String) : ParseError :=
  ⟨kind, message, some (Text.excerpt source offset), found⟩

def ofFault (fault : ParseFault) (source : String) (offset : Nat) (found : Option String) :
    ParseError :=
  within fault.kind fault.message source offset found

def text (e : ParseError) : String :=
  "ParseError: " ++ e.message ++ e.found.elim "" ("\nFound: " ++ ·) ++
    e.context.elim "" ("\nContext: " ++ ·)

end ParseError

inductive EvalFault where
  | arithmetic (fault : ArithmeticFault)
  | malformed (form : SpecialForm)
  | paramsNotList (params : Value)
  | paramNotSymbol (param : Value)
  | duplicateParam (name : String)
  | defineTarget (target : Value)
  | noClause (lastTest : Value)
  | tooDeep
  | sleep (seconds : Float)
  | readLine (fault : DiskFault)
  | readFile (path : String) (fault : DiskFault)
  | writeFile (path : String) (fault : DiskFault)
  | loadFile (path : String) (fault : DiskFault)
  | reported (message : String)

def EvalFault.message : EvalFault → String
  | arithmetic fault => fault.message
  | malformed form => "Malformed special form: expected " ++ form.shape
  | paramsNotList params => "Lambda parameters must be a list, got " ++ params.text
  | paramNotSymbol param => "Lambda parameters must be symbols, got " ++ param.text
  | duplicateParam name => "Duplicate parameter name: " ++ name
  | defineTarget target => "define requires a symbol name, got " ++ target.text
  | noClause lastTest => "cond: no clause matched (last test: " ++ lastTest.text ++ ")"
  | tooDeep => "Evaluation depth limit exceeded (max: " ++ toString maxEvalDepth ++ ")"
  | sleep seconds => "sleep: invalid duration " ++ RealStyle.prose.text seconds
  | readLine fault => "read: " ++ fault.message
  | readFile path fault => "read-file " ++ path ++ ": " ++ fault.message
  | writeFile path fault => "write-file " ++ path ++ ": " ++ fault.message
  | loadFile path fault => "cannot read " ++ path ++ ": " ++ fault.message
  | reported message => message

inductive TypeFault where
  | expected (wanted got : Kind)
  | comparison (comparison : Comparison) (left right : Kind)
  | addition (left right : Kind)
  | curry (got : Kind)
  | compose (got : Kind)
  | notProcedure (value : Value)
  | reported (message : String)

def TypeFault.message : TypeFault → String
  | expected wanted got => "expected " ++ wanted.name ++ ", got " ++ got.name
  | comparison c left right => c.symbol ++ " cannot compare " ++ left.name ++ " with " ++ right.name
  | addition left right => "+ cannot combine " ++ left.name ++ " with " ++ right.name
  | curry got => "curry expects a procedure, got " ++ got.name
  | compose got => "compose expects procedures, got " ++ got.name
  | notProcedure value => "Cannot apply non-procedure: " ++ value.text
  | reported message => message

inductive Error where
  | parse (e : ParseError)
  | eval (fault : EvalFault)
  | type (fault : TypeFault)
  | unbound (name : String)
  | arity (expected got : Nat) (expression : Option String)

namespace Error

def text : Error → String
  | parse e => e.text
  | eval fault => "EvaluationError: " ++ fault.message
  | type fault => "Type error: " ++ fault.message
  | unbound name => "UnboundSymbolError: " ++ name
  | arity expected got (some expression) =>
    "ArityError: expression " ++ expression ++ ": expected " ++ toString expected ++
      " arguments, got " ++ toString got
  | arity expected got none =>
    "ArityError: function expected " ++ toString expected ++ " arguments but got " ++ toString got

def malformed (form : SpecialForm) : Error := eval (.malformed form)

def tooDeep : Error := eval .tooDeep

def ofArithmetic (fault : ArithmeticFault) : Error := eval (.arithmetic fault)

end Error

end Lisplet
