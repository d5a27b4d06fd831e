/-! Special forms: lists that are known by the symbol at their head and have rules of their own. -/
namespace Lisplet

inductive SpecialForm where
  | quote
  | string
  | lambda
  | define
  | cond
  | ite
  | begin
  | list
  | curry
  | letIn
  | eval
  | print
deriving DecidableEq, Repr

namespace SpecialForm

def name : SpecialForm → String
  | quote => "quote"
  | string => "string"
  | lambda => "lambda"
  | define => "define"
  | cond => "cond"
  | ite => "if"
  | begin => "begin"
  | list => "list"
  | curry => "curry"
  | letIn => "let"
  | eval => "eval"
  | print => "print"

def ofName? : String → Option SpecialForm
  | "quote" => some quote
  | "string" => some string
  | "lambda" => some lambda
  | "define" => some define
  | "cond" => some cond
  | "if" => some ite
  | "begin" => some begin
  | "list" => some list
  | "curry" => some curry
  | "let" => some letIn
  | "eval" => some eval
  | "print" => some print
  | _ => none

def shape : SpecialForm → String
  | quote => "(quote expr)"
  | string => "(string text)"
  | lambda => "(lambda (params...) [help] body)"
  | define => "(define name expr)"
  | cond => "(cond (test expr) ...)"
  | ite => "(if test then else)"
  | begin => "(begin expr ...)"
  | list => "(list expr ...)"
  | curry => "(curry (f args...))"
  | letIn => "(let name value body) or (let ((name value) ...) body)"
  | eval => "(eval expr)"
  | print => "(print expr)"

@[simp] theorem ofName?_name (form : SpecialForm) : ofName? form.name = some form := by
  cases form <;> rfl

end SpecialForm

end Lisplet
