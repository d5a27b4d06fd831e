import Lisplet.Token

/-! The reader makes values of tokens. An atom is a number if it can be and a symbol otherwise; a
string literal stands for `(string text)` and a quoted expression for `(quote expression)`. What
has been begun and not ended is on a stack, and the height of the stack is the nesting depth. -/
namespace Lisplet

def Value.ofAtom (text : String) : Value :=
  match Number.ofAtom? text.toList with
  | some n => .number n
  | none => .symbol text

namespace Reader

/-- A construct whose end has not been met; of a list the elements so far, last first. -/
inductive Open where
  | quote
  | list (done : List Value)

/-- A fault and the token at which it was met; no token at the end of input. -/
abbrev Misread := ParseFault × Option Token

/-- Puts a finished expression into the innermost list, through any quote marks in front of it.
Outside every list it is the result. -/
def settle (v : Value) : List Open → Value ⊕ List Open
  | [] => .inl v
  | .quote :: around => settle v.quoted around
  | .list done :: around => .inr (.list (v :: done) :: around)

/-- Reads until the expression around all open constructs is finished. Tokens that were not used
are returned also on failure: a closing parenthesis without an opening one has been used, a token
beyond the greatest depth has not. -/
def readFrom : List Token → List Open → Except Misread Value × List Token
  | [], _ => (.error (.endOfInput, none), [])
  | token :: rest, around =>
    match token.lexeme, around with
    | .closing, .list done :: outer =>
      match settle (.list done.reverse) outer with
      | .inl v => (.ok v, rest)
      | .inr around => readFrom rest around
    | lexeme, around =>
      if maxReadDepth ≤ around.length then (.error (.tooDeep, some token), token :: rest)
      else match lexeme with
        | .opening => readFrom rest (.list [] :: around)
        | .quoteMark => readFrom rest (.quote :: around)
        | .closing => (.error (.closing, some token), rest)
        | .string text =>
          match settle (.literal text) around with
          | .inl v => (.ok v, rest)
          | .inr around => readFrom rest around
        | .atom text =>
          match settle (.ofAtom text) around with
          | .inl v => (.ok v, rest)
          | .inr around => readFrom rest around

def misread (source : String) : Misread → ParseError
  | (fault, some token) => .ofFault fault source token.offset (some token.lexeme.source)
  | (fault, none) => .ofFault fault source source.utf8ByteSize none

end Reader

/-- A reader over a source text: the tokens it has not used, and whether it has met an error. -/
structure Reader where
  source : String
  rest : List Token
  failed : Bool

namespace Reader

def ofSource (dialect : Dialect) (source : String) : Except ParseError Reader :=
  (Token.ofSource dialect source).map fun tokens => ⟨source, tokens, false⟩

def atEnd (reader : Reader) : Bool := reader.rest.isEmpty

/-- Reads one expression from where the reader stands, whether or not an error was met before. -/
def read (reader : Reader) : Except ParseError Value × Reader :=
  let (result, rest) := readFrom reader.rest []
  (result.mapError (misread reader.source), { reader with rest })

def next (reader : Reader) : Option (Except ParseError Value) × Reader :=
  if reader.failed || reader.atEnd then (none, reader)
  else
    let (result, reader) := reader.read
    (some result, { reader with failed := !result.isOk })

theorem readFrom_suffix (tokens : List Token) (around : List Open) :
    (readFrom tokens around).2 <:+ tokens := by
  fun_induction readFrom tokens around <;>
    first
    | exact List.suffix_refl _
    | exact List.suffix_cons _ _
    | exact List.IsSuffix.trans (by assumption) (List.suffix_cons _ _)

theorem length_readFrom_lt (token : Token) (rest : List Token) :
    (readFrom (token :: rest) []).2.length < (token :: rest).length := by
  have step (tokens : List Token) (around : List Open) :
      (readFrom tokens around).2.length ≤ tokens.length :=
    (readFrom_suffix tokens around).length_le
  obtain ⟨lexeme, offset⟩ := token
  cases lexeme with
  | opening => exact Nat.lt_succ_of_le (step rest [.list []])
  | quoteMark => exact Nat.lt_succ_of_le (step rest [.quote])
  | closing => exact Nat.lt_succ_self _
  | string text => exact Nat.lt_succ_self _
  | atom text => exact Nat.lt_succ_self _

/-- What `next` yields one after the other for these tokens, after what has been `passed`, last
first: expressions, and an error if there is one. -/
def collect (source : String) (tokens : List Token) (passed : List (Except ParseError Value)) :
    List (Except ParseError Value) :=
  match tokens with
  | [] => passed.reverse
  | token :: rest =>
    match _h : readFrom (token :: rest) [] with
    | (.ok v, unused) => collect source unused (.ok v :: passed)
    | (.error fault, _) => (.error (misread source fault) :: passed).reverse
termination_by tokens.length
decreasing_by
  have := length_readFrom_lt token rest
  rw [_h] at this
  exact this

def items (reader : Reader) : List (Except ParseError Value) :=
  if reader.failed then [] else collect reader.source reader.rest []

end Reader

def Value.parse (dialect : Dialect) (source : String) : Except ParseError Value := do
  let reader ← Reader.ofSource dialect source
  match reader.read with
  | (.error e, _) => throw e
  | (.ok v, reader) =>
    match reader.rest with
    | [] => return v
    | token :: _ => throw (Reader.misread source (.trailing, some token))

def Value.parseAll (dialect : Dialect) (source : String) : Except ParseError (List Value) := do
  let reader ← Reader.ofSource dialect source
  reader.items.mapM id

end Lisplet
