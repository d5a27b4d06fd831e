import Lisplet.Error
import Lisplet.Text.Blank

/-! Tokens. Source text is cut into parentheses, quote marks, string literals and atoms, each with
its byte offset. Between them stand spaces, line ends and comments. -/
namespace Lisplet

structure Dialect where
  /-- Whether a semicolon starts a comment that ends with the line. -/
  comments : Bool := true
deriving DecidableEq, Repr

inductive Lexeme where
  | opening
  | closing
  | quoteMark
  /-- The characters between the double quotes as they stand, escapes included. -/
  | string (text : String)
  | atom (text : String)
deriving DecidableEq, Repr

structure Token where
  lexeme : Lexeme
  offset : Nat
deriving DecidableEq, Repr

namespace Lexeme

def source : Lexeme → String
  | opening => "("
  | closing => ")"
  | quoteMark => "'"
  | string text => "\"" ++ text ++ "\""
  | atom text => text

end Lexeme

namespace Dialect

/-- Blanks, parentheses and quotes end an atom, and so does the start of a comment. -/
def isAtomChar (dialect : Dialect) (c : Char) : Bool :=
  !(Text.isBlank c || c == '(' || c == ')' || c == '\'' || c == '"' ||
    (dialect.comments && c == ';'))

end Dialect

namespace Token

def isGap (c : Char) : Bool := c == ' ' || c == '\t' || c == '\r' || c == '\n'

def isLineEnd (c : Char) : Bool := c == '\r' || c == '\n'

def byteCount (cs : List Char) : Nat := cs.foldl (fun n c => n + c.utf8Size) 0

/-- What follows a comment's text, which ends in front of a newline, or of a carriage return with a
newline after it. A carriage return alone does not end a line, so nothing ends that comment. -/
def afterComment? (cs : List Char) : Option (List Char) :=
  match cs.dropWhile (!isLineEnd ·) with
  | '\r' :: '\n' :: rest => some ('\r' :: '\n' :: rest)
  | '\r' :: _ => none
  | rest => some rest

theorem length_afterComment? {cs rest : List Char} (h : afterComment? cs = some rest) :
    rest.length ≤ cs.length := by
  have hle := (List.dropWhile_sublist (!isLineEnd ·) (l := cs)).length_le
  unfold afterComment? at h
  split at h
  · next heq => simp only [Option.some.injEq] at h; subst h; rw [← heq]; exact hle
  · simp at h
  · simp only [Option.some.injEq] at h; subst h; exact hle

def skipTrivia (dialect : Dialect) : List Char → Nat → List Char × Nat
  | [], offset => ([], offset)
  | c :: cs, offset =>
    if isGap c then skipTrivia dialect cs (offset + 1)
    else if dialect.comments && c == ';' then
      match _h : afterComment? cs with
      | some rest => skipTrivia dialect rest (offset + 1 + byteCount (cs.takeWhile (!isLineEnd ·)))
      | none => (c :: cs, offset)
    else (c :: cs, offset)
termination_by cs => cs.length
decreasing_by
  · simp
  · have := length_afterComment? _h
    simp; omega

theorem length_skipTrivia (dialect : Dialect) (cs : List Char) (offset : Nat) :
    (skipTrivia dialect cs offset).1.length ≤ cs.length := by
  fun_induction skipTrivia dialect cs offset with
  | case1 => simp
  | case2 _ _ _ _ ih => simp; omega
  | case3 _ _ _ _ _ _ h ih =>
    have := length_afterComment? h
    simp; omega
  | case4 => simp
  | case5 => simp

/-- The text up to the closing quote, after the characters in `passed`, and what follows the quote.
A backslash protects the character after it. -/
def closeString? : List Char → List Char → Option (List Char × List Char)
  | [], _ => none
  | '"' :: rest, passed => some (passed.reverse, rest)
  | ['\\'], _ => none
  | '\\' :: c :: rest, passed => closeString? rest (c :: '\\' :: passed)
  | c :: rest, passed => closeString? rest (c :: passed)

theorem length_closeString? {cs passed text rest : List Char}
    (h : closeString? cs passed = some (text, rest)) : rest.length < cs.length := by
  fun_induction closeString? cs passed with
  | case1 => simp at h
  | case2 => simp at h; simp [h.2]
  | case3 => simp at h
  | case4 _ _ _ ih => have := ih h; simp; omega
  | case5 _ _ _ _ _ _ ih => have := ih h; simp; omega

def lexeme? (dialect : Dialect) : List Char → Option (Lexeme × List Char)
  | [] => none
  | '(' :: rest => some (.opening, rest)
  | ')' :: rest => some (.closing, rest)
  | '\'' :: rest => some (.quoteMark, rest)
  | '"' :: rest =>
    (closeString? rest []).map fun (text, rest) => (.string (String.ofList text), rest)
  | c :: rest =>
    if dialect.isAtomChar c then
      some (.atom (String.ofList (c :: rest.takeWhile dialect.isAtomChar)),
        rest.dropWhile dialect.isAtomChar)
    else none

theorem length_lexeme? {dialect : Dialect} {cs rest : List Char} {lexeme : Lexeme}
    (h : lexeme? dialect cs = some (lexeme, rest)) : rest.length < cs.length := by
  unfold lexeme? at h
  split at h
  · simp at h
  · simp_all
  · simp_all
  · simp_all
  · simp only [Option.map_eq_some_iff, Prod.exists] at h
    obtain ⟨text, rest, h, heq⟩ := h
    have := length_closeString? h
    simp_all
    omega
  · next c tail _ _ _ _ =>
    split at h
    · have := (List.dropWhile_sublist dialect.isAtomChar (l := tail)).length_le
      simp at h
      simp [← h.2]
      omega
    · simp at h

def faultAt : List Char → ParseFault
  | '"' :: _ => .openString
  | _ => .strayCharacter

/-- Cuts the rest of a source text, from a byte offset at which no trivia stand, into tokens;
`passed` holds the tokens before it, last first. -/
def cut (dialect : Dialect) (source : String) (cs : List Char) (offset : Nat)
    (passed : List Token) : Except ParseError (List Token) :=
  if cs.isEmpty then .ok passed.reverse
  else match _h : lexeme? dialect cs with
    | none => .error (.ofFault (faultAt cs) source offset (some (String.ofList (cs.take 10))))
    | some (lexeme, rest) =>
      let next := skipTrivia dialect rest (offset + lexeme.source.utf8ByteSize)
      cut dialect source next.1 next.2 (⟨lexeme, offset⟩ :: passed)
termination_by cs.length
decreasing_by
  have := length_lexeme? _h
  have := length_skipTrivia dialect rest (offset + lexeme.source.utf8ByteSize)
  omega

def ofSource (dialect : Dialect) (source : String) : Except ParseError (List Token) :=
  let start := skipTrivia dialect source.toList 0
  cut dialect source start.1 start.2 []

end Token

end Lisplet
