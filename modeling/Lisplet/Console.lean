/-! The terminal as a program sees it: lines that have not been read and text that has been
printed. -/
namespace Lisplet

/-- A line of input with its line end; one whose bytes are no text is only known to be there. -/
inductive Line where
  | text (content : String)
  | garbled

namespace Line

def ofBytes (bytes : List UInt8) : Line :=
  match String.fromUTF8? ⟨bytes.toArray⟩ with
  | some content => text content
  | none => garbled

/-- Cuts bytes after every newline; `started` holds the bytes of the line so far, last first. -/
def split : List UInt8 → List UInt8 → List Line → List Line
  | [], [], lines => lines.reverse
  | [], started, lines => (ofBytes started.reverse :: lines).reverse
  | byte :: bytes, started, lines =>
    if byte = 10 then split bytes [] (ofBytes (byte :: started).reverse :: lines)
    else split bytes (byte :: started) lines

end Line

structure Console where
  input : List Line
  output : String

namespace Console

def ofInput (bytes : ByteArray) : Console := ⟨Line.split bytes.toList [] [], ""⟩

def print (console : Console) (text : String) : Console :=
  { console with output := console.output ++ text }

def readLine? (console : Console) : Option (Line × Console) :=
  match console.input with
  | [] => none
  | line :: input => some (line, { console with input })

end Console

end Lisplet
