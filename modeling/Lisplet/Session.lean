import Lisplet.Evaluation
import Lisplet.Prelude
import Lisplet.Registry

/-! Sessions: one global frame in which source text is evaluated, expression by expression. -/
namespace Lisplet.Session
open Run

def globalFrame : FrameId := 0

def start (registry : Registry) (console : Console) (disk : Disk) : World where
  store := (Store.empty.newFrame registry.toList none).2
  console := console
  disk := disk
  host := registry.operations
  hostDepth := 0

variable (fuel : Nat) (dialect : Dialect)

def evalGlobal (e : Value) : Run Value := eval fuel 0 globalFrame e

def evalText (source : String) : Run Value := do
  evalGlobal fuel (← parsed (Value.parse dialect source))

/-- Evaluates what has been read, up to the first error; the value is that of the last
expression. -/
def loadItems : List (Except ParseError Value) → Value → Run Value
  | [], last => pure last
  | item :: items, _ => do
    let v ← evalGlobal fuel (← parsed item)
    loadItems items v

/-- Evaluates every expression of a text up to the first error; an empty text has the value nil. -/
def load (source : String) : Run Value := do
  let reader ← parsed (Reader.ofSource dialect source)
  loadItems fuel reader.items .nil

/-- Evaluates what has been read and collects what comes of each; `passed` holds what came of those
before, last first. -/
def runItems : List (Except ParseError Value) → List (Except Error Value) →
    Run (List (Except Error Value))
  | [], passed => pure passed.reverse
  | item :: items, passed => do
    let result ← attempt do evalGlobal fuel (← parsed item)
    runItems items (result :: passed)

/-- Evaluates every expression of a text, whether or not those before it failed. What cannot be read
ends the text with an error. -/
def run (source : String) : Run (List (Except Error Value)) :=
  match Reader.ofSource dialect source with
  | .ok reader => runItems fuel reader.items []
  | .error e => pure [.error (.parse e)]

def loadFile (path : String) : Run Value := do
  match ← readFile path with
  | .ok source => load fuel dialect source
  | .error fault => fail (.eval (.loadFile path fault))

/-- Evaluates the prelude; its comments are comments in every session. -/
def loadPrelude : Run Value := load fuel {} prelude

end Lisplet.Session
