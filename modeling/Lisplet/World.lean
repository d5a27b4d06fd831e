import Lisplet.Console
import Lisplet.Reader
import Lisplet.Store

/-! The world of a running program, and runs: what changes the world and ends with a result, with
an error, or without either because the steps allowed were too few. -/
namespace Lisplet

/-- What an operation of the host wants: to end, or to have a procedure called and go on with what
comes of it. -/
inductive Reply where
  | finish (result : Except Error Value)
  | call (f : Value) (args : List Value) (resume : Except Error Value → Reply)

abbrev HostOperation := List Value → Reply

structure World where
  store : Store
  console : Console
  disk : Disk
  host : Array HostOperation
  /-- The depth at which a procedure called by the running builtin continues. -/
  hostDepth : Nat

inductive Halt where
  | error (e : Error)
  | outOfFuel

abbrev Run := EStateM Halt World

namespace Run

def fail {α : Type} (e : Error) : Run α := throw (.error e)

def outOfFuel {α : Type} : Run α := throw .outOfFuel

def ofExcept {α : Type} : Except Error α → Run α
  | .ok a => pure a
  | .error e => fail e

def parsed {α : Type} : Except ParseError α → Run α
  | .ok a => pure a
  | .error e => fail (.parse e)

/-- What comes of a run, an error included. The world keeps what the run did to it. -/
def attempt {α : Type} (run : Run α) : Run (Except Error α) := fun world =>
  match run world with
  | .ok a world => .ok (.ok a) world
  | .error (.error e) world => .ok (.error e) world
  | .error .outOfFuel world => .error .outOfFuel world

def atHostDepth {α : Type} (depth : Nat) (run : Run α) : Run α := fun world =>
  let outer := world.hostDepth
  match run { world with hostDepth := depth } with
  | .ok a world => .ok a { world with hostDepth := outer }
  | .error halt world => .error halt { world with hostDepth := outer }

def ofWorld {α : Type} (f : World → α) : Run α := fun world => .ok (f world) world

def hostDepth : Run Nat := ofWorld (·.hostDepth)

def print (text : String) : Run Unit :=
  modify fun world => { world with console := world.console.print text }

def readLine? : Run (Option Line) :=
  modifyGet fun world =>
    match world.console.readLine? with
    | some (line, console) => (some line, { world with console })
    | none => (none, world)

def newFrame (bindings : List (String × Value)) (parent : Option FrameId) : Run FrameId :=
  modifyGet fun world =>
    let (id, store) := world.store.newFrame bindings parent
    (id, { world with store })

def newClosure (params : List String) (body : Value) (frame : FrameId) (help : Option Value) :
    Run Value :=
  modifyGet fun world =>
    let (id, store) := world.store.newClosure
    (.closure ⟨id, params, body, frame, help⟩, { world with store })

def lookup (frame : FrameId) (name : String) : Run Value := fun world =>
  match world.store.lookup? frame name with
  | some v => .ok v world
  | none => .error (.error (.unbound name)) world

def bind (frame : FrameId) (name : String) (v : Value) : Run Unit :=
  modify fun world => { world with store := world.store.bind frame name v }

def bindGlobal (frame : FrameId) (name : String) (v : Value) : Run Unit :=
  modify fun world => { world with store := world.store.bindGlobal frame name v }

def readFile (path : String) : Run (Except DiskFault String) := ofWorld (·.disk.read path)

def writeFile (path text : String) : Run (Except DiskFault Unit) :=
  modifyGet fun world =>
    match world.disk.write path text with
    | .ok disk => (.ok (), { world with disk })
    | .error fault => (.error fault, world)

def hostOperation? (slot : Nat) : Run (Option HostOperation) := ofWorld (·.host[slot]?)

end Run

end Lisplet
