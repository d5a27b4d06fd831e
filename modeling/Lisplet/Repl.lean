import Lisplet.Session

/-! The command line. Files named as arguments are loaded first; then every line of input is a
command or a text to be run, until the input ends or a command ends it. -/
namespace Lisplet.Repl
open Run

structure Exit where
  output : String
  errors : String
  code : Nat
  disk : Disk

def printLine (line : String) : Run Unit := print (line ++ "\n")

def printLines (lines : List String) : Run Unit := lines.forM printLine

def banner : List String :=
  ["Lispy interpreter",
    "Enter S-expressions like: (+ 1 2)",
    "Type :help for more commands, q or Ctrl+D to exit.",
    ""]

def helpText : List String :=
  ["Commands:",
    "  :help      - Show this help message",
    "  :env       - Show current environment bindings",
    "  q, :quit   - Exit the interpreter",
    "  Ctrl+D     - Exit the interpreter",
    "",
    "Special forms:",
    "  quote ('x), string, lambda, define, cond, if, begin, list,",
    "  curry, let, eval, print",
    "",
    "Examples:",
    "  (define square (lambda (x) \"squares x\" (* x x)))",
    "  (help square)",
    "  (map (curry (+ 1)) '(1 2 3))",
    "  (let fact (lambda (n acc) (if (< n 2) acc (fact (- n 1) (* n acc)))) (fact 10 1))",
    ""]

def column (name : String) : String :=
  "  " ++ name ++ String.ofList (List.replicate (15 - name.length) ' ')

def rows : List String → List String
  | a :: b :: c :: d :: rest => String.join (List.map column [a, b, c, d]) :: rows rest
  | [] => []
  | last => [String.join (last.map column)]

def environmentText (bindings : List (String × Value)) : List String :=
  if bindings.isEmpty then ["Environment is empty."]
  else
    let isBuiltin : String × Value → Bool := fun (_, v) => v.kind == .builtin
    let builtins := (bindings.filter isBuiltin).map Prod.fst
    let others := bindings.filter (!isBuiltin ·)
    ["Environment bindings (" ++ toString bindings.length ++ " total):", ""] ++
      (if builtins.isEmpty then []
        else ("Built-in functions (" ++ toString builtins.length ++ "):") ::
          rows builtins ++ [""]) ++
      (if others.isEmpty then []
        else ("Other values (" ++ toString others.length ++ "):") ::
          others.map fun (name, v) => "  " ++ name ++ " = " ++ v.text)

inductive Command where
  | nothing
  | help
  | environment
  | quit
  | run (source : String)

/-- Blanks around a command do not count. -/
def Command.ofLine (line : String) : Command :=
  match String.ofList (Text.trim line.toList) with
  | "" => nothing
  | ":help" => help
  | ":env" => environment
  | "q" | ":quit" | ":exit" => quit
  | source => run source

def showResult : Except Error Value → String
  | .ok v => v.text
  | .error e => "Error: " ++ e.text

/-- Carries out the commands on the lines to come, of which there are fewer than `lines`. The
result is the message with which the program has to give up, if there is one. -/
def serve (fuel : Nat) : (lines : Nat) → Run (Option String)
  | 0 => outOfFuel
  | lines + 1 => do
    match ← readLine? with
    | none => do
      printLine "Goodbye!"
      return none
    | some .garbled => return some DiskFault.notText.message
    | some (.text line) =>
      match Command.ofLine line with
      | .nothing => serve fuel lines
      | .help => do
        printLines helpText
        serve fuel lines
      | .environment => do
        printLines (environmentText (← ofWorld (·.store.visible Session.globalFrame)))
        serve fuel lines
      | .quit => do
        printLine "Goodbye!"
        return none
      | .run source => do
        printLines ((← Session.run fuel {} source).map showResult)
        serve fuel lines

def loadFiles (fuel : Nat) : List String → Run (Option String)
  | [] => pure none
  | path :: paths => do
    match ← attempt (Session.loadFile fuel {} path) with
    | .ok _ => loadFiles fuel paths
    | .error e => return some ("Error in " ++ path ++ ": " ++ e.text)

def program (fuel : Nat) (paths : List String) : Run (Option String) := do
  match ← attempt (Session.loadPrelude fuel) with
  | .error e => return some ("Failed to load the prelude: " ++ e.text)
  | .ok _ =>
    match ← loadFiles fuel paths with
    | some message => return some message
    | none => do
      printLines banner
      match ← serve fuel ((← ofWorld (·.console.input.length)) + 1) with
      | some message => return some ("Error: " ++ message)
      | none => return none

def runProgram (fuel : Nat) (workingDirectory : String) (paths : List String) (input : ByteArray)
    (disk : Disk) : Exit :=
  let world := Session.start (Registry.standard workingDirectory) (Console.ofInput input) disk
  match program fuel paths world with
  | .ok none world => ⟨world.console.output, "", 0, world.disk⟩
  | .ok (some message) world => ⟨world.console.output, message ++ "\n", 1, world.disk⟩
  | .error _ world => ⟨world.console.output, "", 1, world.disk⟩

end Lisplet.Repl
