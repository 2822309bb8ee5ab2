import Transclusion.CommandLine.Options
import Transclusion.Expansion
import Transclusion.Files.Path
import Transclusion.Text.Integer

namespace Transclusion

open Text

namespace CommandLine

structure General where
  config : Option Path := none
  root : Option Path := none
  verbose : Bool := false
  quiet : Bool := false
  deriving DecidableEq

-- Which directives are resolved, and whether the report is JSON.
structure Selection where
  index : Option Int := none
  json : Bool := false
  deriving DecidableEq

structure Serving where
  host : Text := "127.0.0.1".toList
  port : Int := 8765
  token : Text := "auto".toList
  cors : Bool := false
  deriving DecidableEq

inductive Command
  | render (file : Text) (style : Style)
  | list (file : Text) (json : Bool)
  | resolve (file : Text) (selection : Selection)
  | check (file : Text)
  | watch (file : Text) (debounce : Option Int)
  | serve (serving : Serving)

abbrev Choices (σ : Type) := List (Choice (Effect σ))

def helpChoices {σ : Type} : Choices σ :=
  [⟨"-h".toList, .leave .help⟩, ⟨"--help".toList, .leave .help⟩]

def generalChoices : Choices General :=
  helpChoices ++
    [⟨"--version".toList, .leave .version⟩,
      ⟨"--config".toList, .value fun v g => some { g with config := some (.ofText v) }⟩,
      ⟨"--root".toList, .value fun v g => some { g with root := some (.ofText v) }⟩,
      ⟨"-v".toList, .flag fun g => { g with verbose := true }⟩,
      ⟨"--verbose".toList, .flag fun g => { g with verbose := true }⟩,
      ⟨"-q".toList, .flag fun g => { g with quiet := true }⟩,
      ⟨"--quiet".toList, .flag fun g => { g with quiet := true }⟩]

def renderChoices : Choices Style :=
  [⟨"--keep-directives".toList, .flag fun s => { s with keepDirectives := true }⟩,
    ⟨"--headers".toList, .flag fun s => { s with headers := true }⟩]

def listChoices : Choices Bool :=
  [⟨"--json".toList, .flag fun _ => true⟩]

def resolveChoices : Choices Selection :=
  [⟨"--index".toList, .value fun v s => (integer? (unpadded v)).map fun n => { s with index := some n }⟩,
    ⟨"--json".toList, .flag fun s => { s with json := true }⟩]

def watchChoices : Choices (Option Int) :=
  [⟨"--debounce-ms".toList, .value fun v _ => (integer? (unpadded v)).map some⟩]

def serveChoices : Choices Serving :=
  [⟨"--host".toList, .value fun v s => some { s with host := v }⟩,
    ⟨"--port".toList, .value fun v s => (integer? (unpadded v)).map fun n => { s with port := n }⟩,
    ⟨"--token".toList, .value fun v s => some { s with token := v }⟩,
    ⟨"--cors".toList, .flag fun s => { s with cors := true }⟩]

-- All operands have to be there, and nothing else.
def readCommand {σ : Type} (operands : Nat) (choices : Choices σ) (options : σ) (args : List Text) :
    Except Exit (List Text × σ) := do
  let choices := helpChoices ++ choices
  let ws ← (Word.ofTexts? choices args).elim (.error .usage) .ok
  let (found, x) ← readAll choices operands ws { options }
  if found.length = operands && !x.spoiled then .ok (found, x.options) else .error .usage

def onFile {σ : Type} (choices : Choices σ) (options : σ) (f : Text → σ → Command) (args : List Text) :
    Except Exit Command := do
  match ← readCommand 1 choices options args with
  | ([file], s) => .ok (f file s)
  | _ => .error .usage

def commands : List (Text × (List Text → Except Exit Command)) :=
  [("render".toList, onFile renderChoices {} .render),
    ("list".toList, onFile listChoices false .list),
    ("resolve".toList, onFile resolveChoices {} .resolve),
    ("check".toList, onFile ([] : Choices Unit) () fun file _ => .check file),
    ("watch".toList, onFile watchChoices none .watch),
    ("serve".toList, fun args => (readCommand 0 serveChoices {} args).map fun (_, s) => .serve s)]

end CommandLine

open CommandLine

structure Invocation where
  general : General
  command : Command

-- The words after the name of a command are told apart twice: with the general options, so that none
-- of them may stand for two of those, and then with the options of the command.
def Invocation.ofArgs (args : List Text) : Except Exit Invocation := do
  let ws ← (Word.ofTexts? generalChoices args).elim (.error .usage) .ok
  let (ws, x) ← readLeading generalChoices ws { options := {} }
  match ws with
  | [] => .error .usage
  | w :: ws =>
    let read ← (commands.lookup w.text).elim (.error .usage) .ok
    let command ← read (ws.map (·.text))
    if x.spoiled then .error .usage else .ok { general := x.options, command }

end Transclusion
