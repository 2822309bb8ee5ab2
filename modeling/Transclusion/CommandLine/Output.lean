import Transclusion.CommandLine.Command
import Transclusion.Report
import Transclusion.Service
import Transclusion.Watch

namespace Transclusion

open Text

namespace CommandLine

-- `serving` is the server that was started, if any.
structure Output where
  code : Nat := 0
  out : Text := []
  err : Text := []
  serving : Option Serving := none

inductive Problem
  | notFound (file : Path)
  | settings (e : SettingsError)
  | session (e : SessionError)
  | watch (e : WatchError)

def Problem.message : Problem → Text
  | notFound file => "File not found: ".toList ++ file.text
  | settings e => e.message
  | session e => e.message
  | watch e => e.message

namespace Output

def failed (out : Text) (p : Problem) : Output where
  code := 1
  out := out
  err := "Error: ".toList ++ p.message ++ ['\n']

def ofExcept : Except Problem Output → Output
  | .ok o => o
  | .error p => failed [] p

def exit : Exit → Output
  | .usage => { code := 2 }
  | .help | .version => {}

end Output

def line (s : Text) : Text :=
  s ++ ['\n']

section Lines

def switches (d : Directive) : List Text :=
  (if d.noFirstHeading then [":no-first-heading".toList] else []) ++
    (if d.onlyContents then [":only-contents".toList] else []) ++
    (d.level.map fun n => ":level ".toList ++ ofInt n).toList ++
    (if d.excluded.isEmpty then []
      else [":exclude-elements (".toList ++ List.intercalate [' '] d.excluded ++ [')']])

def listed (i : Nat) (d : Directive) : Text :=
  trimEnd (List.intercalate ['\t'] [ofNat i, d.link.text, d.header, List.intercalate [' '] (switches d)])

def resolved (c : Call) : Text :=
  let link := c.task.directive.link.text
  match c.outcome with
  | .error f =>
    "✗ ".toList ++ link ++ ": [".toList ++ f.kind.name ++ "] ".toList ++ f.message ++
      (if f.retryable then " (retryable)".toList else [])
  | .ok s =>
    "✓ ".toList ++ link ++ ": ".toList ++ s.name ++ " from ".toList ++ s.included.source.elim [] (·.name) ++
      (given s.included.target).elim [] (" -> ".toList ++ ·)

def found (f : Finding) : Text :=
  f.severity.name ++ ": ".toList ++ f.message

end Lines

def isFailed (c : Call) : Bool :=
  match c.outcome with
  | .error _ => true
  | .ok _ => false

-- What a run depends on besides its words: the files, what happens while it watches, the time, and a
-- token that nobody can guess.
structure Surroundings where
  workspace : Workspace
  script : List (List Watch.Action) := []
  clock : Nat := 0
  secret : Text := []

section Commands

variable (w : Workspace) (settings : Settings)

def openFile (file : Text) : Except Problem Session := do
  let p := Path.ofText file
  let isFile ← (w.isFile p).mapError (.session ∘ .fault)
  if isFile then (Session.start w settings p).mapError (.session ∘ .fault) else .error (.notFound p)

def render (file : Text) (style : Style) : Except Problem Output := do
  let s ← openFile w settings file
  let t ← (s.render w style).1.mapError .session
  .ok { out := t }

def list (file : Text) (json : Bool) : Except Problem Output := do
  let s ← openFile w settings file
  let ds ← (s.directives w).mapError .session
  if json then .ok { out := line (Json.array (ds.map Directive.json)).indented }
  else .ok { out := (ds.zipIdx.map fun (d, i) => line (listed i d)).flatten }

def resolve (file : Text) (selection : Selection) : Except Problem Output := do
  let s ← openFile w settings file
  let ds ← ((s.directives w).bind (pick selection.index)).mapError .session
  let calls := (s.resolveEach w ds).1
  let code := if calls.any isFailed then 1 else 0
  if selection.json then .ok { code, out := line (Json.array (calls.map Call.json)).indented }
  else .ok { code, out := (calls.map fun c => line (resolved c)).flatten }

def check (quiet : Bool) (file : Text) : Except Problem Output := do
  let s ← openFile w settings file
  let fs ← (s.check w).1.mapError .session
  let allWell := if fs.isEmpty && !quiet then line "✓ All transclusions resolve".toList else []
  .ok
    { code := if fs.any (·.severity = .error) then 1 else 0
      out := (fs.map fun f => line (found f)).flatten ++ allWell }

-- A quiet period of nothing is the one in the settings.
def quietPeriod (asked : Option Int) : QuietPeriod :=
  match asked with
  | none | some 0 => .ofToml settings.debounce
  | some n => .ofInt n

def startWatch (x : Surroundings) (file : Text) (asked : Option Int) : Except Problem Watcher := do
  let s ← openFile x.workspace settings file
  .ok (Watch.start x.workspace s (quietPeriod settings asked) x.clock)

def watch (x : Surroundings) (quiet : Bool) (file : Text) (asked : Option Int) : Except Problem Output := do
  let watcher ← startWatch settings x file asked
  let r := Watch.run watcher settings.root x.script
  match r.error with
  | some e => .ok (.failed r.output (.watch e))
  | none =>
    let status := Watch.opening watcher.session.main (quietPeriod settings asked) ++ Watch.closing
    .ok { out := r.output, err := if quiet then [] else status }

def tokenLines (secret : Text) (s : Serving) : Text :=
  if s.token = "auto".toList then
    line ("Generated bearer token: ".toList ++ secret) ++
      line ("Use in requests: Authorization: Bearer ".toList ++ secret)
  else if s.token = "none".toList then
    line "Warning: Running without authentication. Only use in trusted environments.".toList
  else []

-- The token that the service asks for.
def tokenOf (secret : Text) (s : Serving) : Option Text :=
  if s.token = "auto".toList then some secret
  else if s.token = "none".toList then none
  else some s.token

def serve (x : Surroundings) (s : Serving) : Output :=
  match Service.start x.workspace settings (tokenOf x.secret s) with
  | .error f => .failed (tokenLines x.secret s) (.session (.fault f))
  | .ok _ =>
    { out :=
        tokenLines x.secret s ++
          line ("Starting server on http://".toList ++ s.host ++ [':'] ++ ofInt s.port)
      serving := some s }

end Commands

def Serving.title : Text :=
  "orgtransclude API".toList

-- The pages that describe the service are only there where everybody may use it.
def Serving.docs? (s : Serving) : Option Text :=
  if s.token = "none".toList then some "/docs".toList else none

end CommandLine

open CommandLine

def Invocation.run (x : Surroundings) (i : Invocation) : Output :=
  match Settings.build x.workspace i.general.config i.general.root with
  | .error e => .failed [] (.settings e)
  | .ok settings =>
    match i.command with
    | .render file style => .ofExcept (render x.workspace settings file style)
    | .list file json => .ofExcept (list x.workspace settings file json)
    | .resolve file selection => .ofExcept (CommandLine.resolve x.workspace settings file selection)
    | .check file => .ofExcept (check x.workspace settings i.general.quiet file)
    | .watch file asked => .ofExcept (watch settings x i.general.quiet file asked)
    | .serve s => serve settings x s

def CommandLine.Exit.text : Exit → Text
  | .version => line ("orgtransclude ".toList ++ Service.version)
  | _ =>
    line "usage: orgtx [--config FILE] [--root DIRECTORY] [-v] [-q] COMMAND ...".toList ++
      line "commands: render, list, resolve, check, watch, serve".toList

-- A whole command line.
def CommandLine.run (x : Surroundings) (args : List Text) : Output :=
  match Invocation.ofArgs args with
  | .ok i => i.run x
  | .error e => .exit e

end Transclusion
