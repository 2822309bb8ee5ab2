import Transclusion.Debounce
import Transclusion.Session

namespace Transclusion

open Text

-- Drops what was included from any of the changed files. Every batch calls for another rendering,
-- since a failed inclusion is not in the cache and a new file may mend it.
def Cache.apply (c : Cache) (b : Batch) : List Text × Cache :=
  c.invalidateRefs (b.locations.map (·.text))

inductive Watch.Action
  | event (e : FileEvent)
  | tick (ms : Nat)
  | write (p : Path) (bytes : List UInt8)
  | delete (p : Path)

inductive WatchError
  | notFound (main : Location)
  | session (e : SessionError)
  | fault (f : Fault)
  -- The quiet period is no number.
  | unordered (typeName : Text)

def WatchError.message : WatchError → Text
  | notFound main => "File not found: ".toList ++ main.text
  | session e => e.message
  | fault f => f.message
  | unordered t => "'>=' not supported between instances of 'float' and ".toList ++ quoted t

-- How long it has to be quiet, and how that was written.
structure QuietPeriod where
  ms : Option Int
  shown : Text
  unordered : Option Text := none

namespace QuietPeriod

def ofInt (n : Int) : QuietPeriod where
  ms := some n
  shown := Text.ofInt n

-- The least whole number that is not below a finite number.
def ceil (x : Float) : Int :=
  if x < 0 then -((-x).floor.toUInt64.toNat : Int) else x.ceil.toUInt64.toNat

def ofToml (v : Toml) : QuietPeriod where
  shown := v.shown
  ms :=
    match v with
    | .int n => some n
    | .bool b => some b.toNat
    | .float x => if x.isNaN then none else if x.isFinite then some (ceil x) else if x < 0 then some 0 else none
    | _ => none
  unordered :=
    match v with
    | .int _ | .bool _ | .float _ => none
    | _ => some v.typeName

end QuietPeriod

structure Watcher where
  workspace : Workspace
  session : Session
  debounce : Debounce
  unordered : Option Text := none
  clock : Nat := 0
  dirty : Bool := true
  observing : Bool := false

-- What happens around one turn of the loop, before it has rendered and while it sleeps.
structure Watch.Span where
  early : List Watch.Action := []
  asleep : List Watch.Action := []

-- One turn of the loop: what was rendered, and the batch that came after it.
structure Watch.Turn where
  rendered : Option Text := none
  batch : Option Batch := none

namespace Watcher

variable (x : Watcher)

def act : Watch.Action → Except WatchError Watcher
  | .event e =>
    match x.debounce.record x.workspace x.clock e with
    | .ok debounce => .ok { x with debounce }
    | .error f => .error (.fault f)
  | .tick ms => .ok { x with clock := x.clock + ms }
  | .write p bytes => .ok { x with workspace := x.workspace.write p bytes }
  | .delete p =>
    match x.workspace.delete p with
    | .ok workspace => .ok { x with workspace }
    | .error f => .error (.fault f)

-- What happened before an action fails has happened.
def actAll : Watcher → List Watch.Action → Option WatchError × Watcher
  | x, [] => (none, x)
  | x, a :: as =>
    match x.act a with
    | .ok x => actAll x as
    | .error e => (some e, x)

-- What happens while the watcher is awake cannot stop it.
def undergo : Watcher → List Watch.Action → Watcher :=
  List.foldl fun x a => (x.act a).toOption.getD x

def deliver (b : Batch) : Watcher :=
  { x with session := { x.session with cache := (x.session.cache.apply b).2 }, dirty := true }

def settle (r : Option Batch × Debounce) : Option Batch × Watcher :=
  let x := { x with debounce := r.2 }
  match r.1 with
  | some b => (some b, x.deliver b)
  | none => (none, x)

def poll : Except WatchError (Option Batch × Watcher) :=
  match x.unordered with
  | some t =>
    if x.debounce.pending.isEmpty then .ok (none, x) else .error (.unordered t)
  | none => .ok (x.settle (x.debounce.poll x.clock))

def render : Except WatchError (Option Text) × Watcher :=
  if x.dirty then
    let (r, session) := x.session.render x.workspace {}
    ((r.map some).mapError .session, { x with session, dirty := false })
  else (.ok none, x)

-- One turn: render if something changed, sleep through the actions, and poll.
def turn (actions : List Watch.Action) : Watch.Turn × Option WatchError × Watcher :=
  match x.render with
  | (.error e, x) => ({}, some e, x)
  | (.ok rendered, x) =>
    match x.actAll actions with
    | (some e, x) => ({ rendered }, some e, x)
    | (none, x) =>
      match x.poll with
      | .error e => ({ rendered }, some e, x)
      | .ok (batch, x) => ({ rendered, batch }, none, x)

-- There is a turn for each span, unless one of them fails.
def loop : Watcher → List Watch.Span → List Watch.Turn × Option WatchError × Watcher
  | x, [] => ([], none, x)
  | x, s :: ss =>
    match (x.undergo s.early).turn s.asleep with
    | (t, some e, x) => ([t], some e, x)
    | (t, none, x) =>
      let (ts, e, x) := loop x ss
      (t :: ts, e, x)

-- On every way out, what is pending is delivered, the observer stops and the session closes.
def finish : Option Batch × Watcher :=
  let (b, x) := x.settle x.debounce.flush
  (b, { x with observing := false, session := x.session.close })

end Watcher

namespace Watch

-- The root directory is watched with all below it, and the directory of the document by itself.
def directories (w : Workspace) (root : Path) (main : Location) : Except WatchError (List (Location × Bool)) := do
  if !(← (w.exists? main.path).mapError .fault) then throw (.notFound main)
  let root ← (w.locate root).mapError .fault
  let found ← ([root, main.parent].eraseDups.filterM fun l => w.isDirectory l.path).mapError .fault
  .ok (found.map fun l => (l, l == root))

-- What happened between two looks at the files, as far as it is watched.
def changes (watched : List (Location × Bool)) (old new : FileTree) : List FileEvent :=
  let isWatched (l : Location) : Bool := watched.any fun (d, deep) => l.parent == d || deep && l.isUnder d
  let event? (kind : FileEvent.Kind) (l : Location) : Option FileEvent :=
    if isWatched l then some { kind, path := l.path } else none
  let came := (new.filesBelow {}).filterMap fun (parts, bytes) =>
    match old.node? ⟨parts⟩ with
    | some (.file before) => if before == bytes then none else event? .modified ⟨parts⟩
    | _ => event? .created ⟨parts⟩
  let went := (old.filesBelow {}).filterMap fun (parts, _) =>
    match new.node? ⟨parts⟩ with
    | some (.file _) => none
    | _ => event? .deleted ⟨parts⟩
  came ++ went

def suffixFor (main : Location) : Text :=
  (given (some main.suffix)).getD ".org".toList

def start (w : Workspace) (s : Session) (quiet : QuietPeriod) (clock : Nat) : Watcher where
  workspace := w
  session := s
  debounce := { quiet := quiet.ms, suffix := suffixFor s.main }
  unordered := quiet.unordered
  clock := clock

-- What the watcher tells about itself when it starts, is told to stop, and ends.
def opening (main : Location) (quiet : QuietPeriod) : Text :=
  "Watching ".toList ++ main.text ++ " (debounce: ".toList ++ quiet.shown ++
    "ms)\nPress Ctrl+C to stop\n".toList

def closing : Text :=
  "\nShutting down...\nWatch stopped\n".toList

end Watch

structure WatchRun where
  watched : List (Location × Bool) := []
  turns : List Watch.Turn := []
  lastBatch : Option Batch := none
  error : Option WatchError := none
  final : Watcher

namespace Watch

-- The signal to stop comes in the last span. After the loop, `late` happens before the observer stops.
def attend (x : Watcher) (root : Path) (spans : List Span) (late : List Action) : WatchRun :=
  match directories x.workspace root x.session.main with
  | .error e => { error := some e, final := x }
  | .ok watched =>
    let (turns, error, x) := { x with observing := true }.loop spans
    let (lastBatch, final) := (x.undergo late).finish
    { watched, turns, lastBatch, error, final }

-- All happens while the watcher sleeps. In its last sleep there is nothing but the signal to stop.
def run (x : Watcher) (root : Path) (script : List (List Action)) : WatchRun :=
  attend x root ((script ++ [[]]).map fun asleep => { asleep }) []

end Watch

def WatchRun.output (r : WatchRun) : Text :=
  r.turns.flatMap fun t => t.rendered.elim [] (· ++ ['\n'])

end Transclusion
