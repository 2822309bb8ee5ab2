import Transclusion.CommandLine.Output

namespace Transclusion.Program

open Text CommandLine

def text (s : String) : Text :=
  s.toList

def print (stream : IO.FS.Stream) (s : Text) : IO Unit := do
  stream.putStr (String.ofList s)
  stream.flush

-- Neither links nor files that cannot be read are there.
def readWorkspace : IO Workspace := do
  let here ← IO.currentDir
  let cwd := ({} : Location).walk (.ofText (text here.toString))
  let home := ((← IO.getEnv "HOME").map fun h => ({} : Location).walk (.ofText (text h))).getD {}
  let mut tree := ({} : FileTree).addDirectories cwd
  let mut todo := [(here, cwd)]
  while !todo.isEmpty do
    let dirs := todo
    todo := []
    for (dir, l) in dirs do
      for entry in ← dir.readDir do
        let child := l.child (text entry.fileName)
        match (← entry.path.symlinkMetadata).type with
        | .dir =>
          tree := tree.add child .directory
          todo := (entry.path, child) :: todo
        | .file =>
          match ← (IO.FS.readBinFile entry.path).toBaseIO with
          | .ok bytes => tree := tree.add child (.file bytes.toList)
          | .error _ => pure ()
        | _ => pure ()
  return { tree, cwd, home }

def secret : IO Text := do
  return (← IO.getRandomBytes 32).toList.flatMap fun b => hexDigits 2 b.toNat

def fail (p : Problem) : IO UInt32 := do
  let o := Output.failed [] p
  print (← IO.getStderr) o.err
  return 1

-- Goes on until it fails or is stopped from outside.
partial def follow (watched : List (Location × Bool)) (x : Watcher) : IO UInt32 := do
  match x.render with
  | (.error e, _) => fail (.watch e)
  | (.ok rendered, x) =>
    if let some t := rendered then print (← IO.getStdout) (line t)
    IO.sleep 100
    let workspace ← readWorkspace
    let events := Watch.changes watched x.workspace.tree workspace.tree
    let x := { x with workspace, clock := ← IO.monoMsNow }
    match x.actAll (events.map .event) with
    | (some e, _) => fail (.watch e)
    | (none, x) =>
      match x.poll with
      | .error e => fail (.watch e)
      | .ok (_, x) => follow watched x

def watch (x : Surroundings) (g : General) (file : Text) (asked : Option Int) : IO UInt32 := do
  let started : Except Problem (Watcher × List (Location × Bool) × QuietPeriod) := do
    let settings ← (Settings.build x.workspace g.config g.root).mapError .settings
    let watcher ← startWatch settings x file asked
    let watched ← (Watch.directories x.workspace settings.root watcher.session.main).mapError .watch
    .ok (watcher, watched, quietPeriod settings asked)
  match started with
  | .error p => fail p
  | .ok (watcher, watched, period) =>
    if !g.quiet then print (← IO.getStderr) (Watch.opening watcher.session.main period)
    follow watched watcher

def run (args : List Text) : IO UInt32 := do
  match Invocation.ofArgs args with
  | .error e =>
    print (← if e = .usage then IO.getStderr else IO.getStdout) e.text
    return (Output.exit e).code.toUInt32
  | .ok i =>
    let x : Surroundings := { workspace := ← readWorkspace, clock := ← IO.monoMsNow, secret := ← secret }
    match i.command with
    | .watch file asked => watch x i.general file asked
    | _ =>
      let o := i.run x
      print (← IO.getStdout) o.out
      print (← IO.getStderr) o.err
      return o.code.toUInt32

end Transclusion.Program

def main (args : List String) : IO UInt32 :=
  Transclusion.Program.run (args.map String.toList)
