import Transclusion.Files.Path
import Transclusion.Text.Lines

namespace Transclusion

open Text

inductive Node
  | file (bytes : List UInt8)
  | directory
  deriving DecidableEq

-- Whatever has a node also has a directory for each location above it. The top is always there.
structure FileTree where
  nodes : List (Location × Node) := []

-- What stands at the end of a path.
inductive Stat
  | found (l : Location) (n : Node)
  | missing
  | notADirectory
  | nameTooLong
  deriving DecidableEq

namespace FileTree

variable (t : FileTree)

def node? (l : Location) : Option Node :=
  if l.parts.isEmpty then some .directory else t.nodes.lookup l

-- A name takes at most 255 octets, and a whole path at most 4095.
def nameLimit : Nat := 255
def pathLimit : Nat := 4095

def octets (s : Text) : Nat :=
  s.foldl (fun n c => n + c.utf8Size) 0

-- Goes down part by part. Only in a directory can a name be looked up.
def statFrom (l : Location) (n : Node) : List Text → Stat
  | [] => .found l n
  | part :: parts =>
    match n with
    | .file _ => .notADirectory
    | .directory =>
      if nameLimit < octets part then .nameTooLong
      else
        let l := l.follow part
        match t.node? l with
        | none => .missing
        | some n => statFrom l n parts

def stat (cwd : Location) (p : Path) : Stat :=
  if pathLimit < octets p.text then .nameTooLong
  else if p.text.contains (Char.ofNat 0) then .missing
  else t.statFrom (if p.isRelative then cwd else {}) .directory p.parts

-- A name that is too long is an error, and all else that is not there is merely not there.
def lookUp (cwd : Location) (p : Path) : Except Fault (Option (Location × Node)) :=
  match t.stat cwd p with
  | .found l n => .ok (some (l, n))
  | .missing | .notADirectory => .ok none
  | .nameTooLong => .error (.nameTooLong p.text)

def isFile (cwd : Location) (p : Path) : Except Fault Bool :=
  (t.lookUp cwd p).map fun
    | some (_, .file _) => true
    | _ => false

def isDirectory (cwd : Location) (p : Path) : Except Fault Bool :=
  (t.lookUp cwd p).map fun
    | some (_, .directory) => true
    | _ => false

def exists? (cwd : Location) (p : Path) : Except Fault Bool :=
  (t.lookUp cwd p).map (·.isSome)

def bytes (cwd : Location) (p : Path) : Except Fault (List UInt8) :=
  match t.stat cwd p with
  | .found _ (.file bytes) => .ok bytes
  | .found _ .directory => .error (.isDirectory p.text)
  | .missing => .error (.noSuchFile p.text)
  | .notADirectory => .error (.notADirectory p.text)
  | .nameTooLong => .error (.nameTooLong p.text)

def content (cwd : Location) (p : Path) : Except Fault Text := do
  let bytes ← t.bytes cwd p
  let s ← (Utf8.decode bytes).mapError .malformed
  .ok (unixLines s)

-- The files below `top`, each with its parts below it.
def filesBelow (top : Location) : List (List Text × List UInt8) :=
  t.nodes.filterMap fun (l, n) =>
    match n with
    | .file bytes => if l.isUnder top then some (l.parts.drop top.parts.length, bytes) else none
    | .directory => none

def add (l : Location) (n : Node) : FileTree :=
  ⟨(l, n) :: t.nodes.filter (·.1 != l)⟩

def addDirectories (l : Location) : FileTree :=
  go {} l.parts t
where
  go (at_ : Location) : List Text → FileTree → FileTree
    | [], t => t
    | part :: parts, t =>
      let l := at_.child part
      go l parts (if (t.node? l).isNone then t.add l .directory else t)

def write (l : Location) (bytes : List UInt8) : FileTree :=
  (t.addDirectories l.parent).add l (.file bytes)

def delete? (l : Location) : Option FileTree :=
  match t.node? l with
  | some (.file _) => some ⟨t.nodes.filter (·.1 != l)⟩
  | _ => none

end FileTree

end Transclusion
