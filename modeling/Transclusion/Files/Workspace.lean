import Transclusion.Files.Tree

namespace Transclusion

open Text

structure Workspace where
  tree : FileTree := {}
  cwd : Location := {}
  home : Location := {}
  homes : List (Text × Location) := []

namespace Workspace

variable (w : Workspace)

-- A first part `~` or `~name` stands for a home.
def expandHome (p : Path) : Except Fault Path :=
  match p.anchor, p.parts with
  | .relative, ('~' :: name) :: parts =>
    match if name.isEmpty then some w.home else w.homes.lookup name with
    | some home => .ok ⟨.slash, home.parts ++ parts⟩
    | none => .error .noHome
  | _, _ => .ok p

def locate (p : Path) : Except Fault Location :=
  if p.parts.any (·.contains (Char.ofNat 0)) then .error .nulInPath else .ok (w.cwd.walk p)

def resolve (p : Path) : Except Fault Location := do
  w.locate (← w.expandHome p)

def isFile (p : Path) : Except Fault Bool :=
  w.tree.isFile w.cwd p

def isDirectory (p : Path) : Except Fault Bool :=
  w.tree.isDirectory w.cwd p

def exists? (p : Path) : Except Fault Bool :=
  w.tree.exists? w.cwd p

def content (p : Path) : Except Fault Text :=
  w.tree.content w.cwd p

def write (p : Path) (bytes : List UInt8) : Workspace :=
  { w with tree := w.tree.write (w.cwd.walk p) bytes }

def delete (p : Path) : Except Fault Workspace :=
  match w.tree.delete? (w.cwd.walk p) with
  | some tree => .ok { w with tree }
  | none => .error (.noSuchFile p.text)

end Workspace

def Location.source (l : Location) : Source where
  id := l.text
  name := l.name

end Transclusion
