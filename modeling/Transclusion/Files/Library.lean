import Transclusion.Files.Glob
import Transclusion.Files.IdLine
import Transclusion.Files.Workspace

namespace Transclusion

open Text

namespace Workspace

variable (w : Workspace)

def isHidden (parts : List Text) : Bool :=
  parts.any (·.head? = some '.')

-- The files that are searched for ids, in path order.
def searched (top : Location) (g : Glob) : List (List Text × List UInt8) :=
  ((w.tree.filesBelow top).filter fun (parts, _) => g.fits parts && !isHidden parts).mergeSort
    fun a b => !b.1.lex a.1 isBefore

def holdsId (id : Text) (bytes : List UInt8) : Bool :=
  match Utf8.decode bytes with
  | .ok s => (IdLine.ids (unixLines s)).contains id
  | .error _ => false

-- A file that cannot be read has no ids. The pattern is looked at only if there is a directory to search.
def findId (root : Path) (glob : Except Fault Glob) (id : Text) : Except Fault (Option Path) := do
  if ← w.isDirectory root then
    let g ← glob
    let found := (w.searched (w.cwd.walk root) g).find? fun (_, bytes) => holdsId id bytes
    .ok (found.map fun (parts, _) => { root with parts := root.parts ++ parts })
  else .ok none

def search (glob : Except Fault Glob) (scope id : Text) : Except Fault (Option Source) := do
  match ← w.findId (Path.ofText scope) glob id with
  | none => .ok none
  | some p => .ok (some (← w.resolve p).source)

def beside (main : Location) (path : Text) : Except Fault Source := do
  let p ← w.expandHome (Path.ofText path)
  let l ← w.locate (main.parent.path.join p)
  if ← w.isFile l.path then .ok l.source else .error (.missing ("No such file: ".toList ++ l.text))

def library (main root : Location) (glob : Except Fault Glob) : Library where
  scope := some root.text
  beside? := some (w.beside main)
  search? := some (w.search glob)
  content s := w.content (Path.ofText s.id)
  parse t := .ok (.ofText t)

end Workspace

end Transclusion
