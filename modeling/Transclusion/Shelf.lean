import Transclusion.Expansion

namespace Transclusion

open Text

inductive Shelf.Place
  | beside (path : Text)
  | search (id : Text)
  | content (name : Text)
  | parser
  deriving DecidableEq

-- Documents that are held in memory. A fault makes every access at its place fail. A shelf that has no
-- parser of its own is never faulty there.
structure Shelf where
  files : List (Text × Text) := []
  ids : List (Text × Text) := []
  faults : List (Shelf.Place × Fault) := []
  scope : Option Text := some "mem".toList
  needsParent : Bool := false
  searchable : Bool := true
  ownParser : Bool := true

namespace Shelf

-- Replaces the entry for a key, or adds one.
def set {α β : Type} [BEq α] (k : α) (v : β) (xs : List (α × β)) : List (α × β) :=
  (k, v) :: xs.filter (·.1 != k)

def unset {α β : Type} [BEq α] (k : α) (xs : List (α × β)) : List (α × β) :=
  xs.filter (·.1 != k)

variable (s : Shelf)

def write (name text : Text) : Shelf :=
  { s with files := set name text s.files }

def delete (name : Text) : Shelf :=
  { s with files := unset name s.files }

def setFault (at_ : Place) (f : Fault) : Shelf :=
  { s with faults := set at_ f s.faults }

def heal (at_ : Place) : Shelf :=
  { s with faults := unset at_ s.faults }

def source (name : Text) : Source :=
  { id := "mem:".toList ++ name, name }

def attempt {α : Type} (place : Place) (r : Except Fault α) : Except Fault α :=
  match s.faults.lookup place with
  | some f => .error f
  | none => r

def beside (path : Text) : Except Fault Source :=
  let name := (after? "./".toList path).getD path
  s.attempt (.beside path)
    (if (s.files.lookup name).isSome then .ok (source name) else .error (.missing name))

-- A document that an id names may be missing.
def search (id : Text) : Except Fault (Option Source) :=
  s.attempt (.search id) (.ok ((s.ids.lookup id).map source))

def content (name : Text) : Except Fault Text :=
  s.attempt (.content name)
    (match s.files.lookup name with
      | some t => .ok t
      | none => .error (.unknownName name))

def parse (t : Text) : Except Fault Document :=
  if s.ownParser then s.attempt .parser (.ok (.ofText t)) else .ok (.ofText t)

def library : Library where
  scope := s.scope
  beside? := if s.needsParent then none else some s.beside
  search? := if s.searchable then some fun _ id => s.search id else none
  content src := s.content src.name
  parse := s.parse

end Shelf

end Transclusion
