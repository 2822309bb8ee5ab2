import Transclusion.Files.Workspace

namespace Transclusion

open Text

inductive FileEvent.Kind
  | created
  | modified
  | deleted
  | moved
  deriving DecidableEq

structure FileEvent where
  kind : FileEvent.Kind
  path : Path
  dest : Option Path := none
  isDirectory : Bool := false
  deriving DecidableEq

structure Batch where
  modified : List Location := []
  deleted : List Location := []
  deriving DecidableEq

namespace Batch

def isEmpty (b : Batch) : Bool :=
  b.modified.isEmpty && b.deleted.isEmpty

-- A file that was moved is gone from where it was.
def add (b : Batch) (k : FileEvent.Kind) (l : Location) : Batch :=
  match k with
  | .created | .modified => { b with modified := b.modified.insert l }
  | .deleted | .moved => { b with deleted := b.deleted.insert l }

def locations (b : Batch) : List Location :=
  b.modified ++ b.deleted.filter (!b.modified.contains ·)

end Batch

-- Events are held back until nothing has happened for a while, and are then delivered together. Times are
-- exact, in milliseconds. Without a quiet period nothing is delivered but by force.
structure Debounce where
  quiet : Option Int := some 150
  suffix : Text := ".org".toList
  pending : Batch := {}
  lastEvent : Rat := 0
  deriving DecidableEq

namespace Debounce

variable (d : Debounce)

-- Hidden files, backups, swap files and files of another kind.
def skips (name : Text) : Bool :=
  name.head? == some '.' || name.getLast? == some '~' || ".swp".toList.isSuffixOf name ||
    !d.suffix.isSuffixOf name

def record (w : Workspace) (now : Rat) (e : FileEvent) : Except Fault Debounce :=
  if e.isDirectory || d.skips e.path.name then .ok d
  else (w.locate e.path).map fun l => { d with pending := d.pending.add e.kind l, lastEvent := now }

-- There is no empty batch.
def flush : Option Batch × Debounce :=
  if d.pending.isEmpty then (none, d) else (some d.pending, { d with pending := {} })

def isQuiet (now : Rat) : Bool :=
  d.quiet.any fun q => q ≤ now - d.lastEvent

def poll (now : Rat) : Option Batch × Debounce :=
  if d.isQuiet now then d.flush else (none, d)

variable {d}

theorem flush_of_isEmpty (h : d.pending.isEmpty) : d.flush = (none, d) := by
  simp [flush, h]

theorem flush_of_not_isEmpty (h : d.pending.isEmpty = false) :
    d.flush = (some d.pending, { d with pending := {} }) := by
  simp [flush, h]

end Debounce

end Transclusion
