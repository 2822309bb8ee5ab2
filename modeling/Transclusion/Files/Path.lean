import Transclusion.Library

namespace Transclusion

open Text

-- Two leading slashes are kept apart from one; more than two count as one.
inductive Path.Anchor
  | relative
  | slash
  | doubleSlash
  deriving DecidableEq

structure Path where
  anchor : Path.Anchor := .relative
  parts : List Text := []
  deriving DecidableEq

-- A place in the file tree, from the top down.
structure Location where
  parts : List Text := []
  deriving DecidableEq

namespace Path

def anchorOf (s : Text) : Anchor :=
  match (s.takeWhile (· == '/')).length with
  | 0 => .relative
  | 2 => .doubleSlash
  | _ => .slash

-- Empty parts and single dots mean nothing.
def ofText (s : Text) : Path where
  anchor := anchorOf s
  parts := (pieces '/' s).filter fun p => p ≠ [] ∧ p ≠ ['.']

def text (p : Path) : Text :=
  let names := List.intercalate ['/'] p.parts
  match p.anchor with
  | .relative => if names.isEmpty then ['.'] else names
  | .slash => '/' :: names
  | .doubleSlash => '/' :: '/' :: names

def name (p : Path) : Text :=
  p.parts.getLast?.getD []

def isRelative (p : Path) : Bool :=
  p.anchor = .relative

-- A path with an anchor leads away from where it is joined.
def join (p q : Path) : Path :=
  if q.isRelative then { p with parts := p.parts ++ q.parts } else q

@[simp] theorem join_of_anchored {p q : Path} (h : q.isRelative = false) : p.join q = q := by
  simp [join, h]

end Path

namespace Location

def path (l : Location) : Path :=
  ⟨.slash, l.parts⟩

def text (l : Location) : Text :=
  l.path.text

def name (l : Location) : Text :=
  l.parts.getLast?.getD []

def parent (l : Location) : Location :=
  ⟨l.parts.dropLast⟩

def child (l : Location) (name : Text) : Location :=
  ⟨l.parts ++ [name]⟩

-- `l` is `top` or lies below it, part by part.
def isUnder (l top : Location) : Bool :=
  top.parts.isPrefixOf l.parts

-- The last dot starts the suffix, unless it is the first or the last character of the name.
def suffix (l : Location) : Text :=
  let tail := (l.name.reverse.takeWhile (· != '.')).reverse
  if tail.isEmpty ∨ l.name.length ≤ tail.length + 1 then [] else '.' :: tail

-- Double dots go up, and stay at the top.
def follow (l : Location) (part : Text) : Location :=
  if part = "..".toList then l.parent else l.child part

-- Where `p` leads from `l`, without a look at what is there.
def walk (l : Location) (p : Path) : Location :=
  p.parts.foldl follow (if p.isRelative then l else {})

theorem isUnder_self (l : Location) : l.isUnder l := by
  simp [isUnder]

theorem isUnder_iff {l top : Location} : l.isUnder top ↔ ∃ rest, l.parts = top.parts ++ rest := by
  rw [isUnder, List.isPrefixOf_iff_prefix]
  exact exists_congr fun _ => eq_comm

end Location

end Transclusion
