import Transclusion.Directive
import Transclusion.Library

namespace Transclusion

open Text

structure Included where
  content : Tree
  sourceId : Text
  source : Option Source
  target : Option Text
  deriving DecidableEq

-- What was included, by the identity of directives. The least recently used entry comes first, and is
-- the one that makes room.
structure Cache where
  capacity : Nat
  entries : List (Directive.Identity × Included) := []
  deriving DecidableEq

namespace Cache

structure NoCapacity where
  asked : Int

def NoCapacity.message (e : NoCapacity) : Text :=
  "max_size must be at least 1, got ".toList ++ ofInt e.asked

def ofSize (n : Int) : Except NoCapacity Cache :=
  if n < 1 then .error ⟨n⟩ else .ok { capacity := n.toNat }

variable (c : Cache) (d : Directive)

def keys : List Directive.Identity :=
  c.entries.map (·.1)

def length : Nat :=
  c.entries.length

def find? (k : Directive.Identity) : Option Included :=
  c.entries.lookup k

def without (k : Directive.Identity) : List (Directive.Identity × Included) :=
  c.entries.filter (·.1 != k)

-- The entry for `k` becomes the most recently used one.
def touch (k : Directive.Identity) (e : Included) : Cache :=
  { c with entries := c.without k ++ [(k, e)] }

def get (d : Directive) : Option Included × Cache :=
  match c.find? d.identity with
  | some e => (some e, c.touch d.identity e)
  | none => (none, c)

-- Only a new key makes another entry leave.
def makeRoom (k : Directive.Identity) : Cache :=
  if (c.find? k).isNone && c.capacity ≤ c.length then { c with entries := c.entries.tail } else c

def put (d : Directive) (e : Included) : Cache :=
  (c.makeRoom d.identity).touch d.identity e

-- Drops what was included from `sourceId`, and counts it.
def invalidate (sourceId : Text) : Nat × Cache :=
  let (stale, kept) := c.entries.partition (·.2.sourceId == sourceId)
  (stale.length, { c with entries := kept })

-- What was included from the document `ref`, each place once.
def sourceIdsFor (ref : Text) : List Text :=
  ((c.entries.filter fun e => e.2.source.any (·.id == ref)).map (·.2.sourceId)).eraseDups

def clear : Cache :=
  { c with entries := [] }

-- Drops what was included from any of the documents, and tells the places.
def invalidateRefs : Cache → List Text → List Text × Cache
  | c, [] => ([], c)
  | c, ref :: refs =>
    let ids := c.sourceIdsFor ref
    let (more, c') := invalidateRefs (ids.foldl (fun c id => (c.invalidate id).2) c) refs
    ((ids ++ more).eraseDups, c')

variable {c d}

@[simp] theorem length_clear : c.clear.length = 0 := rfl

theorem get_of_none (h : c.find? d.identity = none) : c.get d = (none, c) := by
  simp [get, h]

theorem get_of_some {e : Included} (h : c.find? d.identity = some e) :
    c.get d = (some e, c.touch d.identity e) := by
  simp [get, h]

end Cache

end Transclusion
