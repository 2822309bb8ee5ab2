import Transclusion.Proofs.Desk.Turns
import Transclusion.Proofs.Expansion.Locality
import Transclusion.Proofs.Shelf.Changes

namespace Transclusion.Desk

namespace Step

def keepsFaults : Step → Bool
  | fault .. | heal .. => false
  | _ => true

-- The names of the documents that are unsettled after the step, if those before it are `names`: a
-- change makes a document unsettled, and an invalidation settles it.
def unsettled (names : List Text) : Step → List Text
  | write name _ | delete name => name :: names
  | invalidateRefs refs => names.filter fun name => !refs.contains (Shelf.source name).id
  | _ => names

end Step

-- Nothing is asked for while a document is unsettled, and no fault comes or goes.
def Disciplined : (names : List Text) → List Step → Prop
  | _, [] => True
  | names, s :: ss =>
    s.keepsFaults ∧ (s.asks → names = []) ∧ Disciplined (s.unsettled names) ss

instance Disciplined.decidable : (names : List Text) → (ss : List Step) →
    Decidable (Disciplined names ss)
  | _, [] => inferInstanceAs (Decidable True)
  | names, s :: ss =>
    have := decidable (s.unsettled names) ss
    inferInstanceAs (Decidable (_ ∧ _ ∧ _))

-- Each entry is up to date or comes from one of the named documents.
def Settled (names : List Text) (d : Desk) : Prop :=
  d.cache.All fun k e =>
    0 < d.limit.bound ∧
      (Cache.Fits d.shelf.library k e ∨ ∃ name ∈ names, e.source = some (Shelf.source name))

variable {d : Desk} {s : Step} {ss : List Step} {names : List Text}

theorem Settled.of_empty (h : d.cache.entries = []) : d.Settled names :=
  Cache.All.of_empty h

-- A change unsettles nothing but what comes from the changed document.
theorem Settled.change {name : Text} {shelf : Shelf} (h : d.Settled names)
    (ha : Shelf.AlikeBut name d.shelf shelf) : Settled (name :: names) { d with shelf } := by
  refine h.imp fun k e hp => ⟨hp.left, ?_⟩
  rcases hp.right with hf | ⟨m, hm, he⟩
  · by_cases he : e.source = some (Shelf.source name)
    · exact .inr ⟨name, List.mem_cons_self, he⟩
    · exact .inl fun x hx => ha.fetch (hf x hx) he
  · exact .inr ⟨m, List.mem_cons_of_mem _ hm, he⟩

theorem Settled.step (h : d.Settled names) (hk : s.keepsFaults) (ha : s.asks → names = []) :
    (d.step s).desk.Settled (s.unsettled names) := by
  cases s
  case resolve | expand | render | check =>
    cases ha rfl
    rw [desk_of_asks rfl]
    exact all_of_asks rfl h fun _ _ hl hf => ⟨hl, .inl (Cache.fits_of_fetch hf)⟩
  case write name text => exact h.change (Shelf.alikeBut_write d.shelf name text)
  case delete name     => exact h.change (Shelf.alikeBut_delete d.shelf name)
  case invalidate id   => exact Cache.All.invalidate h id
  case clear           => exact Cache.All.clear
  case invalidateRefs refs =>
    refine (Cache.All.invalidateRefs h refs).imp fun k e hp => ⟨hp.left.left, ?_⟩
    refine hp.left.right.imp_right ?_
    rintro ⟨name, hm, he⟩
    exact ⟨name, List.mem_filter.mpr ⟨hm, by simpa using hp.right _ he⟩, he⟩
  case fault | heal => cases hk

section Rooms

open Transclusion.Shelf (rooms)

def rooms.desk : Desk where
  shelf := rooms
  limit := .ofInt 16
  cache := { capacity := 2 }

end Rooms

section Annex

open Text

-- Two documents, of which the second changes.
def annex (s : Text) : Desk where
  shelf := { files := [("fixed.org".toList, s), ("leaf.org".toList, "old\n".toList)] }
  limit := .ofInt 5
  cache := { capacity := 50 }

namespace annex

def fixed : Task :=
  ⟨{ link := { body := "./fixed.org".toList } }, []⟩

def leaf : Task :=
  ⟨{ link := { body := "./leaf.org".toList } }, []⟩

def hall : Tree :=
  .whole (.ofText "#+transclude: [[./fixed.org]]\n#+transclude: [[./leaf.org]]\n".toList)

def steps : List Step :=
  [.render [] {} hall, .write "leaf.org".toList "new\n".toList,
    .invalidateRefs ["mem:leaf.org".toList], .resolve [] leaf.directive]

variable (s : Text)

def given (t : Task) : Pending :=
  ⟨t, (annex s).shelf.library.fetch t.directive⟩

def first : Resolution :=
  .ofFetch fixed.directive (annex s).cache (given s fixed).given

def second : Resolution :=
  .ofFetch leaf.directive (first s).cache (given s leaf).given

def callOf (t : Task) (x : Resolution) : Call :=
  ⟨t, x.outcome, x.accesses⟩

def seen : List Moment :=
  [.starts fixed (given s fixed).given.2, .starts leaf (given s leaf).given.2,
    .ends (callOf fixed (first s))]

-- The second task has ended when its document has changed.
def late : Busy where
  shelf := (annex s).shelf.write "leaf.org".toList "new\n".toList
  limit := (annex s).limit
  cache := (second s).cache
  ready := [leaf]
  waiting := []
  history := seen s ++ [.ends (callOf leaf (second s))]
  overtaken := true

variable {s}

end annex

end Annex

end Transclusion.Desk
