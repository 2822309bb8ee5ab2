import Transclusion.Proofs.Outline.Occurrences
import Transclusion.Proofs.Resolution.Content
import Transclusion.Shelf

namespace Transclusion.Shelf

variable {s : Shelf} {d : Directive} {e : Included}

-- The keywords of all documents.
def keywords (s : Shelf) : List Keyword :=
  s.files.flatMap fun f => (Tree.whole (.ofText f.2)).keywords

theorem attempt_eq_ok {α : Type} {place : Place} {r : Except Fault α} {a : α}
    (h : s.attempt place r = .ok a) : r = .ok a := by
  rw [attempt] at h
  split at h
  · cases h
  · exact h

theorem mem_files_of_content {name text : Text} (h : s.content name = .ok text) :
    (name, text) ∈ s.files := by
  have hl := attempt_eq_ok h
  split at hl
  case h_1 hf =>
    cases hl
    have ⟨_, _, he, _⟩ := List.lookup_eq_some_iff.mp hf
    simp [he]
  case h_2 => cases hl

theorem parse_eq_ok {text : Text} {doc : Document} (h : s.parse text = .ok doc) :
    doc = .ofText text := by
  rw [parse] at h
  split at h
  · cases attempt_eq_ok h
    rfl
  · cases h
    rfl

theorem document_eq_ok {src : Source} {doc : Document} (h : s.library.document src = .ok doc) :
    ∃ text, (src.name, text) ∈ s.files ∧ doc = .ofText text := by
  rw [Library.document] at h
  split at h
  case h_1 => cases h
  case h_2 text hc =>
    exact ⟨text, mem_files_of_content hc, parse_eq_ok (mapError_eq_ok_iff.mp h)⟩

theorem keywords_fetch_subset (h : (s.library.fetch d).1 = .ok e) :
    e.content.keywords ⊆ s.keywords := by
  have ⟨_, _, hd, hk⟩ := Library.keywords_fetch_subset h
  obtain ⟨text, hf, rfl⟩ := document_eq_ok hd
  exact fun k hm => List.mem_flatMap.mpr ⟨_, hf, hk hm⟩

-- If no document has an overlong level, nothing that is included has.
theorem legible_fetch (hs : Legible s.keywords) (h : (s.library.fetch d).1 = .ok e) :
    Legible e.content.keywords :=
  fun k hk => hs k (keywords_fetch_subset h hk)

section Rooms

-- Two documents that include each other.
def rooms : Shelf where
  files :=
    [("hall.org".toList, "* Hall\n#+transclude: [[attic.org]]\n".toList),
      ("attic.org".toList, "dust\n#+transclude: [[hall.org::*Hall]]\n".toList)]

namespace rooms

def hall : Tree :=
  .whole (.ofText "* Hall\n#+transclude: [[attic.org]]\n".toList)

def renderer : Renderer where
  library := rooms.library
  limit := .ofInt 16

-- The only entry that there is space for is taken.
def cache : Cache :=
  (resolve rooms.library (.ofInt 16) [] { link := { body := "hall.org".toList } }
    { capacity := 1 }).cache

end rooms

end Rooms

end Transclusion.Shelf
