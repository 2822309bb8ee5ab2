import Transclusion.Proofs.Resolution.Refusal
import Transclusion.Proofs.Shelf.Documents

namespace Transclusion.Shelf

-- What comes of a directive that meets a fault at the place.
def Place.failure (d : Directive) (f : Fault) : Place → Failure
  | beside _ | search _ => .ofLinkFault d f
  | content _ => .ofFault f
  | parser => .unreadable f.message

-- The same documents, failing elsewhere.
def withFaults (s : Shelf) (fs : List (Place × Fault)) : Shelf :=
  { s with faults := fs }

-- The places that a directive is resolved by, as far as it gets.
inductive Meets (s : Shelf) (d : Directive) : Place → Prop
  | beside (hd : d.link.scheme ≠ some "id:".toList) (hr : d.link.isRelative)
    (hs : s.needsParent = false) : Meets s d (.beside d.link.body)
  | search (hd : d.link.scheme = some "id:".toList) (hs : s.searchable) (hc : s.scope.isSome) :
    Meets s d (.search d.link.body)
  | content {src} (hf : (s.library.follow d).1 = .ok src) : Meets s d (.content src.name)
  | parser {src t} (hf : (s.library.follow d).1 = .ok src) (hc : s.content src.name = .ok t)
    (hs : s.ownParser) : Meets s d .parser

variable {s : Shelf} {d : Directive} {p : Place} {f : Fault}

section Following

theorem follow_beside (hd : d.link.scheme ≠ some "id:".toList) (hr : d.link.isRelative)
    (hs : s.needsParent = false) :
    s.library.follow d =
      ((s.beside d.link.body).mapError (.ofLinkFault d), [.beside d.link.body]) := by
  rw [Library.follow, if_neg hd, if_pos hr]
  simp [library, hs]

-- What a search for an id comes to.
def found (d : Directive) : Except Fault (Option Source) → Except Failure Source
  | .ok (some src) => .ok src
  | .ok none => .error (.notFound d.link.text)
  | .error f => .error (.ofLinkFault d f)

theorem follow_search {scope : Text} (hd : d.link.scheme = some "id:".toList) (hs : s.searchable)
    (hc : s.scope = some scope) :
    s.library.follow d = (found d (s.search d.link.body), [.search scope d.link.body]) := by
  rw [Library.follow, if_pos hd]
  simp only [library, hs, hc, if_true]
  rfl

-- A link that is neither an id nor relative leads nowhere, and so does one that nobody can follow.
theorem follow_nowhere (hb : d.link.scheme ≠ some "id:".toList → d.link.isRelative → s.needsParent)
    (hs : d.link.scheme = some "id:".toList → s.searchable → s.scope = none) :
    s.library.follow d = (.error (.notFound d.link.text), []) := by
  by_cases hd : d.link.scheme = some "id:".toList
  case pos =>
    rw [Library.follow, if_pos hd]
    cases hc : s.searchable
    case false => simp [library, hc]
    case true  => simp [library, hs hd hc]
  case neg =>
    rw [Library.follow, if_neg hd]
    cases hr : d.link.isRelative
    case false => rfl
    case true  => simp [library, hb hd hr]

end Following

section Failing

theorem attempt_of_fault {α : Type} (h : s.faults.lookup p = some f) (r : Except Fault α) :
    s.attempt p r = .error f := by
  simp only [attempt, h]

theorem fetch_of_follow_error {x : Failure} (h : (s.library.follow d).1 = .error x) :
    (s.library.fetch d).1 = .error x := by
  rcases hf : s.library.follow d with ⟨_, log⟩
  rw [hf] at h
  cases h
  simp only [Library.fetch, hf]

theorem fetch_of_document_error {src : Source} {x : Failure} (h : (s.library.follow d).1 = .ok src)
    (hd : s.library.document src = .error x) : (s.library.fetch d).1 = .error x := by
  rcases hf : s.library.follow d with ⟨_, log⟩
  rw [hf] at h
  cases h
  simp only [Library.fetch, hf, hd, bind, Except.bind]

-- A fault becomes a failure wherever it is met.
theorem fetch_of_fault (hm : s.Meets d p) (hf : s.faults.lookup p = some f) :
    (s.library.fetch d).1 = .error (p.failure d f) := by
  cases hm
  case beside hd hr hs =>
    rw [fetch_of_follow_error]
    rw [follow_beside hd hr hs, Shelf.beside, attempt_of_fault hf]
    rfl
  case search hd hs hc =>
    have ⟨scope, hc⟩ := Option.isSome_iff_exists.mp hc
    rw [fetch_of_follow_error]
    rw [follow_search hd hs hc, Shelf.search, attempt_of_fault hf]
    rfl
  case content src hs =>
    rw [fetch_of_document_error hs]
    simp only [Library.document, library, Shelf.content, attempt_of_fault hf]
    rfl
  case parser src t hs hc ho =>
    rw [fetch_of_document_error hs]
    simp only [Library.document, library, hc, parse, ho, attempt_of_fault hf]
    rfl

end Failing

section Unaffected

variable {fs : List (Place × Fault)}

theorem attempt_congr {α : Type} (h : fs.lookup p = s.faults.lookup p) (r : Except Fault α) :
    (s.withFaults fs).attempt p r = s.attempt p r := by
  simp only [attempt, withFaults, h]

theorem follow_congr (h : ∀ p, s.Meets d p → fs.lookup p = s.faults.lookup p) :
    (s.withFaults fs).library.follow d = s.library.follow d := by
  by_cases hb : d.link.scheme ≠ some "id:".toList ∧ d.link.isRelative ∧ s.needsParent = false
  case pos =>
    have ⟨hd, hr, hs⟩ := hb
    have hp := h _ (.beside hd hr hs)
    rw [follow_beside hd hr hs, follow_beside (s := s.withFaults fs) hd hr hs, Shelf.beside,
      Shelf.beside, attempt_congr hp]
    rfl
  case neg =>
    by_cases hi : d.link.scheme = some "id:".toList ∧ s.searchable ∧ s.scope.isSome
    case pos =>
      have ⟨hd, hs, hc⟩ := hi
      have hp := h _ (.search hd hs hc)
      have ⟨scope, hc⟩ := Option.isSome_iff_exists.mp hc
      rw [follow_search hd hs hc, follow_search (s := s.withFaults fs) hd hs hc, Shelf.search,
        Shelf.search, attempt_congr hp]
      rfl
    case neg =>
      have hb' : d.link.scheme ≠ some "id:".toList → d.link.isRelative → s.needsParent := by
        simpa using hb
      have hi' : d.link.scheme = some "id:".toList → s.searchable → s.scope = none := by
        simpa using hi
      rw [follow_nowhere hb' hi', follow_nowhere (s := s.withFaults fs) hb' hi']

theorem document_congr {src : Source} (hs : (s.library.follow d).1 = .ok src)
    (h : ∀ p, s.Meets d p → fs.lookup p = s.faults.lookup p) :
    (s.withFaults fs).library.document src = s.library.document src := by
  have hc : (s.withFaults fs).content src.name = s.content src.name := by
    rw [Shelf.content, Shelf.content, attempt_congr (h _ (.content hs))]
    rfl
  simp only [Library.document, library, hc]
  cases ht : s.content src.name
  case error => rfl
  case ok t =>
    have hp : (s.withFaults fs).parse t = s.parse t := by
      cases ho : s.ownParser
      case false => simp [parse, withFaults, ho]
      case true  => simp only [parse, attempt_congr (h _ (.parser hs ht ho))]; rfl
    simp only [hp]

-- Faults that are not met are as good as none.
theorem fetch_congr (h : ∀ p, s.Meets d p → fs.lookup p = s.faults.lookup p) :
    (s.withFaults fs).library.fetch d = s.library.fetch d := by
  rw [Library.fetch, Library.fetch, follow_congr h]
  rcases hf : s.library.follow d with ⟨_ | src, log⟩
  case error => rfl
  case ok    => simp only [document_congr (congrArg Prod.fst hf) h]

end Unaffected

end Transclusion.Shelf
