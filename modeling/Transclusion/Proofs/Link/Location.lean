import Transclusion.Proofs.Link.Reading

namespace Transclusion.Link

variable {s : Text} {l l' : Link}

-- What the links ask for at the end of them may differ.
def SameTarget (l l' : Link) : Prop :=
  l.scheme = l'.scheme ∧ l.body = l'.body

-- Of a link with a scheme and one without, the second would have been read with that scheme.
theorem not_same_place (h : l.IsRead) (h' : l'.IsRead) (hs : l.scheme = none)
    (hs' : l'.scheme = some s) : l.body ≠ s ++ l'.body := by
  intro he
  have hp := (h'.isTidy.scheme s hs').left
  have ha : l.afterScheme = s ++ (l'.body ++ l.extra.elim [] ("::".toList ++ ·)) := by
    rw [afterScheme, he, List.append_assoc]
  -- A colon would have to follow the one at the end of the scheme, but then a cut is between them.
  have hh := h.isTidy.bare hs s _ hp ha
  rw [List.head?_append_of_ne_nil _ h'.isTidy.body_ne] at hh
  obtain ⟨r, hr⟩ := List.head?_eq_some_iff.mp hh
  obtain ⟨w, rfl, _⟩ := hp.exists_front
  exact h.isTidy.uncut ⟨w, r, by simp [he, hr]⟩

theorem IsRead.location_eq_iff (h : l.IsRead) (h' : l'.IsRead) :
    l.location = l'.location ↔ l.SameTarget l' := by
  constructor
  case mpr =>
    rintro ⟨hs, hb⟩
    rw [location, location, hs, hb]
  case mp =>
    intro he
    rw [location, location] at he
    cases hs : l.scheme <;> cases hs' : l'.scheme <;>
      simp only [hs, hs', Option.getD_none, Option.getD_some, List.nil_append] at he
    case none.none => exact ⟨hs.trans hs'.symm, he⟩
    case none.some => exact (not_same_place h h' hs hs' he).elim
    case some.none => exact (not_same_place h' h hs' hs he.symm).elim
    case some.some =>
      have hp := (h.isTidy.scheme _ hs).left
      have hp' := (h'.isTidy.scheme _ hs').left
      obtain ⟨rfl, hb⟩ := hp.append_inj hp' he
      exact ⟨hs.trans hs'.symm, hb⟩

end Transclusion.Link
