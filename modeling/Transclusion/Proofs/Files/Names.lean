import Transclusion.Proofs.Text.Pieces
import Transclusion.Proofs.Files.Locations

namespace Transclusion

open Text

namespace Text

-- The name of a file or directory, if it is not that of the directory above.
structure IsPart (s : Text) : Prop where
  ne_nil : s ≠ []
  ne_dot : s ≠ ['.']
  no_slash : '/' ∉ s

instance (s : Text) : Decidable (IsPart s) :=
  decidable_of_iff (s ≠ [] ∧ s ≠ ['.'] ∧ '/' ∉ s)
    ⟨fun ⟨hn, hd, hs⟩ => ⟨hn, hd, hs⟩, fun h => ⟨h.ne_nil, h.ne_dot, h.no_slash⟩⟩

end Text

namespace Path

-- Each part is a name.
def IsNamed (p : Path) : Prop :=
  ∀ s ∈ p.parts, IsPart s

variable {p q : Path}

theorem isNamed_ofText (s : Text) : (ofText s).IsNamed := by
  intro p hp
  have ⟨hm, hn⟩ := List.mem_filter.mp hp
  have ⟨hn, hd⟩ := of_decide_eq_true hn
  exact ⟨hn, hd, not_mem_of_mem_pieces hm⟩

theorem IsNamed.join (hp : p.IsNamed) (hq : q.IsNamed) : (p.join q).IsNamed := by
  rw [Path.join]
  split
  case isTrue  => exact fun s hs => (List.mem_append.mp hs).elim (hp s) (hq s)
  case isFalse => exact hq

end Path

namespace Location

-- The way down to the location is a path of names.
structure IsNamed (l : Location) : Prop where
  names : ∀ s ∈ l.parts, IsPart s
  no_dots : "..".toList ∉ l.parts

instance (l : Location) : Decidable l.IsNamed :=
  decidable_of_iff (∀ s ∈ l.parts, IsPart s ∧ s ≠ "..".toList)
    ⟨fun h => ⟨fun s hs => (h s hs).left, fun hd => (h _ hd).right rfl⟩,
      fun h s hs => ⟨h.names s hs, fun he => h.no_dots (he ▸ hs)⟩⟩

variable {l : Location} {p : Path}

theorem isNamed_top : IsNamed {} where
  names := by simp
  no_dots := List.not_mem_nil

theorem IsNamed.path (h : l.IsNamed) : l.path.IsNamed :=
  h.names

theorem IsNamed.parent (h : l.IsNamed) : l.parent.IsNamed where
  names s hs := h.names s (List.dropLast_subset _ hs)
  no_dots hd := h.no_dots (List.dropLast_subset _ hd)

theorem IsNamed.follow (h : l.IsNamed) {part : Text} (hp : IsPart part) : (l.follow part).IsNamed where
  no_dots := not_mem_follow h.no_dots part
  names := by
    rw [Location.follow]
    split
    case isTrue  => exact h.parent.names
    case isFalse =>
      intro s hs
      rcases List.mem_append.mp hs with hs | hs
      · exact h.names s hs
      · exact List.mem_singleton.mp hs ▸ hp

theorem IsNamed.walk (h : l.IsNamed) (hp : p.IsNamed) : (l.walk p).IsNamed := by
  have hf {ps : List Text} {l : Location} (h : l.IsNamed) (hs : ∀ s ∈ ps, IsPart s) :
      (ps.foldl Location.follow l).IsNamed := by
    induction ps generalizing l
    case nil => exact h
    case cons s ps hi =>
      have ⟨hs, hps⟩ := List.forall_mem_cons.mp hs
      exact hi (h.follow hs) hps
  rw [Location.walk]
  split
  case isTrue  => exact hf h hp
  case isFalse => exact hf isNamed_top hp

-- One slash stands at the front.
theorem anchorOf_text (h : l.IsNamed) : Path.anchorOf l.text = .slash := by
  obtain ⟨parts⟩ := l
  have h := h.names
  rcases parts with _ | ⟨_ | ⟨c, s⟩, ps⟩
  case nil => rfl
  case cons.nil => exact absurd rfl (h [] List.mem_cons_self).ne_nil
  case cons.cons =>
    have hc : (c == '/') = false :=
      beq_eq_false_iff_ne.mpr fun he => (h (c :: s) List.mem_cons_self).no_slash (by simp [he])
    cases ps <;> simp [text, Path.text, Location.path, Path.anchorOf, List.intercalate_cons_cons, hc]

theorem ofText_text (h : l.IsNamed) : Path.ofText l.text = l.path := by
  have ha := anchorOf_text h
  obtain ⟨parts⟩ := l
  have h := h.names
  rcases parts with _ | ⟨p, ps⟩
  case nil => rfl
  case cons =>
    have ht : (⟨p :: ps⟩ : Location).text = '/' :: List.intercalate ['/'] (p :: ps) := rfl
    have hs : ∀ s ∈ p :: ps, '/' ∉ s := fun s hm => (h s hm).no_slash
    have hf : ∀ s ∈ p :: ps, decide (s ≠ [] ∧ s ≠ ['.']) = true :=
      fun s hm => decide_eq_true ⟨(h s hm).ne_nil, (h s hm).ne_dot⟩
    rw [Path.ofText, ha, ht, pieces, if_pos rfl, pieces_intercalate hs (List.cons_ne_nil p ps),
      List.filter_cons_of_neg (by simp), List.filter_eq_self.mpr hf]
    rfl

end Location

end Transclusion
