import Transclusion.Outline.Markup
import Transclusion.Proofs.Headline.Parts

namespace Transclusion

open Text

section Texts

variable {s : Text} {xs : List Text}

theorem isFlat_intercalate (hs : IsFlat s) (h : ∀ x ∈ xs, IsFlat x) : IsFlat (List.intercalate s xs) :=
  forall_mem_intercalate hs h

end Texts

namespace Headline

variable {s : Text}

-- What is left for the next reader is part of the text, and so is what was read.
theorem takeTodo_spec (s : Text) :
    (takeTodo s).2.Sublist s ∧ ∀ t ∈ (takeTodo s).1, IsFlat t := by
  have hw : ∀ w ∈ todoWords, IsFlat w := by decide
  exact ⟨(takeTodo_suffix s).sublist, fun t ht => hw t (mem_todoWords_of_mem_takeTodo s t ht)⟩

theorem takePriority_spec (s : Text) :
    (takePriority s).2.Sublist s ∧ ∀ t ∈ (takePriority s).1, t ⊆ s := by
  refine ⟨(takePriority_suffix s).sublist, ?_⟩
  obtain ⟨he, _⟩ | ⟨c, t, _, rfl, he⟩ := takePriority_cases s <;> simp [he]

theorem subset_of_tags? {ts : List Text} (h : tags? s = some ts) : ∀ t ∈ ts, t ⊆ s := by
  rw [tags?] at h
  split at h
  case h_1 us hu =>
    split at h
    case isTrue =>
      cases h
      intro t ht c hc
      have hp : t ∈ pieces ':' s := hu ▸ List.mem_cons_of_mem _ ((List.dropLast_sublist us).subset ht)
      exact mem_of_mem_pieces hp hc
    case isFalse => cases h
  case h_2 => cases h

theorem takeTags_spec (s : Text) :
    (takeTags s).1.Sublist s ∧ ∀ t ∈ (takeTags s).2, t ⊆ s := by
  have hp := takeTags_prefix s
  refine ⟨hp.sublist, ?_⟩
  rw [takeTags]
  split
  case h_1 ts hs =>
    exact fun t ht => List.Subset.trans (subset_of_tags? hs t ht) (List.rtakeWhile_suffix _ s).subset
  case h_2 => simp

variable {h : Headline}

theorem isFlat_tagMarkup {ts : List Text} (h : ∀ t ∈ ts, IsFlat t) : IsFlat (tagMarkup ts) := by
  cases ts
  case nil => decide
  case cons t ts =>
    exact isFlat_append.mpr ⟨isFlat_append.mpr ⟨by decide, isFlat_intercalate (by decide) h⟩, by decide⟩

theorem isFlat_line (ht : ∀ t ∈ h.todo, IsFlat t) (hp : ∀ t ∈ h.priority, IsFlat t)
    (hn : ∀ t ∈ h.title, IsFlat t) (hg : ∀ t ∈ h.tags, IsFlat t) : IsFlat h.line := by
  refine isFlat_append.mpr ⟨isFlat_intercalate (by decide) ?_, isFlat_tagMarkup hg⟩
  simp only [parts, List.forall_mem_cons, List.forall_mem_append, Option.mem_toList,
    List.forall_mem_map, isFlat_append]
  refine ⟨?_, ⟨fun t h => ht t (given_eq_some_iff.mp h).left, fun t h => ?_⟩, fun t h => hn t (given_eq_some_iff.mp h).left⟩
  · intro c hc
    rw [List.eq_of_mem_replicate hc]
    rfl
  · exact ⟨⟨by decide, hp t (given_eq_some_iff.mp h).left⟩, by decide⟩

theorem isFlat_ofBody (stars : Nat) (hs : IsFlat s) : IsFlat (ofBody stars s).line := by
  have ⟨h₁, ht⟩ := takeTodo_spec s
  have ⟨h₂, hp⟩ := takePriority_spec (takeTodo s).2
  have ⟨h₃, hg⟩ := takeTags_spec (takePriority (takeTodo s).2).2
  have hf₁ := hs.subset h₁.subset
  have hf₂ := hf₁.subset h₂.subset
  refine isFlat_line ht (fun t h => hf₁.subset (hp t h)) (fun t h => ?_) (fun t h => hf₂.subset (hg t h))
  cases (given_eq_some_iff.mp h).left
  exact hf₂.subset ((trim_sublist _).trans h₃).subset

theorem line_eq_cons (hs : 0 < h.stars) : ∃ r, h.line = '*' :: r := by
  obtain ⟨n, hn⟩ := Nat.exists_eq_succ_of_ne_zero (Nat.ne_of_gt hs)
  rw [line, parts, hn, List.replicate_succ]
  cases (given h.todo).toList ++ (given h.priority).toList.map (fun p => "[#".toList ++ p ++ "]".toList) ++
    (given h.title).toList
  case nil => simp
  case cons x xs => simp [List.intercalate_cons_cons]

theorem ofLine?_eq_some {l : Text} (hl : ofLine? l = some h) :
    ∃ stars r, 0 < stars ∧ h = ofBody stars (trimEnd r) ∧ r.Sublist l := by
  obtain ⟨stars, margin, r, hn, rfl, _, _, _, he⟩ := exists_parts_of_ofLine? hl
  exact ⟨stars, r, hn, he, (List.sublist_append_right margin r).trans (List.sublist_append_right _ _)⟩

theorem isFlat_line_of_ofLine? {l : Text} (hl : ofLine? l = some h) (hs : IsSmooth l) :
    IsFlat h.line := by
  obtain ⟨stars, r, _, rfl, hr⟩ := ofLine?_eq_some hl
  exact isFlat_ofBody stars (hs.sublist hr).isFlat_trimEnd

theorem line_of_ofLine? {l : Text} (hl : ofLine? l = some h) : ∃ r, h.line = '*' :: r := by
  obtain ⟨stars, r, hn, rfl, _⟩ := ofLine?_eq_some hl
  exact line_eq_cons hn

end Headline

end Transclusion
