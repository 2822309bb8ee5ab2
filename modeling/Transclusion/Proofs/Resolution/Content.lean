import Transclusion.Proofs.Locate.Search
import Transclusion.Proofs.Resolution.Coherence

namespace Transclusion

section Including

variable {d : Directive} {doc : Document}

theorem Directive.keywords_target_subset {t : Tree} {target : Option Text}
    (h : d.target doc = .ok (t, target)) : t.keywords ⊆ (Tree.whole doc).keywords := by
  rw [Directive.target] at h
  split at h
  case h_1 =>
    cases h
    exact fun _ => id
  case h_2 =>
    split at h
    case h_1 hs =>
      cases h
      exact Tree.keywords_subset_of_mem_preorder (Tree.mem_preorder_of_locate? hs)
    case h_2 => cases h

theorem Directive.keywords_reshape_subset (t : Tree) : (d.reshape t).keywords ⊆ t.keywords := by
  cases t
  case whole => exact fun _ => id
  case part s =>
    have hd : (Tree.part s.dropSections).keywords ⊆ (Tree.part s).keywords := by
      intro k hk
      have hk : k ∈ bodyKeywords s.content := by
        simpa [Tree.keywords, Tree.content, Tree.sections, Section.dropSections,
          Forest.keywords] using hk
      exact List.mem_append_left _ hk
    simp only [reshape]
    split
    · exact fun _ => id
    · split
      · exact hd
      · exact fun _ => id

theorem Library.keywords_fetch_subset {lib : Library} {e : Included}
    (h : (lib.fetch d).1 = .ok e) :
    ∃ s doc, lib.document s = .ok doc ∧ e.content.keywords ⊆ (Tree.whole doc).keywords := by
  have ⟨s, doc, t, _, hd, ht, hc, _⟩ := fetch_eq_ok h
  have hr := Directive.keywords_reshape_subset (d := d) t
  exact ⟨s, doc, hd, hc ▸ List.Subset.trans hr (Directive.keywords_target_subset ht)⟩

end Including

end Transclusion
