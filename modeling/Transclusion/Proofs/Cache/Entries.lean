import Transclusion.Cache

namespace Transclusion.Cache

variable {c : Cache} {d : Directive} {k : Directive.Identity} {e : Included}

section Membership

theorem mem_of_find? (h : c.find? k = some e) : (k, e) ∈ c.entries := by
  have ⟨_, _, he, _⟩ := List.lookup_eq_some_iff.mp h
  simp [he]

theorem mem_touch {x : Directive.Identity × Included} (h : x ∈ (c.touch k e).entries) :
    x = (k, e) ∨ x ∈ c.entries := by
  simp only [touch, without, List.mem_append, List.mem_filter, List.mem_singleton] at h
  exact h.symm.imp_right And.left

theorem mem_makeRoom {x : Directive.Identity × Included} (h : x ∈ (c.makeRoom k).entries) :
    x ∈ c.entries := by
  rw [makeRoom] at h
  split at h
  · exact List.mem_of_mem_tail h
  · exact h

theorem entries_invalidate (c : Cache) (id : Text) :
    (c.invalidate id).2.entries = c.entries.filter (·.2.sourceId != id) := by
  simp [invalidate, List.partition_eq_filter_filter, Function.comp_def, bne]

theorem entries_foldl_invalidate (c : Cache) (ids : List Text) :
    (ids.foldl (fun c id => (c.invalidate id).2) c).entries =
      c.entries.filter (!ids.contains ·.2.sourceId) := by
  induction ids generalizing c
  case nil => exact (List.filter_eq_self.mpr (by simp)).symm
  case cons id ids hi =>
    simp only [List.foldl_cons, hi, entries_invalidate, List.filter_filter]
    congr
    funext x
    simp only [List.contains_cons, Bool.not_or, bne, Bool.and_comm]

theorem mem_sourceIdsFor_iff {ref id : Text} :
    id ∈ c.sourceIdsFor ref ↔
      ∃ k e s, (k, e) ∈ c.entries ∧ e.source = some s ∧ s.id = ref ∧ e.sourceId = id := by
  simp only [sourceIdsFor, List.mem_eraseDups, List.mem_map, List.mem_filter, Option.any_eq_true,
    beq_iff_eq, Prod.exists]
  grind

-- Whatever was included from one of the documents is gone.
theorem mem_invalidateRefs {refs : List Text} (h : (k, e) ∈ (c.invalidateRefs refs).2.entries) :
    (k, e) ∈ c.entries ∧ ∀ s, e.source = some s → s.id ∉ refs := by
  induction refs generalizing c
  case nil => exact ⟨h, by simp⟩
  case cons ref refs hi =>
    have ⟨hm, hs⟩ := hi h
    rw [entries_foldl_invalidate, List.mem_filter] at hm
    refine ⟨hm.left, fun s he hr => ?_⟩
    cases hr
    case tail hr => exact hs s he hr
    case head =>
      have hc := mem_sourceIdsFor_iff.mpr ⟨k, e, s, hm.left, he, rfl, rfl⟩
      simp [hc] at hm

end Membership

-- All entries have the property, each with the key under which it is kept.
def All (p : Directive.Identity → Included → Prop) (c : Cache) : Prop :=
  ∀ k e, (k, e) ∈ c.entries → p k e

namespace All

variable {p q : Directive.Identity → Included → Prop}

theorem of_empty (h : c.entries = []) : c.All p := by
  simp [All, h]

theorem imp (h : c.All p) (hq : ∀ k e, p k e → q k e) : c.All q :=
  fun k e hm => hq k e (h k e hm)

theorem find? (h : c.All p) (hf : c.find? k = some e) : p k e :=
  h k e (mem_of_find? hf)

theorem touch (h : c.All p) (he : p k e) : (c.touch k e).All p := by
  intro _ _ hm
  cases mem_touch hm
  case inl hx =>
    cases hx
    exact he
  case inr hx => exact h _ _ hx

theorem put (h : c.All p) (he : p d.identity e) : (c.put d e).All p :=
  touch (fun _ _ hm => h _ _ (mem_makeRoom hm)) he

theorem invalidate (h : c.All p) (id : Text) : (c.invalidate id).2.All p := by
  intro k e hm
  rw [entries_invalidate] at hm
  exact h k e (List.mem_filter.mp hm).left

theorem invalidateRefs (h : c.All p) (refs : List Text) :
    (c.invalidateRefs refs).2.All fun k e => p k e ∧ ∀ s, e.source = some s → s.id ∉ refs :=
  fun k e hm => ⟨h k e (mem_invalidateRefs hm).left, (mem_invalidateRefs hm).right⟩

theorem clear : c.clear.All p :=
  of_empty rfl

end All

end Transclusion.Cache
