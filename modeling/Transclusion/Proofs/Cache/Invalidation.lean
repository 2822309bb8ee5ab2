import Transclusion.Proofs.Cache.Entries

namespace Transclusion.Cache

variable {c c' c'' : Cache} {refs refs' ids ids' : List Text} {id ref : Text}

-- The place of some entry that was loaded from one of the documents.
def IsStale (c : Cache) (refs : List Text) (id : Text) : Prop :=
  ∃ k e s, (k, e) ∈ c.entries ∧ e.source = some s ∧ s.id ∈ refs ∧ e.sourceId = id

-- All entries of the places that are told are gone, and the others stand in their order.
structure Drops (c : Cache) (refs ids : List Text) (c' : Cache) : Prop where
  told     : ∀ id, id ∈ ids ↔ c.IsStale refs id
  capacity : c'.capacity = c.capacity
  entries  : c'.entries = c.entries.filter (!ids.contains ·.2.sourceId)

namespace Drops

theorem mem_iff (h : c.Drops refs ids c') {x : Directive.Identity × Included} :
    x ∈ c'.entries ↔ x ∈ c.entries ∧ x.2.sourceId ∉ ids := by
  simp [h.entries]

theorem not_stale (h : c.Drops refs ids c') : ¬c'.IsStale refs id := by
  rintro ⟨k, e, s, hm, hs, hr, -⟩
  obtain ⟨hm, hn⟩ := h.mem_iff.mp hm
  exact hn ((h.told _).mpr ⟨k, e, s, hm, hs, hr, rfl⟩)

theorem congr (h : c.Drops refs ids c') (he : ∀ id, id ∈ ids' ↔ id ∈ ids) : c.Drops refs ids' c' where
  told id := (he id).trans (h.told id)
  capacity := h.capacity
  entries := by
    rw [h.entries]
    congr
    funext x
    rw [Bool.not_inj_iff, Bool.eq_iff_iff, List.contains_iff_mem, List.contains_iff_mem, he]

-- An entry of the documents that come later may be gone already, but then its place has been told.
theorem trans (h : c.Drops refs ids c') (h' : c'.Drops refs' ids' c'') :
    c.Drops (refs ++ refs') (ids ++ ids') c'' where
  capacity := h'.capacity.trans h.capacity
  entries := by
    rw [h'.entries, h.entries, List.filter_filter]
    congr
    funext x
    simp [Bool.and_comm]
  told id := by
    rw [List.mem_append, h.told, h'.told]
    constructor
    case mp =>
      rintro (⟨k, e, s, hm, hs, hr, he⟩ | ⟨k, e, s, hm, hs, hr, he⟩)
      · exact ⟨k, e, s, hm, hs, List.mem_append_left _ hr, he⟩
      · exact ⟨k, e, s, (h.mem_iff.mp hm).left, hs, List.mem_append_right _ hr, he⟩
    case mpr =>
      rintro ⟨k, e, s, hm, hs, hr, rfl⟩
      by_cases hi : e.sourceId ∈ ids
      case pos => exact .inl ((h.told _).mp hi)
      case neg =>
        obtain hr | hr := List.mem_append.mp hr
        · exact absurd ((h.told _).mpr ⟨k, e, s, hm, hs, hr, rfl⟩) hi
        · exact .inr ⟨k, e, s, h.mem_iff.mpr ⟨hm, hi⟩, hs, hr, rfl⟩

-- Only the set of the documents counts.
theorem unique (h : c.Drops refs ids c') (h' : c.Drops refs' ids' c'')
    (hr : ∀ ref, ref ∈ refs ↔ ref ∈ refs') : c' = c'' ∧ ∀ id, id ∈ ids ↔ id ∈ ids' := by
  have hi : ∀ id, id ∈ ids ↔ id ∈ ids' := fun id => by simp only [h.told, h'.told, IsStale, hr]
  have hc := h.capacity.trans h'.capacity.symm
  have he := (h.congr fun id => (hi id).symm).entries.trans h'.entries.symm
  cases c'
  cases c''
  exact ⟨Cache.mk.injEq .. ▸ ⟨hc, he⟩, hi⟩

theorem of_not_stale (hn : ∀ id, ¬c.IsStale refs id) : c.Drops refs [] c where
  told id := by simp [hn id]
  capacity := rfl
  entries := (List.filter_eq_self.mpr (by simp)).symm

theorem eq_of_not_stale (h : c.Drops refs ids c') (hn : ∀ id, ¬c.IsStale refs id) : ids = [] ∧ c' = c := by
  have ⟨hc, hi⟩ := h.unique (of_not_stale hn) fun _ => .rfl
  exact ⟨List.eq_nil_iff_forall_not_mem.mpr fun id hm => List.not_mem_nil ((hi id).mp hm), hc⟩

end Drops

theorem capacity_foldl_invalidate (c : Cache) (ids : List Text) :
    (ids.foldl (fun c id => (c.invalidate id).2) c).capacity = c.capacity := by
  induction ids generalizing c
  case nil            => rfl
  case cons id ids hi => exact hi _

theorem drops_sourceIdsFor (c : Cache) (ref : Text) :
    c.Drops [ref] (c.sourceIdsFor ref) ((c.sourceIdsFor ref).foldl (fun c id => (c.invalidate id).2) c) where
  told id := by simp only [mem_sourceIdsFor_iff, IsStale, List.mem_singleton]
  capacity := capacity_foldl_invalidate c _
  entries := entries_foldl_invalidate c _

theorem drops_invalidateRefs (c : Cache) (refs : List Text) :
    c.Drops refs (c.invalidateRefs refs).1 (c.invalidateRefs refs).2 := by
  induction refs generalizing c
  case nil => exact .of_not_stale (by simp [IsStale])
  case cons ref refs hi =>
    refine ((c.drops_sourceIdsFor ref).trans (hi _)).congr fun id => ?_
    rw [invalidateRefs, List.mem_eraseDups]

-- Calls one after the other, with all places that they tell.
def invalidateCalls : Cache → List (List Text) → List Text × Cache
  | c, [] => ([], c)
  | c, refs :: calls =>
    let (ids, c) := c.invalidateRefs refs
    let (more, c) := invalidateCalls c calls
    (ids ++ more, c)

theorem drops_invalidateCalls (c : Cache) (calls : List (List Text)) :
    c.Drops calls.flatten (c.invalidateCalls calls).1 (c.invalidateCalls calls).2 := by
  induction calls generalizing c
  case nil                => exact c.drops_invalidateRefs []
  case cons refs calls hi => exact (c.drops_invalidateRefs refs).trans (hi _)

theorem nodup_eraseDups (ids : List Text) : ids.eraseDups.Nodup := by
  match ids with
  | [] => exact List.nodup_nil
  | id :: ids =>
    rw [List.eraseDups_cons, List.nodup_cons, List.mem_eraseDups]
    exact ⟨by simp, nodup_eraseDups _⟩
termination_by ids.length
decreasing_by exact Nat.lt_succ_of_le (List.length_filter_le _ _)

theorem nodup_invalidateRefs (c : Cache) (refs : List Text) : (c.invalidateRefs refs).1.Nodup := by
  cases refs
  case nil  => exact List.nodup_nil
  case cons => exact nodup_eraseDups _

-- Other calls for the same documents: these may come in another order, in several calls, or repeatedly.
theorem invalidateRefs_exact (c : Cache) (refs : List Text) :
    let r := c.invalidateRefs refs
    c.Drops refs r.1 r.2 ∧ r.1.Nodup ∧
      (∀ k e s, (k, e) ∈ r.2.entries → e.source = some s → s.id ∉ refs) ∧
      (∀ calls : List (List Text), (∀ ref, ref ∈ calls.flatten ↔ ref ∈ refs) →
        (c.invalidateCalls calls).2 = r.2 ∧ ∀ id, id ∈ (c.invalidateCalls calls).1 ↔ id ∈ r.1) ∧
      r.2.invalidateRefs refs = ([], r.2) := by
  intro r
  have hd : c.Drops refs r.1 r.2 := c.drops_invalidateRefs refs
  refine ⟨hd, c.nodup_invalidateRefs refs, fun k e s hm hs hr => ?_, fun calls hc => ?_, ?_⟩
  · exact hd.not_stale ⟨k, e, s, hm, hs, hr, rfl⟩
  · exact (c.drops_invalidateCalls calls).unique hd hc
  · have ⟨hi, he⟩ := (r.2.drops_invalidateRefs refs).eq_of_not_stale fun _ => hd.not_stale
    exact Prod.ext hi he

end Transclusion.Cache
