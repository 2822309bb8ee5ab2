import Transclusion.Proofs.Expansion.Ends

namespace Transclusion

-- A directive and the calls around it, the nearest first.
structure Slot where
  directive : Directive
  around : List Call

namespace Slot

def path (s : Slot) : List Text :=
  s.around.map (·.task.directive.sourceId)

def task (ancestors : List Text) (s : Slot) : Task :=
  ⟨s.directive, s.path ++ ancestors⟩

end Slot

-- A call and the calls around it.
structure Frame where
  call : Call
  around : List Call

namespace Frame

def slot (f : Frame) : Slot :=
  ⟨f.call.task.directive, f.around⟩

-- The directives for which the call starts tasks.
def inner (f : Frame) : List Slot :=
  f.call.inner.map (⟨·.directive, f.call :: f.around⟩)

end Frame

-- An entry points where its key points, and its directives point to some of the places.
def Cache.Within (places : List Text) (k : Directive.Identity) (e : Included) : Prop :=
  Placed k e ∧ ∀ d ∈ e.content.occurrences, d.sourceId ∈ places

namespace Renderer

variable (r : Renderer) (places ancestors : List Text)

-- The calls around a slot succeeded, each in a place where none of the others is.
structure Exact (s : Slot) : Prop where
  succeeded : ∀ c ∈ s.around, ∃ t, c.outcome = .ok t
  distinct : s.path.Nodup
  outside : ∀ id ∈ s.path, id ∉ ancestors
  shallow : s.around.length ≤ r.levelsLeft ancestors
  within : ∀ id ∈ s.directive.sourceId :: s.path, id ∈ places

structure Answers (f : Frame) : Prop where
  exact : r.Exact places ancestors f.slot
  task : f.call.task = f.slot.task ancestors
  made : r.MadeWith (Cache.Within places) f.call

variable {r places ancestors}

theorem Answers.of_ok {f : Frame} {s : Success} (h : r.Answers places ancestors f)
    (hg : r.Gives (Cache.Within places)) (ho : f.call.outcome = .ok s) :
    f.around.length < r.levelsLeft ancestors ∧ f.call.task.directive.sourceId ∉ f.slot.path ∧
      f.call.task.directive.sourceId ∉ ancestors := by
  have ⟨hr, _⟩ := h.made.of_ok hg ho
  have ⟨hl, hm⟩ := refusal?_eq_none_iff.mp hr
  rw [h.task] at hl hm
  simp only [Slot.task, Slot.path, List.length_append, List.length_map] at hl
  have ⟨hp, ha⟩ := not_or.mp (List.mem_append.not.mp hm)
  refine ⟨?_, hp, ha⟩
  rw [levelsLeft]
  exact Nat.lt_sub_of_add_lt hl

theorem Answers.inner {f : Frame} (h : r.Answers places ancestors f)
    (hg : r.Gives (Cache.Within places)) : ∀ s ∈ f.inner, r.Exact places ancestors s := by
  intro s hs
  obtain ⟨u, hu, rfl⟩ := List.mem_map.mp hs
  obtain ⟨t, ho, d, hd, rfl⟩ := Call.exists_of_mem_inner hu
  have ⟨hl, hp, ha⟩ := h.of_ok hg ho
  have ⟨_, _, hw⟩ := h.made.of_ok hg ho
  exact
    { succeeded := List.forall_mem_cons.mpr ⟨⟨t, ho⟩, h.exact.succeeded⟩
      distinct := List.nodup_cons.mpr ⟨hp, h.exact.distinct⟩
      outside := List.forall_mem_cons.mpr ⟨ha, h.exact.outside⟩
      shallow := hl
      within := List.forall_mem_cons.mpr ⟨hw d hd, h.exact.within⟩ }

-- The tasks inside a call are those of its inner slots.
theorem Answers.inner_eq {f : Frame} (h : r.Answers places ancestors f)
    (hg : r.Gives (Cache.Within places)) : f.call.inner = f.inner.map (Slot.task ancestors) := by
  rw [Frame.inner, List.map_map]
  refine (List.map_id _).symm.trans (List.map_congr_left fun u hu => ?_)
  obtain ⟨s, ho, d, _, rfl⟩ := Call.exists_of_mem_inner hu
  have ⟨hr, he, _⟩ := h.made.of_ok hg ho
  have ⟨_, hm⟩ := refusal?_eq_none_iff.mp hr
  have ha : f.call.task.ancestors.insert s.included.sourceId =
      f.call.task.directive.sourceId :: (f.slot.path ++ ancestors) := by
    rw [he]
    exact (List.insert_of_not_mem hm).trans (congrArg _ (congrArg Task.ancestors h.task))
  exact congrArg (Task.mk d) ha

section Levels

variable {n : Nat} {tasks : List Task} {cache : Cache} {x : Expansion (List Text)}
  {frames : List Frame} {inner : List (List Task)}

theorem exists_frames (ancestors : List Text) (slots : List Slot) (cache : Cache) :
    ∃ frames : List Frame,
      frames.map Frame.call = (r.resolveAll (slots.map (Slot.task ancestors)) cache).1 ∧
        frames.map Frame.slot = slots ∧ ∀ f ∈ frames, f.call.task = f.slot.task ancestors := by
  induction slots generalizing cache
  case nil => exact ⟨[], rfl, rfl, by simp⟩
  case cons s ss hi =>
    let x := resolve r.library r.limit (s.path ++ ancestors) s.directive cache
    have ⟨fs, hc, hs, ht⟩ := hi x.cache
    refine ⟨⟨⟨s.task ancestors, x.outcome, x.accesses⟩, s.around⟩ :: fs, ?_, ?_, ?_⟩
    · rw [List.map_cons, List.map_cons, resolveAll, hc]
      rfl
    · rw [List.map_cons, hs]
      rfl
    · exact List.forall_mem_cons.mpr ⟨rfl, ht⟩

theorem flatMap_inner_frames (hf : ∀ f ∈ frames, r.Answers places ancestors f)
    (hg : r.Gives (Cache.Within places)) :
    (frames.map Frame.call).flatMap Call.inner =
      (frames.flatMap Frame.inner).map (Slot.task ancestors) := by
  rw [List.flatMap_map, List.map_flatMap]
  exact List.flatMap_congr fun f hm => (hf f hm).inner_eq hg

-- One level of an expansion.
theorem exists_answers {slots : List Slot} (hg : r.Gives (Cache.Within places))
    (hc : cache.All (Cache.Within places)) (hs : ∀ s ∈ slots, r.Exact places ancestors s) :
    ∃ frames : List Frame,
      frames.map Frame.call = (r.resolveAll (slots.map (Slot.task ancestors)) cache).1 ∧
        frames.map Frame.slot = slots ∧ ∀ f ∈ frames, r.Answers places ancestors f := by
  have ⟨fs, hf, hm, ht⟩ := exists_frames (r := r) ancestors slots cache
  refine ⟨fs, hf, hm, fun f h => ⟨hs _ (hm ▸ List.mem_map_of_mem h), ht f h, ?_⟩⟩
  exact madeWith_of_mem_resolveAll hg hc _ (hf ▸ List.mem_map_of_mem h)

theorem exact_of_mem_inner (hf : ∀ f ∈ frames, r.Answers places ancestors f)
    (hg : r.Gives (Cache.Within places)) :
    ∀ s ∈ frames.flatMap Frame.inner, r.Exact places ancestors s := by
  intro s h
  have ⟨f, hm, hs⟩ := List.mem_flatMap.mp h
  exact (hf f hm).inner hg s hs

-- The calls of an expansion come in the order of a queue.
theorem Expands.queue {slots : List Slot} (h : r.Expands n tasks cache x)
    (hg : r.Gives (Cache.Within places)) (hc : cache.All (Cache.Within places))
    (hn : ∀ t ∈ tasks, r.levelsLeft t.ancestors ≤ n) (ht : tasks = slots.map (Slot.task ancestors))
    (hs : ∀ s ∈ slots, r.Exact places ancestors s) :
    ∃ frames : List Frame, frames.map Frame.call = x.calls ∧
      frames.map Frame.slot = slots ++ frames.flatMap Frame.inner ∧
        ∀ f ∈ frames, r.Answers places ancestors f := by
  have hp {c : Cache} (h : c.All (Cache.Within places)) : c.All Cache.Placed :=
    h.imp fun _ _ hw => hw.left
  induction h generalizing slots
  case last hf =>
    have ⟨fs, hc, hm, ha⟩ := exists_answers hg hc hs
    rw [ht, ←hc, flatMap_inner_frames ha hg, List.map_eq_nil_iff] at hf
    exact ⟨fs, ht ▸ hc, by rw [hm, hf, List.append_nil], ha⟩
  case starved hf =>
    have ⟨u, hu⟩ := List.exists_mem_of_ne_nil _ hf
    exact absurd (levelsLeft_lt_of_mem_inner (hp hc) hn hu) (Nat.not_lt_zero _)
  case deeper hr =>
    have ⟨fs, hf, hm, ha⟩ := exists_answers hg hc hs
    have hl (u) (hu : u ∈ _) := Nat.le_of_lt_succ (levelsLeft_lt_of_mem_inner (u := u) (hp hc) hn hu)
    have hb := flatMap_inner_frames ha hg
    rw [hf, ←ht] at hb
    have ⟨gs, hgf, hgm, hga⟩ := hr (all_resolveAll hg hc) hl hb (exact_of_mem_inner ha hg)
    refine ⟨fs ++ gs, ?_, ?_, List.forall_mem_append.mpr ⟨ha, hga⟩⟩
    · rw [List.map_append, hf, hgf, ht]
    · rw [List.map_append, List.flatMap_append, hm, hgm]

end Levels

end Renderer

end Transclusion
