import Mathlib.Data.Finset.Card
import Transclusion.Proofs.Expansion.Schedules
import Transclusion.Proofs.Shelf.Documents

namespace Transclusion

-- Where the directives of the documents point.
def Shelf.places (s : Shelf) : List Text :=
  (s.keywords.filterMap Keyword.directive?).map Directive.sourceId

-- Where the directives of some shelves point, and the directives that are asked for.
def Shelf.allPlaces (shelves : List Shelf) (ds : List Directive) : List Text :=
  ds.map Directive.sourceId ++ shelves.flatMap Shelf.places

theorem Shelf.places_subset {shelves : List Shelf} {s : Shelf} {ds : List Directive}
    (hs : s ∈ shelves) : s.places ⊆ allPlaces shelves ds :=
  fun _ hm => List.mem_append_right _ (List.mem_flatMap.mpr ⟨s, hs, hm⟩)

theorem Shelf.within_fetch {s : Shelf} {places : List Text} {d : Directive} {e : Included}
    (hs : s.places ⊆ places) (h : (s.library.fetch d).1 = .ok e) :
    Cache.Within places d.identity e := by
  refine ⟨Library.sourceId_of_fetch h, fun x hx => hs (List.mem_map_of_mem ?_)⟩
  have ⟨k, hk, hx⟩ := List.mem_filterMap.mp hx
  exact List.mem_filterMap.mpr ⟨k, keywords_fetch_subset h hk, hx⟩

-- What comes of resolving with one shelf or another and of dropping entries.
inductive Cache.Reachable (shelves : List Shelf) : Cache → Prop
  | empty (capacity : Nat) : Reachable shelves { capacity }
  | resolve {s cache} (hs : s ∈ shelves) (hc : Reachable shelves cache) (limit : DepthLimit)
    (ancestors : List Text) (d : Directive) :
    Reachable shelves (resolve s.library limit ancestors d cache).cache
  | invalidate {cache} (hc : Reachable shelves cache) (id : Text) :
    Reachable shelves (cache.invalidate id).2
  | clear {cache} (hc : Reachable shelves cache) : Reachable shelves cache.clear

theorem Cache.Reachable.within {shelves : List Shelf} {cache : Cache} {places : List Text}
    (h : cache.Reachable shelves) (hp : ∀ s ∈ shelves, s.places ⊆ places) :
    cache.All (Within places) := by
  induction h
  case empty                 => exact .of_empty rfl
  case resolve hs _ _ _ _ hi => exact hi.resolve fun _ _ => Shelf.within_fetch (hp _ hs)
  case invalidate id hi      => exact hi.invalidate id
  case clear                 => exact .clear

theorem Cache.Reachable.placed {shelves : List Shelf} {cache : Cache}
    (h : cache.Reachable shelves) : cache.All Placed := by
  have hp (s) (hs : s ∈ shelves) : s.places ⊆ Shelf.allPlaces shelves [] := Shelf.places_subset hs
  exact (h.within hp).imp fun _ _ hw => hw.left

-- A call that is stopped exactly if it has too many places around it or runs into one of them.
structure Frame.Guarded (ancestors : List Text) (maxDepth : Int) (f : Frame) : Prop where
  received : f.call.task.ancestors = f.slot.path ++ ancestors
  succeeded : ∀ c ∈ f.around, ∃ s, c.outcome = .ok s
  distinct : f.slot.path.Nodup
  outside : ∀ id ∈ f.slot.path, id ∉ ancestors
  shallow : f.around.length ≤ (maxDepth - ancestors.length).toNat
  nests : (∃ s, f.call.outcome = .ok s) → f.around.length < (maxDepth - ancestors.length).toNat
  tooDeep : f.call.outcome = .error (.tooDeep (.ofInt maxDepth)) ↔
    maxDepth ≤ f.call.task.ancestors.length
  circular : f.call.outcome = .error .circular ↔
    f.call.task.ancestors.length < maxDepth ∧
      (f.call.task.directive.sourceId ∈ ancestors ∨ f.call.task.directive.sourceId ∈ f.slot.path)

-- All calls are guarded. The depth limit stops none of them if it leaves room for all places to which
-- there are directives.
structure Frame.AllGuarded (shelves : List Shelf) (ancestors : List Text) (maxDepth : Int)
    (ds : List Directive) (frames : List Frame) : Prop where
  guarded : ∀ f ∈ frames, f.Guarded ancestors maxDepth
  room : ancestors.length + (Shelf.allPlaces shelves ds).toFinset.card < maxDepth →
    ∀ f ∈ frames, ∀ limit, f.call.outcome ≠ .error (.tooDeep limit)

-- An expansion of `ds` that ends. The order of its calls is that of a queue, to which each call adds the
-- directives of what it includes, with itself around them.
structure Expansion.Bounded {α : Type} (shelves : List Shelf) (ancestors : List Text)
    (maxDepth : Int) (ds : List Directive) (x : Expansion α) : Prop where
  ends : ∀ i, x.result = .error i → ∃ o, i = .overlong o
  frames : ∃ frames : List Frame, frames.map Frame.call = x.calls ∧
    frames.map Frame.slot = ds.map (⟨·, []⟩) ++ frames.flatMap Frame.inner ∧
      Frame.AllGuarded shelves ancestors maxDepth ds frames

-- The same for tasks that take turns, and of which some are left.
structure Loop.Bounded (shelves : List Shelf) (ancestors : List Text) (maxDepth : Int)
    (ds : List Directive) (l : Loop) : Prop where
  frames : ∃ (frames : List Frame) (left : List Slot), frames.map Frame.call = l.calls ∧
    left.map (Slot.task ancestors) = l.waiting.map (·.task) ++ l.ready ∧
      (frames.map Frame.slot ++ left).Perm (ds.map (⟨·, []⟩) ++ frames.flatMap Frame.inner) ∧
        Frame.AllGuarded shelves ancestors maxDepth ds frames

namespace Renderer

open Relation (ReflTransGen)

variable {r : Renderer} {places ancestors : List Text} {maxDepth : Int} {f : Frame}

theorem levelsLeft_ofInt (hl : r.limit = .ofInt maxDepth) :
    r.levelsLeft ancestors = (maxDepth - ancestors.length).toNat := by
  simp only [levelsLeft, hl, DepthLimit.ofInt]
  omega

theorem Answers.guarded (h : r.Answers places ancestors f) (hg : r.Gives (Cache.Within places))
    (hl : r.limit = .ofInt maxDepth) : f.Guarded ancestors maxDepth where
  received := congrArg Task.ancestors h.task
  succeeded := h.exact.succeeded
  distinct := h.exact.distinct
  outside := h.exact.outside
  shallow := levelsLeft_ofInt hl ▸ h.exact.shallow
  nests := fun ⟨_, ho⟩ => levelsLeft_ofInt hl ▸ (h.of_ok hg ho).left
  tooDeep := by
    rw [h.made.refused_iff rfl, refusal?_eq_tooDeep_iff, hl, and_iff_left rfl]
    exact Int.toNat_le
  circular := by
    rw [h.made.refused_iff rfl, refusal?_eq_circular_iff, hl]
    refine and_congr Int.lt_toNat ?_
    rw [h.task, Slot.task, List.mem_append, or_comm]

-- The places around a call differ, so there are not more of them than there are places.
theorem Answers.not_tooDeep {limit : DepthLimit} (h : r.Answers places ancestors f)
    (hl : r.limit = .ofInt maxDepth) (hp : ancestors.length + places.toFinset.card < maxDepth) :
    f.call.outcome ≠ .error (.tooDeep limit) := by
  intro ho
  have ⟨hd, _⟩ := refusal?_eq_tooDeep_iff.mp ((h.made.refused_iff rfl).mp ho)
  have hw : f.slot.path.toFinset ⊆ places.toFinset := by
    intro id hm
    exact List.mem_toFinset.mpr (h.exact.within id (List.mem_cons_of_mem _ (List.mem_toFinset.mp hm)))
  have hc := Finset.card_le_card hw
  rw [List.toFinset_card_of_nodup h.exact.distinct] at hc
  rw [h.task, Slot.task, List.length_append, hl] at hd
  have hb : maxDepth ≤ f.slot.path.length + ancestors.length := Int.toNat_le.mp hd
  omega

section Expansions

variable {shelves : List Shelf} {s : Shelf} {cache : Cache} {ds : List Directive}

theorem exact_of_mem {s : Slot} (hs : s ∈ ds.map (⟨·, []⟩))
    (hp : ds.map Directive.sourceId ⊆ places) : r.Exact places ancestors s := by
  obtain ⟨d, hd, rfl⟩ := List.mem_map.mp hs
  exact
    { succeeded := List.forall_mem_nil _
      distinct := List.nodup_nil
      outside := List.forall_mem_nil _
      shallow := Nat.zero_le _
      within := List.forall_mem_singleton.mpr (hp (List.mem_map_of_mem hd)) }

theorem gives_within (hs : s ∈ shelves) (hr : r.library = s.library) :
    r.Gives (Cache.Within (Shelf.allPlaces shelves ds)) :=
  fun _ _ _ hf => Shelf.within_fetch (Shelf.places_subset hs) (hr ▸ hf)

theorem allGuarded {frames : List Frame} (hg : r.Gives (Cache.Within (Shelf.allPlaces shelves ds)))
    (hl : r.limit = .ofInt maxDepth)
    (ha : ∀ f ∈ frames, r.Answers (Shelf.allPlaces shelves ds) ancestors f) :
    Frame.AllGuarded shelves ancestors maxDepth ds frames where
  guarded f hf := (ha f hf).guarded hg hl
  room hb f hf _ := (ha f hf).not_tooDeep hl hb

theorem map_task (ancestors : List Text) (ds : List Directive) :
    (ds.map (⟨·, []⟩)).map (Slot.task ancestors) = ds.map (⟨·, ancestors⟩) := by
  rw [List.map_map]
  rfl

theorem bounded {α : Type} {y : Expansion α} (hs : s ∈ shelves) (hr : r.library = s.library)
    (hl : r.limit = .ofInt maxDepth) (hc : cache.Reachable shelves)
    (hy : y.calls =
      (r.expandAll (r.levelsLeft ancestors) (ds.map (⟨·, ancestors⟩)) cache).calls)
    (he : ∀ i, y.result = .error i → ∃ o, i = .overlong o) : y.Bounded shelves ancestors maxDepth ds := by
  have hg : r.Gives (Cache.Within (Shelf.allPlaces shelves ds)) := gives_within hs hr
  have hx := expands (r := r) (r.levelsLeft ancestors) (ds.map (⟨·, ancestors⟩)) cache
  have ⟨frames, hf, hq, ha⟩ := hx.queue hg (hc.within fun _ => Shelf.places_subset) (by simp)
    (map_task ancestors ds).symm fun _ hm => exact_of_mem hm (List.subset_append_left _ _)
  exact ⟨he, frames, hf.trans hy.symm, hq, allGuarded hg hl ha⟩

theorem loop_bounded {l : Loop} (hs : s ∈ shelves) (hr : r.library = s.library)
    (hl : r.limit = .ofInt maxDepth) (hc : cache.Reachable shelves)
    (h : ReflTransGen (r.Moves Call.inner) (.start (ds.map (⟨·, ancestors⟩)) cache) l) :
    l.Bounded shelves ancestors maxDepth ds := by
  have hg : r.Gives (Cache.Within (Shelf.allPlaces shelves ds)) := gives_within hs hr
  rw [←map_task] at h
  have ⟨frames, ws, rs, hf⟩ := exists_framed hg (hc.within fun _ => Shelf.places_subset)
    (fun _ hm => exact_of_mem hm (List.subset_append_left _ _)) h
  refine ⟨frames, ws ++ rs, hf.calls, ?_, hf.all, allGuarded hg hl hf.answers⟩
  rw [List.map_append, hf.waiting, hf.ready]

end Expansions

-- Documents may include themselves and one another, and the cache may hold what they were before. It
-- makes no difference in which order the tasks go on, nor if an overlong level was met.
theorem expansions_bounded {shelves : List Shelf} {s : Shelf} {cache : Cache}
    (hs : s ∈ shelves) (hc : cache.Reachable shelves) (ancestors : List Text) (maxDepth : Int)
    (style : Style) :
    let r : Renderer := { library := s.library, limit := .ofInt maxDepth, style }
    (∀ t : Tree,
      (∀ o, t.directives = .error o →
        (r.render ancestors t cache).result = .error (.overlong o) ∧
          (r.render ancestors t cache).calls = []) ∧
      ∀ ds, t.directives = .ok ds →
        (r.render ancestors t cache).Bounded shelves ancestors maxDepth ds) ∧
    (∀ d : Directive, (r.expand ancestors d cache).Bounded shelves ancestors maxDepth [d]) ∧
    ∀ ds : List Directive,
      let start : Loop := .start (ds.map (⟨·, ancestors⟩)) cache
      Acc (fun l' l => r.Moves Call.inner l l') start ∧
        ∀ l, ReflTransGen (r.Moves Call.inner) start l →
          l.Bounded shelves ancestors maxDepth ds ∧
            (l.ready ≠ [] ∨ l.waiting ≠ [] → ∃ l', r.Moves Call.inner l l') := by
  intro r
  have hp := hc.placed
  refine ⟨fun t => ⟨fun o hd => ?_, fun ds hd => ?_⟩, fun d => ?_, fun ds => ⟨acc_start hp, ?_⟩⟩
  · exact ⟨by simp only [render, hd], by simp only [render, hd]⟩
  · exact bounded (r := r) hs rfl rfl hc (by simp only [render, hd]) fun _ => render_ends hp
  · exact bounded hs rfl rfl hc rfl fun _ => expand_ends hp
  · exact fun l h => ⟨loop_bounded hs rfl rfl hc h, exists_moves⟩

open Transclusion.Shelf (rooms) in
theorem expansions_bounded_rooms :
    (rooms.renderer.render [] rooms.hall rooms.cache).Bounded [rooms] [] 16 rooms.hall.occurrences ∧
      ∀ c ∈ (rooms.renderer.render [] rooms.hall rooms.cache).calls, ∀ limit,
        c.outcome ≠ .error (.tooDeep limit) := by
  have hs : rooms ∈ [rooms] := List.mem_singleton_self _
  have hc : rooms.cache.Reachable [rooms] := .resolve hs (.empty 1) _ _ _
  have hd : rooms.hall.directives = .ok rooms.hall.occurrences := by decide +kernel
  have hb : (rooms.renderer.render [] rooms.hall rooms.cache).Bounded _ _ _ _ :=
    ((expansions_bounded hs hc [] 16 {}).left rooms.hall).right _ hd
  refine ⟨hb, fun c hm limit => ?_⟩
  obtain ⟨frames, hf, _, ha⟩ := hb.frames
  rw [←hf] at hm
  obtain ⟨f, hmf, rfl⟩ := List.mem_map.mp hm
  exact ha.room (by decide +kernel) f hmf limit

end Renderer

end Transclusion
