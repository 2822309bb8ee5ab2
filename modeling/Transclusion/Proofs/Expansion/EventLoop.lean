import Transclusion.Proofs.Expansion.Unfolding

namespace Transclusion

-- What is ready: a task that is to start, or one that goes on after something that it waited for.
inductive Event
  | start (t : Task)
  | goOn

def Event.task? : Event → Option Task
  | start t => some t
  | goOn    => none

namespace Renderer

variable (r : Renderer)

-- The calls that an event loop makes until nothing is ready any more. A task that starts is
-- resolved, and what is inside it gets ready behind all else. A task that goes on resolves nothing.
-- Both may make others go on.
inductive Runs : List Event → Cache → List Call → Cache → Prop
  | done {cache} : Runs [] cache [] cache
  | start {t queue cache inner others calls cache'}
    (hi : t.innerOf (resolve r.library r.limit t.ancestors t.directive cache).outcome = .ok inner)
    (hr : Runs (queue ++ inner.map .start ++ List.replicate others .goOn)
      (resolve r.library r.limit t.ancestors t.directive cache).cache calls cache') :
    Runs (.start t :: queue) cache
      (⟨t, (resolve r.library r.limit t.ancestors t.directive cache).outcome,
        (resolve r.library r.limit t.ancestors t.directive cache).accesses⟩ :: calls) cache'
  | goOn {queue cache others calls cache'}
    (hr : Runs (queue ++ List.replicate others .goOn) cache calls cache') :
    Runs (.goOn :: queue) cache calls cache'

variable {r} {queue : List Event} {cache cache' : Cache} {calls : List Call}

section Steps

@[simp] theorem filterMap_task?_start (ts : List Task) :
    (ts.map Event.start).filterMap Event.task? = ts := by
  simp [List.filterMap_map, Function.comp_def, Event.task?]

@[simp] theorem filterMap_task?_goOn (n : Nat) :
    (List.replicate n Event.goOn).filterMap Event.task? = [] := by
  simp [List.filterMap_replicate, Event.task?]

-- A task that starts and makes no others go on.
theorem Runs.start_alone {t : Task} {ts inner : List Task}
    (hi : t.innerOf (resolve r.library r.limit t.ancestors t.directive cache).outcome = .ok inner)
    (hr : r.Runs ((ts ++ inner).map .start)
      (resolve r.library r.limit t.ancestors t.directive cache).cache calls cache') :
    r.Runs ((t :: ts).map .start) cache
      (⟨t, (resolve r.library r.limit t.ancestors t.directive cache).outcome,
        (resolve r.library r.limit t.ancestors t.directive cache).accesses⟩ :: calls) cache' := by
  have hz : List.replicate 0 Event.goOn = [] := rfl
  rw [List.map_append, ←List.append_nil (_ ++ _), ←hz] at hr
  exact .start hi hr

-- Only the tasks that are to start matter.
theorem Runs.starts (h : r.Runs queue cache calls cache') :
    r.Runs ((queue.filterMap Event.task?).map .start) cache calls cache' := by
  induction h
  case done => exact .done
  case start hi _ hr =>
    simp only [List.filterMap_append, filterMap_task?_start, filterMap_task?_goOn,
      List.append_nil] at hr
    exact .start_alone hi hr
  case goOn hr =>
    rw [List.filterMap_append, filterMap_task?_goOn, List.append_nil] at hr
    exact hr

theorem runs_nil_iff : r.Runs [] cache calls cache' ↔ calls = [] ∧ cache' = cache := by
  constructor
  case mp =>
    intro h
    cases h
    exact ⟨rfl, rfl⟩
  case mpr =>
    rintro ⟨rfl, rfl⟩
    exact .done

theorem runs_cons_iff {t : Task} {ts : List Task} :
    let x := resolve r.library r.limit t.ancestors t.directive cache
    r.Runs ((t :: ts).map .start) cache calls cache' ↔
      ∃ inner rest, t.innerOf x.outcome = .ok inner ∧ calls = ⟨t, x.outcome, x.accesses⟩ :: rest ∧
        r.Runs ((ts ++ inner).map .start) x.cache rest cache' := by
  intro x
  constructor
  case mp =>
    intro h
    cases h
    case start inner _ rest hi hr =>
      refine ⟨inner, rest, hi, rfl, ?_⟩
      simpa only [List.filterMap_append, filterMap_task?_start, filterMap_task?_goOn,
        List.append_nil] using hr.starts
  case mpr =>
    rintro ⟨inner, rest, hi, rfl, hr⟩
    exact .start_alone hi hr

-- A level that stands in front is served whole, and what is inside it gets behind the others.
theorem runs_append_iff {ts us : List Task} :
    r.Runs ((ts ++ us).map .start) cache calls cache' ↔
      ∃ inner rest,
        (r.resolveAll ts cache).1.mapM (fun c => c.task.innerOf c.outcome) = .ok inner ∧
          calls = (r.resolveAll ts cache).1 ++ rest ∧
            r.Runs ((us ++ inner.flatten).map .start) (r.resolveAll ts cache).2 rest cache' := by
  induction ts generalizing us cache calls
  case nil => simp [resolveAll, pure, Except.pure, eq_comm]
  case cons t ts hi =>
    simp only [List.cons_append, runs_cons_iff, List.append_assoc, hi, resolveAll,
      mapM_cons_eq_ok_iff]
    constructor
    case mp =>
      rintro ⟨inner, _, ht, rfl, tss, rest, hs, rfl, hr⟩
      exact ⟨_, rest, ⟨inner, tss, ht, hs, rfl⟩, rfl, by simpa using hr⟩
    case mpr =>
      rintro ⟨_, rest, ⟨inner, tss, ht, hs, rfl⟩, rfl, hr⟩
      exact ⟨inner, _, ht, rfl, tss, rest, hs, rfl, by simpa using hr⟩

-- Serving one level leads to the next.
theorem runs_level_iff {ts : List Task} {inner : List (List Task)}
    (hi : (r.resolveAll ts cache).1.mapM (fun c => c.task.innerOf c.outcome) = .ok inner) :
    r.Runs (ts.map .start) cache calls cache' ↔
      ∃ rest, calls = (r.resolveAll ts cache).1 ++ rest ∧
        r.Runs (inner.flatten.map .start) (r.resolveAll ts cache).2 rest cache' := by
  rw [←List.append_nil ts, runs_append_iff, List.append_nil]
  simp only [hi, Except.ok.injEq, exists_and_left, exists_eq_left', List.nil_append]

end Steps

-- An event loop makes the calls of an expansion level by level, if nothing interrupts this.
theorem Expands.runs_iff {n : Nat} {tasks : List Task} {c : Cache} {x : Expansion (List Text)}
    {texts : List Text} (h : r.Expands n tasks c x) (hx : x.result = .ok texts) :
    r.Runs (tasks.map .start) c calls cache' ↔ calls = x.calls ∧ cache' = x.cache := by
  induction h generalizing texts calls
  all_goals obtain ⟨inner, us, hi, hu⟩ := gather_eq_ok hx
  case last hf =>
    rw [flatMap_inner hi] at hf
    rw [runs_level_iff hi, hf, List.map_nil]
    simp [runs_nil_iff]
  case starved => cases hu
  case deeper hr =>
    rw [flatMap_inner hi] at hr
    simp only [runs_level_iff hi, hr hu]
    simp

variable {ancestors : List Text} {t : Tree}

-- The calls of a rendering are the level order of its unfolding, whatever the cache has or drops,
-- and an event loop makes no others.
theorem calls_in_level_order (hc : cache.Coherent r.library)
    (hl : ∀ ancestors' u, r.Reaches ancestors t ancestors' u → Legible u.keywords) :
    let x := r.render ancestors t cache
    let u := r.unfolding ancestors t.occurrences
    x.calls.map Call.bare = u.levelOrder.map r.freshCall ∧
      (x.calls.map (·.task)).Perm u.preorder ∧
        ∀ calls cache',
          r.Runs (t.occurrences.map fun d => .start ⟨d, ancestors⟩) cache calls cache' ↔
            calls = x.calls ∧ cache' = x.cache := by
  intro x u
  let ts := t.occurrences.map (Task.mk · ancestors)
  have hx : x = { r.expandAll (r.levelsLeft ancestors) ts cache with result := x.result } := by
    simp only [x, ts, render, Tree.directives_of_legible (hl _ _ .here)]
  have hb : ∀ v ∈ ts, r.LegibleBelow v := by
    intro v hv
    obtain ⟨d, hd, rfl⟩ := List.mem_map.mp hv
    exact fun _ hs _ _ hr => hl _ _ (.inside hd hs hr)
  have he := expandAll_eq_plainTask (n := r.levelsLeft ancestors) hc (by simp [ts]) hb
  obtain ⟨m, hm, hs⟩ := (expands ..).levels he hc hb
  have ho : x.calls.map Call.bare = u.levelOrder.map r.freshCall := by
    rw [hx, hs, levelOrder_unfolding hm]
  refine ⟨ho, ?_, fun calls cache' => ?_⟩
  · have ht := congrArg (List.map Call.task) ho
    simp only [List.map_map, Function.comp_def, Call.bare, freshCall, List.map_id'] at ht
    exact ht ▸ u.levelOrder_perm_preorder
  · have hr : r.Runs (ts.map .start) cache calls cache' ↔ _ := (expands ..).runs_iff he
    rw [List.map_map] at hr
    rw [hx]
    exact hr

open Transclusion.Shelf (rooms) in
-- Around the stairs the hall is being expanded. It is tried before what is inside the attic, although
-- this is depth first the other way round.
theorem calls_in_level_order_rooms :
    let stairs := Tree.whole (.ofText "#+transclude: [[attic.org]]\n#+transclude: [[hall.org]]".toList)
    let x := rooms.renderer.render ["hall.org".toList] stairs rooms.cache
    let u := rooms.renderer.unfolding ["hall.org".toList] stairs.occurrences
    (x.calls.map Call.bare = u.levelOrder.map rooms.renderer.freshCall ∧
      (x.calls.map (·.task)).Perm u.preorder ∧
        rooms.renderer.Runs (stairs.occurrences.map fun d => .start ⟨d, ["hall.org".toList]⟩)
          rooms.cache x.calls x.cache) ∧
      x.calls.map (fun c => (c.task.directive.link.text, c.task.ancestors)) =
        [("attic.org".toList, ["hall.org".toList]), ("hall.org".toList, ["hall.org".toList]),
          ("hall.org::*Hall".toList, ["attic.org".toList, "hall.org".toList])] := by
  intro stairs x u
  have hc : rooms.cache.Coherent rooms.library := Cache.Coherent.resolve (.of_empty rfl)
  have hl : ∀ ancestors v, rooms.renderer.Reaches ["hall.org".toList] stairs ancestors v →
      Legible v.keywords :=
    fun _ _ hr => hr.legible (fun _ _ => Shelf.legible_fetch (s := rooms) (by decide +kernel))
      (by decide +kernel)
  have ⟨ho, hp, hr⟩ := calls_in_level_order (r := rooms.renderer) hc hl
  exact ⟨⟨ho, hp, (hr _ _).mpr ⟨rfl, rfl⟩⟩, by decide +kernel⟩

end Renderer

end Transclusion
