import Transclusion.Proofs.Expansion.Levels
import Transclusion.Proofs.Shelf.Documents

namespace Transclusion

namespace Renderer

variable (r : Renderer)

-- The text for a directive, from what it includes when nothing is cached.
def plainExpand (ancestors : List Text) (d : Directive) : Text :=
  match _h : fresh r.library r.limit ancestors d with
  | .error f => failureText f
  | .ok s =>
    (if r.style.headers then headerLine d else []) ++
      s.included.content.markupWith
        (r.style.line (plainExpand (ancestors.insert d.sourceId)))
termination_by r.levelsLeft ancestors
decreasing_by exact levelsLeft_insert_lt (fresh_eq_ok_iff.mp _h).left

def plain (ancestors : List Text) (t : Tree) : Text :=
  t.markupWith (r.style.line (r.plainExpand ancestors))

-- The trees that one comes to from a tree, each with the places that are being expanded around it.
inductive Reaches : List Text → Tree → List Text → Tree → Prop
  | here {ancestors t} : Reaches ancestors t ancestors t
  | inside {ancestors t d s ancestors' u} (hd : d ∈ t.occurrences)
    (hs : fresh r.library r.limit ancestors d = .ok s)
    (hr : Reaches (ancestors.insert d.sourceId) s.included.content ancestors' u) :
    Reaches ancestors t ancestors' u

theorem plainExpand_of_error {ancestors : List Text} {d : Directive} {f : Failure}
    (h : fresh r.library r.limit ancestors d = .error f) :
    r.plainExpand ancestors d = failureText f := by
  rw [plainExpand]
  split <;> simp_all

theorem plainExpand_of_ok {ancestors : List Text} {d : Directive} {s : Success}
    (h : fresh r.library r.limit ancestors d = .ok s) :
    r.plainExpand ancestors d =
      (if r.style.headers then headerLine d else []) ++
        r.plain (ancestors.insert d.sourceId) s.included.content := by
  rw [plainExpand]
  split <;> simp_all [plain]

variable {r} in
-- If nothing that is included has an overlong level, none is met on the way.
theorem Reaches.legible {ancestors ancestors' : List Text} {t u : Tree}
    (hr : r.Reaches ancestors t ancestors' u)
    (hg : ∀ d e, (r.library.fetch d).1 = .ok e → Legible e.content.keywords)
    (ht : Legible t.keywords) : Legible u.keywords := by
  induction hr
  case here           => exact ht
  case inside hf _ hi => exact hi (hg _ _ (fresh_eq_ok_iff.mp hf).right.left)

section Tasks

variable {r} {t : Task} {c : Call}

-- None of the trees below the task has an overlong level.
def LegibleBelow (r : Renderer) (t : Task) : Prop :=
  ∀ s, fresh r.library r.limit t.ancestors t.directive = .ok s → ∀ ancestors u,
    r.Reaches (t.ancestors.insert t.directive.sourceId) s.included.content ancestors u →
      Legible u.keywords

-- The tasks inside a task when nothing is cached.
def innerTasks (r : Renderer) (t : Task) : List Task :=
  match fresh r.library r.limit t.ancestors t.directive with
  | .error _ => []
  | .ok s => s.included.content.occurrences.map (⟨·, t.ancestors.insert t.directive.sourceId⟩)

def plainTask (r : Renderer) (t : Task) : Text :=
  r.plainExpand t.ancestors t.directive

theorem MadeWith.outcome_eq (h : r.MadeWith (Cache.Fits r.library) c) :
    c.outcome = fresh r.library r.limit c.task.ancestors c.task.directive := by
  have ⟨_, hc, ho⟩ := h
  rw [ho, Cache.Coherent.resolve_outcome hc]

theorem LegibleBelow.inner (h : r.LegibleBelow t) : ∀ u ∈ r.innerTasks t, r.LegibleBelow u := by
  intro u hu
  rw [innerTasks] at hu
  split at hu
  case h_1 => cases hu
  case h_2 s hs =>
    obtain ⟨d, hd, rfl⟩ := List.mem_map.mp hu
    exact fun _ hs' _ _ hr => h s hs _ _ (.inside hd hs' hr)

theorem innerOf_eq_innerTasks (h : r.LegibleBelow c.task)
    (ho : c.outcome = fresh r.library r.limit c.task.ancestors c.task.directive) :
    c.task.innerOf c.outcome = .ok (r.innerTasks c.task) := by
  cases hs : c.outcome
  case error => simp [Task.innerOf, innerTasks, ←ho, hs]
  case ok s =>
    have hf := ho.symm.trans hs
    have hi := Library.sourceId_of_fetch (fresh_eq_ok_iff.mp hf).right.left
    have hl := Tree.directives_of_legible (h s hf _ _ .here)
    simp [Task.innerOf, Task.inner, innerTasks, ←ho, hs, hl, hi, Except.map]

theorem levelsLeft_innerTasks {u : Task} (h : u ∈ r.innerTasks t) :
    r.levelsLeft u.ancestors < r.levelsLeft t.ancestors := by
  rw [innerTasks] at h
  split at h
  case h_1 => cases h
  case h_2 s hs =>
    obtain ⟨d, _, rfl⟩ := List.mem_map.mp h
    exact levelsLeft_insert_lt (fresh_eq_ok_iff.mp hs).left

-- Assembling takes the texts of the inner tasks, and leaves the others.
theorem assemble_eq_plainTask (h : r.LegibleBelow c.task)
    (ho : c.outcome = fresh r.library r.limit c.task.ancestors c.task.directive)
    (rest : List Text) :
    r.assemble c ((r.innerTasks c.task).map r.plainTask ++ rest) = .ok (r.plainTask c.task, rest) := by
  cases hs : c.outcome
  case error f =>
    have hf := ho.symm.trans hs
    simp [assemble, hs, innerTasks, plainTask, hf, r.plainExpand_of_error hf]
  case ok s =>
    have hf := ho.symm.trans hs
    have hw := Tree.weave_map_occurrences (h s hf _ _ .here) r.style
      (r.plainExpand (c.task.ancestors.insert c.task.directive.sourceId)) rest
    simp only [assemble, hs, innerTasks, hf, plainTask, r.plainExpand_of_ok hf, List.map_map,
      Function.comp_def, hw, bind, Except.bind, plain]

end Tasks

section Levels

variable {r} {n : Nat} {tasks : List Task} {cache : Cache}

theorem mapM_innerOf_eq_innerTasks {calls : List Call}
    (hl : ∀ c ∈ calls, r.LegibleBelow c.task)
    (ho : ∀ c ∈ calls, c.outcome = fresh r.library r.limit c.task.ancestors c.task.directive) :
    calls.mapM (fun c => c.task.innerOf c.outcome) = .ok (calls.map (r.innerTasks ·.task)) := by
  rw [mapM_eq_ok_iff, List.forall₂_map_right_iff, List.forall₂_same]
  exact fun c hm => innerOf_eq_innerTasks (hl c hm) (ho c hm)

theorem assembleAll_eq_plainTask {calls : List Call} (hl : ∀ c ∈ calls, r.LegibleBelow c.task)
    (ho : ∀ c ∈ calls, c.outcome = fresh r.library r.limit c.task.ancestors c.task.directive) :
    r.assembleAll calls ((calls.flatMap (r.innerTasks ·.task)).map r.plainTask) =
      .ok (calls.map (r.plainTask ·.task)) := by
  induction calls
  case nil => rfl
  case cons c cs hi =>
    rw [List.forall_mem_cons] at hl ho
    have ha := assemble_eq_plainTask hl.left ho.left
    simp only [List.flatMap_cons, List.map_append, assembleAll, ha, hi hl.right ho.right, bind,
      Except.bind, List.map_cons]

-- On a coherent cache a level is resolved as if nothing were cached.
theorem resolveAll_eq_plainTask (hc : cache.Coherent r.library)
    (hl : ∀ t ∈ tasks, r.LegibleBelow t) :
    (r.resolveAll tasks cache).1.flatMap Call.inner = tasks.flatMap r.innerTasks ∧
      r.gather (r.resolveAll tasks cache).1 (.ok ((tasks.flatMap r.innerTasks).map r.plainTask)) =
        .ok (tasks.map r.plainTask) := by
  have hlc : ∀ c ∈ (r.resolveAll tasks cache).1, r.LegibleBelow c.task :=
    fun c hm => hl _ (task_mem_of_mem_resolveAll hm)
  have ho : ∀ c ∈ (r.resolveAll tasks cache).1, _ := fun c hm =>
    (madeWith_of_mem_resolveAll gives_fits hc c hm).outcome_eq
  have hm := mapM_innerOf_eq_innerTasks hlc ho
  have ha := assembleAll_eq_plainTask hlc ho
  rw [←gather_of_ok hm] at ha
  rw [resolveAll_map_task] at hm ha
  rw [List.flatMap_def, resolveAll_map_task, ←List.flatMap_def] at ha
  exact ⟨(flatMap_inner hm).trans List.flatMap_def.symm, ha⟩

theorem levelsLeft_lt_of_mem_innerTasks (hn : ∀ t ∈ tasks, r.levelsLeft t.ancestors ≤ n) {u : Task}
    (hu : u ∈ tasks.flatMap r.innerTasks) : r.levelsLeft u.ancestors < n := by
  have ⟨t, ht, hu⟩ := List.mem_flatMap.mp hu
  exact Nat.lt_of_lt_of_le (levelsLeft_innerTasks hu) (hn t ht)

theorem legibleBelow_of_mem_innerTasks (hl : ∀ t ∈ tasks, r.LegibleBelow t) {u : Task}
    (hu : u ∈ tasks.flatMap r.innerTasks) : r.LegibleBelow u := by
  have ⟨t, ht, hu⟩ := List.mem_flatMap.mp hu
  exact (hl t ht).inner u hu

theorem expandAll_eq_plainTask (hc : cache.Coherent r.library)
    (hn : ∀ t ∈ tasks, r.levelsLeft t.ancestors ≤ n) (hl : ∀ t ∈ tasks, r.LegibleBelow t) :
    (r.expandAll n tasks cache).result = .ok (tasks.map r.plainTask) := by
  have hx := expands (r := r) n tasks cache
  generalize r.expandAll n tasks cache = x at hx ⊢
  induction hx
  case last hf =>
    have ⟨hi, hg⟩ := resolveAll_eq_plainTask hc hl
    rwa [←hi, hf] at hg
  case starved hf =>
    -- With no level left, no task includes anything.
    have ⟨u, hu⟩ := List.exists_mem_of_ne_nil _ hf
    rw [(resolveAll_eq_plainTask hc hl).left] at hu
    exact absurd (levelsLeft_lt_of_mem_innerTasks hn hu) (Nat.not_lt_zero _)
  case deeper hr =>
    have ⟨hi, hg⟩ := resolveAll_eq_plainTask hc hl
    rw [hi] at hr
    have hb := hr (all_resolveAll gives_fits hc)
      (fun _ hu => Nat.le_of_lt_succ (levelsLeft_lt_of_mem_innerTasks hn hu))
      fun _ hu => legibleBelow_of_mem_innerTasks hl hu
    simpa only [hb] using hg

end Levels

-- Neither the order of the levels nor the cache shows in the text: hits, evictions and entries that
-- others left are all the same as resolving anew.
theorem render_eq_plain {ancestors : List Text} {t : Tree} {cache : Cache}
    (hc : cache.Coherent r.library)
    (hl : ∀ ancestors' u, r.Reaches ancestors t ancestors' u → Legible u.keywords) :
    (r.render ancestors t cache).result = .ok (r.plain ancestors t) := by
  have hd := Tree.directives_of_legible (hl _ _ .here)
  have hx : (r.expandAll (r.levelsLeft ancestors) (t.occurrences.map (⟨·, ancestors⟩)) cache).result =
      .ok ((t.occurrences.map (⟨·, ancestors⟩)).map r.plainTask) := by
    refine expandAll_eq_plainTask hc ?levels ?legible
    case levels => simp
    case legible =>
      intro u hu
      obtain ⟨d, hd, rfl⟩ := List.mem_map.mp hu
      exact fun _ hs _ _ hr => hl _ _ (.inside hd hs hr)
  have hw := Tree.weave_map_occurrences (hl _ _ .here) r.style (r.plainExpand ancestors) []
  rw [List.append_nil] at hw
  simp only [render, hd, hx, List.map_map, Function.comp_def, plainTask, Except.bind, hw, Except.map,
    plain]

open Transclusion.Shelf (rooms) in
theorem render_rooms :
    rooms.cache.length = 1 ∧
      (rooms.renderer.render [] rooms.hall rooms.cache).result =
        .ok (rooms.renderer.plain [] rooms.hall) ∧
      rooms.renderer.plain [] rooms.hall =
        "* Hall\ndust\n* Hall\n# transclusion failed: Circular transclusion detected\n".toList := by
  have hc : rooms.cache.Coherent rooms.library := Cache.Coherent.resolve (.of_empty rfl)
  have hl : ∀ ancestors u, rooms.renderer.Reaches [] rooms.hall ancestors u → Legible u.keywords :=
    fun _ _ hr => hr.legible (fun _ _ => Shelf.legible_fetch (s := rooms) (by decide +kernel))
      (by decide +kernel)
  have hp := render_eq_plain (r := rooms.renderer) hc hl
  refine ⟨by decide +kernel, hp, ?_⟩
  rw [←Except.ok.injEq (ε := Interruption), ←hp]
  decide +kernel

end Renderer

end Transclusion
