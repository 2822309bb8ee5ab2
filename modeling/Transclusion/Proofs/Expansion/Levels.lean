import Transclusion.Check
import Transclusion.Proofs.Outline.Occurrences
import Transclusion.Proofs.Resolution.Coherence

namespace Transclusion

theorem Call.innerOf_of_mem_inner {c : Call} {t : Task} (h : t ∈ c.inner) :
    c.task.innerOf c.outcome = .ok c.inner := by
  rw [inner] at h ⊢
  cases hi : c.task.innerOf c.outcome <;> simp_all

namespace Renderer

variable (r : Renderer)

-- What the library gives has the property, if anything can be included at all.
def Gives (p : Directive.Identity → Included → Prop) : Prop :=
  ∀ d e, 0 < r.limit.bound → (r.library.fetch d).1 = .ok e → p d.identity e

-- The call is what comes of its task with a cache whose entries have the property.
def MadeWith (p : Directive.Identity → Included → Prop) (c : Call) : Prop :=
  ∃ cache : Cache, cache.All p ∧
    c.outcome = (resolve r.library r.limit c.task.ancestors c.task.directive cache).outcome

variable {r} {p : Directive.Identity → Included → Prop} {n : Nat} {tasks : List Task} {cache : Cache}

theorem gives_fits : r.Gives (Cache.Fits r.library) :=
  fun _ _ _ => Cache.fits_of_fetch

theorem MadeWith.of_ok {c : Call} {s : Success} (h : r.MadeWith p c) (hp : r.Gives p)
    (ho : c.outcome = .ok s) :
    refusal? r.limit c.task.ancestors c.task.directive = none ∧
      p c.task.directive.identity s.included := by
  have ⟨_, hc, hr⟩ := h
  exact hc.of_resolve (hp _) (hr ▸ ho)

theorem MadeWith.refused_iff {c : Call} {f : Failure} (h : r.MadeWith p c) (hf : f.isRefusal) :
    c.outcome = .error f ↔ refusal? r.limit c.task.ancestors c.task.directive = some f := by
  have ⟨_, _, hr⟩ := h
  rw [hr, resolve_eq_refusal_iff hf]

-- A success leaves one level less.
theorem levelsLeft_insert_lt {ancestors : List Text} {d : Directive}
    (h : refusal? r.limit ancestors d = none) :
    r.levelsLeft (ancestors.insert d.sourceId) < r.levelsLeft ancestors := by
  have ⟨hl, hm⟩ := refusal?_eq_none_iff.mp h
  rw [levelsLeft, levelsLeft, List.length_insert_of_not_mem hm]
  omega

section ResolveAll

@[simp] theorem resolveAll_tasks (tasks : List Task) (cache : Cache) :
    (r.resolveAll tasks cache).1.map (·.task) = tasks := by
  induction tasks generalizing cache
  case nil          => rfl
  case cons t ts hi => simp [resolveAll, hi]

theorem length_resolveAll : (r.resolveAll tasks cache).1.length = tasks.length := by
  have ht := congrArg List.length (resolveAll_tasks (r := r) tasks cache)
  rwa [List.length_map] at ht

theorem resolveAll_map_task {α : Type} (f : Task → α) :
    (r.resolveAll tasks cache).1.map (f ·.task) = tasks.map f := by
  rw [←resolveAll_tasks (r := r) tasks cache, List.map_map]
  simp [Function.comp_def]

theorem task_mem_of_mem_resolveAll {c : Call} (h : c ∈ (r.resolveAll tasks cache).1) :
    c.task ∈ tasks := by
  rw [←resolveAll_tasks (r := r) tasks cache]
  exact List.mem_map_of_mem h

theorem all_resolveAll (hp : r.Gives p) (hc : cache.All p) : (r.resolveAll tasks cache).2.All p := by
  induction tasks generalizing cache
  case nil          => exact hc
  case cons t ts hi => exact hi (hc.resolve (hp t.directive))

theorem madeWith_of_mem_resolveAll (hp : r.Gives p) (hc : cache.All p) :
    ∀ c ∈ (r.resolveAll tasks cache).1, r.MadeWith p c := by
  induction tasks generalizing cache
  case nil => simp [resolveAll]
  case cons t ts hi =>
    simp only [resolveAll, List.forall_mem_cons]
    exact ⟨⟨cache, hc, rfl⟩, hi (hc.resolve (hp t.directive))⟩

theorem resolveAll_append (ts us : List Task) (cache : Cache) :
    r.resolveAll (ts ++ us) cache =
      ((r.resolveAll ts cache).1 ++ (r.resolveAll us (r.resolveAll ts cache).2).1,
        (r.resolveAll us (r.resolveAll ts cache).2).2) := by
  induction ts generalizing cache
  case nil          => rfl
  case cons t ts hi => simp [resolveAll, hi]

-- How texts are written does not matter for what is resolved.
theorem resolveAll_style (style : Style) (tasks : List Task) (cache : Cache) :
    { r with style }.resolveAll tasks cache = r.resolveAll tasks cache := by
  induction tasks generalizing cache
  case nil          => rfl
  case cons t ts hi => simp only [resolveAll, hi]

end ResolveAll

-- Only the style matters when texts are put together.
theorem assembleAll_congr {r' : Renderer} (h : r'.style = r.style) (calls : List Call)
    (texts : List Text) : r'.assembleAll calls texts = r.assembleAll calls texts := by
  induction calls generalizing texts
  case nil          => rfl
  case cons c cs hi => simp only [assembleAll, assemble, h, hi]

section Gathering

variable {calls : List Call}

theorem flatMap_inner {inner : List (List Task)}
    (h : calls.mapM (fun c => c.task.innerOf c.outcome) = .ok inner) :
    calls.flatMap Call.inner = inner.flatten := by
  induction calls generalizing inner
  case nil =>
    cases h
    rfl
  case cons c cs hi =>
    obtain ⟨ts, tss, hc, hs, rfl⟩ := mapM_cons_eq_ok_iff.mp h
    rw [List.flatMap_cons, List.flatten_cons, hi hs, Call.inner, hc]

theorem gather_of_ok {inner : List (List Task)} {texts : List Text}
    (h : calls.mapM (fun c => c.task.innerOf c.outcome) = .ok inner) :
    r.gather calls (.ok texts) = r.assembleAll calls texts := by
  simp only [gather, h, bind, Except.bind]

theorem gather_eq_ok {texts : Except Interruption (List Text)} {us : List Text}
    (h : r.gather calls texts = .ok us) :
    ∃ inner ts, calls.mapM (fun c => c.task.innerOf c.outcome) = .ok inner ∧ texts = .ok ts := by
  cases hi : calls.mapM fun c => c.task.innerOf c.outcome
  case error => simp [gather, hi, bind, Except.bind] at h
  case ok inner =>
    cases texts
    case error => simp [gather, hi, bind, Except.bind] at h
    case ok ts => exact ⟨inner, ts, rfl, rfl⟩

end Gathering

variable (r) in
-- All that the tasks of one level can lead to, with `n` levels to follow at most.
inductive Expands : (n : Nat) → List Task → Cache → Expansion (List Text) → Prop
  | last {n : Nat} {tasks cache} (hn : (r.resolveAll tasks cache).1.flatMap Call.inner = []) :
    Expands n tasks cache ⟨r.gather (r.resolveAll tasks cache).1 (.ok []),
      (r.resolveAll tasks cache).2, (r.resolveAll tasks cache).1⟩
  | starved {tasks : List Task} {cache} (hn : (r.resolveAll tasks cache).1.flatMap Call.inner ≠ []) :
    Expands 0 tasks cache ⟨r.gather (r.resolveAll tasks cache).1 (.error .noTextLeft),
      (r.resolveAll tasks cache).2, (r.resolveAll tasks cache).1⟩
  | deeper {n tasks cache below} (hn : (r.resolveAll tasks cache).1.flatMap Call.inner ≠ [])
    (hb : Expands n ((r.resolveAll tasks cache).1.flatMap Call.inner) (r.resolveAll tasks cache).2
      below) :
    Expands (n + 1) tasks cache ⟨r.gather (r.resolveAll tasks cache).1 below.result, below.cache,
      (r.resolveAll tasks cache).1 ++ below.calls⟩

theorem expands (n : Nat) (tasks : List Task) (cache : Cache) :
    Expands r n tasks cache (r.expandAll n tasks cache) := by
  induction n generalizing tasks cache
  all_goals cases hn : (r.resolveAll tasks cache).1.flatMap Call.inner
  case zero.nil | succ.nil => simpa only [expandAll, hn] using .last hn
  case zero.cons           => simpa only [expandAll, hn] using .starved (by simp [hn])
  case succ.cons n hr t ts =>
    rw [expandAll]
    simpa only [hn] using .deeper (by simp [hn]) (hn ▸ hr ..)

section Runs

variable {x : Expansion (List Text)}

theorem Expands.all (h : Expands r n tasks cache x) (hp : r.Gives p) (hc : cache.All p) :
    x.cache.All p := by
  induction h
  case deeper hr => exact hr (all_resolveAll hp hc)
  all_goals exact all_resolveAll hp hc

-- The cache of an expansion is handed from call to call.
theorem Expands.resolveAll_calls (h : r.Expands n tasks cache x) :
    r.resolveAll (x.calls.map (·.task)) cache = (x.calls, x.cache) := by
  induction h
  case deeper hr => simp only [List.map_append, resolveAll_tasks, resolveAll_append, hr]
  all_goals rw [resolveAll_tasks]

theorem all_render {ancestors : List Text} {t : Tree} (hp : r.Gives p) (hc : cache.All p) :
    (r.render ancestors t cache).cache.All p := by
  rw [render]
  split
  · exact hc
  · exact (expands ..).all hp hc

theorem all_expand {ancestors : List Text} {d : Directive} (hp : r.Gives p) (hc : cache.All p) :
    (r.expand ancestors d cache).cache.All p :=
  (expands ..).all hp hc

theorem all_check {t : Tree} (hp : r.Gives p) (hc : cache.All p) :
    (r.check t cache).cache.All p := by
  rw [check]
  split
  · exact hc
  · exact all_resolveAll hp hc

end Runs

end Renderer

end Transclusion
