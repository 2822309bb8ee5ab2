import Transclusion.Proofs.Expansion.Ends

namespace Transclusion

namespace Library

-- The directives that can come up when `t` is rendered: its own, and those in what they include.
inductive Meets (lib : Library) (t : Tree) : Directive → Prop
  | here {d} (h : d ∈ t.occurrences) : Meets lib t d
  | inside {d d' e} (h : Meets lib t d) (hf : (lib.fetch d).1 = .ok e)
    (hd : d' ∈ e.content.occurrences) : Meets lib t d'

-- For the directives that can come up, what is kept leads to no others.
def Keeps (lib : Library) (t : Tree) (k : Directive.Identity) (e : Included) : Prop :=
  ∀ d, lib.Meets t d → d.identity = k → ∀ d' ∈ e.content.occurrences, lib.Meets t d'

def Agrees (lib lib' : Library) (t : Tree) : Prop :=
  ∀ d, lib.Meets t d → lib.fetch d = lib'.fetch d

end Library

namespace Renderer

variable {r : Renderer} {lib : Library} {n : Nat} {tasks : List Task} {cache : Cache} {t : Tree}

theorem gives_keeps (r : Renderer) (t : Tree) : r.Gives (r.library.Keeps t) :=
  fun _ _ _ hf _ hm hi _ hd => .inside hm (Library.fetch_congr hi ▸ hf) hd

section Agreement

theorem resolveAll_of_agrees (ha : r.library.Agrees lib t)
    (ht : ∀ u ∈ tasks, r.library.Meets t u.directive) (cache : Cache) :
    r.resolveAll tasks cache = { r with library := lib }.resolveAll tasks cache := by
  induction tasks generalizing cache
  case nil => rfl
  case cons u us hi =>
    have ⟨hu, hus⟩ := List.forall_mem_cons.mp ht
    simp only [resolveAll, resolve_congr (ha _ hu), hi hus]

-- What is inside a call can come up if its task can.
theorem MadeWith.meets_of_mem_inner {c : Call} {u : Task} (h : r.MadeWith (r.library.Keeps t) c)
    (hm : r.library.Meets t c.task.directive) (hu : u ∈ c.inner) : r.library.Meets t u.directive := by
  obtain ⟨s, ho, d, hd, rfl⟩ := Call.exists_of_mem_inner hu
  have ⟨_, hk⟩ := h.of_ok (r.gives_keeps t) ho
  exact hk _ hm rfl d hd

theorem meets_of_mem_inner (hc : cache.All (r.library.Keeps t))
    (ht : ∀ u ∈ tasks, r.library.Meets t u.directive) :
    ∀ u ∈ (r.resolveAll tasks cache).1.flatMap Call.inner, r.library.Meets t u.directive := by
  intro u hu
  have ⟨c, hm, hu⟩ := List.mem_flatMap.mp hu
  have hw := madeWith_of_mem_resolveAll (r.gives_keeps t) hc c hm
  exact hw.meets_of_mem_inner (ht _ (task_mem_of_mem_resolveAll hm)) hu

theorem expandAll_of_agrees (ha : r.library.Agrees lib t) (hc : cache.All (r.library.Keeps t))
    (ht : ∀ u ∈ tasks, r.library.Meets t u.directive) :
    r.expandAll n tasks cache = { r with library := lib }.expandAll n tasks cache := by
  have hs : { r with library := lib }.assembleAll = r.assembleAll := funext₂ (assembleAll_congr rfl)
  have hg : { r with library := lib }.gather = r.gather := by
    funext calls texts
    rw [gather, gather, hs]
  induction n generalizing tasks cache
  all_goals
    have hr := resolveAll_of_agrees ha ht cache
    rw [expandAll, expandAll]
    simp only [←hr, hg]
    cases hn : (r.resolveAll tasks cache).1.flatMap Call.inner <;> simp only
  case succ.cons n hb u us =>
    have hm := hn ▸ meets_of_mem_inner hc ht
    rw [hb (all_resolveAll (r.gives_keeps t) hc) hm]

theorem render_of_agrees (ha : r.library.Agrees lib t) (hc : cache.All (r.library.Keeps t)) :
    r.render [] t cache = { r with library := lib }.render [] t cache := by
  rw [render, render]
  cases hd : t.directives
  case error => rfl
  case ok ds =>
    obtain ⟨_, rfl⟩ := Tree.directives_eq_ok_iff.mp hd
    have ht : ∀ u ∈ t.occurrences.map (Task.mk · []), r.library.Meets t u.directive :=
      List.forall_mem_map.mpr fun _ => .here
    simp only [expandAll_of_agrees ha hc ht]
    rfl

theorem resolveEach_of_agrees {ds : List Directive} (ha : r.library.Agrees lib t)
    (hd : ds ⊆ t.occurrences) (cache : Cache) :
    r.resolveEach ds cache = { r with library := lib }.resolveEach ds cache :=
  resolveAll_of_agrees ha (List.forall_mem_map.mpr fun _ hm => .here (hd hm)) cache

end Agreement

end Renderer

end Transclusion
