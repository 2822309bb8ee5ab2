import Transclusion.Proofs.Expansion.Coherence
import Transclusion.Proofs.Expansion.Locality

namespace Transclusion

-- A finding tells of its call.
def Finding.Reports (x : Finding) (c : Call) : Prop :=
  ∃ f, c.outcome = .error f ∧ x.severity = f.severity ∧
    x.message = c.task.directive.link.text ++ ": ".toList ++ f.message ∧
      x.directive = c.task.directive

theorem Finding.forall₂_ofCall? (calls : List Call) :
    List.Forall₂ Reports (calls.filterMap ofCall?) (calls.filter fun c => !c.outcome.isOk) := by
  induction calls
  case nil => exact .nil
  case cons c cs hi =>
    cases ho : c.outcome
    case ok => simpa [ofCall?, ho, Except.isOk, Except.toBool] using hi
    case error f =>
      have hr : List.filter (fun c => !c.outcome.isOk) (c :: cs) =
          c :: cs.filter fun c => !c.outcome.isOk := by simp [ho, Except.isOk, Except.toBool]
      have hf : (c :: cs).filterMap ofCall? =
          ⟨f.severity, c.task.directive.link.text ++ ": ".toList ++ f.message, c.task.directive⟩ ::
            cs.filterMap ofCall? := by simp [ofCall?, ho]
      rw [hr, hf]
      exact .cons ⟨f, ho, rfl, rfl, rfl⟩ hi

namespace Renderer

variable {r : Renderer} {n : Nat} {tasks : List Task} {cache cache' : Cache} {t : Tree}

section Nesting

variable {x : Expansion (List Text)}

theorem ancestors_of_mem_inner {calls : List Call} {u : Task} (hu : u ∈ calls.flatMap Call.inner) :
    u.ancestors ≠ [] := by
  obtain ⟨c, _, hu⟩ := List.mem_flatMap.mp hu
  obtain ⟨s, _, d, _, rfl⟩ := Call.exists_of_mem_inner hu
  exact List.ne_nil_of_mem List.mem_insert_self

theorem Expands.ancestors_ne_nil (h : r.Expands n tasks cache x)
    (ht : ∀ t ∈ tasks, t.ancestors ≠ []) : ∀ c ∈ x.calls, c.task.ancestors ≠ [] := by
  induction h
  case deeper hr =>
    refine List.forall_mem_append.mpr ⟨fun c hc => ht _ (task_mem_of_mem_resolveAll hc), hr ?_⟩
    exact fun _ => ancestors_of_mem_inner
  all_goals exact fun c hc => ht _ (task_mem_of_mem_resolveAll hc)

-- All calls but those of the first level are made inside another.
theorem Expands.exists_nested (h : r.Expands n tasks cache x) :
    ∃ nested, x.calls = (r.resolveAll tasks cache).1 ++ nested ∧
      ∀ c ∈ nested, c.task.ancestors ≠ [] := by
  cases h
  case deeper below _ hb =>
    exact ⟨below.calls, rfl, hb.ancestors_ne_nil fun _ => ancestors_of_mem_inner⟩
  all_goals exact ⟨[], (List.append_nil _).symm, List.forall_mem_nil _⟩

end Nesting

-- A check and a rendering that agree: `outer` are the calls that the rendering makes for the
-- directives of the outline itself, and `nested` those for what these include.
structure Agrees (r : Renderer) (t : Tree) (check : Expansion (List Finding))
    (render : Expansion Text) (outer nested : List Call) : Prop where
  calls : render.calls = outer ++ nested
  own : outer.map (·.task) = t.occurrences.map (⟨·, []⟩)
  inside : ∀ c ∈ nested, c.task.ancestors ≠ []
  findings : ∃ xs, check.result = .ok xs ∧
    List.Forall₂ Finding.Reports xs (outer.filter fun c => !c.outcome.isOk)
  text : ∃ text, render.result = .ok (t.markupWith (r.style.line text)) ∧
    ∀ c ∈ outer, ∀ f, c.outcome = .error f → text c.task.directive = failureText f

theorem exists_agrees (hc : cache.Coherent r.library) (hc' : cache'.Coherent r.library)
    (hl : ∀ ancestors u, r.Reaches [] t ancestors u → Legible u.keywords) :
    ∃ outer nested, r.Agrees t (r.check t cache) (r.render [] t cache') outer nested := by
  have hd := Tree.directives_of_legible (hl _ _ .here)
  let tasks : List Task := t.occurrences.map (⟨·, []⟩)
  have ⟨nested, hn, hi⟩ := (expands (r := r) (r.levelsLeft []) tasks cache').exists_nested
  refine ⟨(r.resolveAll tasks cache').1, nested, ?calls, resolveAll_tasks .., hi, ?findings, ?text⟩
  case calls => simp only [render, hd, hn, tasks]
  case findings =>
    have hb := (resolveAll_bare hc tasks).trans (resolveAll_bare hc' tasks).symm
    have hf := congrArg (List.filterMap Finding.ofCall?) hb
    simp only [filterMap_ofCall?_bare] at hf
    refine ⟨_, ?_, Finding.forall₂_ofCall? _⟩
    simp only [check, hd, resolveEach, ←hf, tasks]
  case text =>
    refine ⟨r.plainExpand [], render_of_legible hc' hl, fun c hm f ho => ?_⟩
    have hw := (madeWith_of_mem_resolveAll gives_fits hc' c hm).outcome_eq
    obtain ⟨d, _, ht⟩ := List.mem_map.mp (task_mem_of_mem_resolveAll hm)
    rw [←ht] at hw ⊢
    exact r.plainExpand_of_error (hw.symm.trans ho)

-- The cache that one of the two leaves is as good for the other as the first.
theorem check_agrees_with_render (hc : cache.Coherent r.library)
    (hl : ∀ ancestors u, r.Reaches [] t ancestors u → Legible u.keywords) :
    (∃ outer nested,
      r.Agrees t (r.check t cache) (r.render [] t (r.check t cache).cache) outer nested) ∧
    ∃ outer nested,
      r.Agrees t (r.check t (r.render [] t cache).cache) (r.render [] t cache) outer nested :=
  ⟨exists_agrees hc (all_check gives_fits hc) hl, exists_agrees (all_render gives_fits hc) hc hl⟩

open Transclusion.Shelf (rooms) in
theorem check_agrees_with_render_cellar :
    let t : Tree :=
      .whole (.ofText "#+transclude: [[attic.org]]\n#+transclude: [[cellar.org]]\n".toList)
    let check := rooms.renderer.check t rooms.cache
    rooms.cache.length = 1 ∧
      (∃ outer nested,
        rooms.renderer.Agrees t check (rooms.renderer.render [] t check.cache) outer nested) ∧
      check.result =
        .ok [{ severity := .error
               message := "cellar.org: File not found: cellar.org".toList
               directive := { link := { body := "cellar.org".toList } } }] := by
  intro t check
  have hc : rooms.cache.Coherent rooms.library := Cache.Coherent.resolve (.of_empty rfl)
  have hl : ∀ ancestors u, rooms.renderer.Reaches [] t ancestors u → Legible u.keywords :=
    fun _ _ hr => hr.legible (fun _ _ => Shelf.legible_fetch (s := rooms) (by decide +kernel))
      (by decide +kernel)
  exact ⟨by decide +kernel, (check_agrees_with_render (r := rooms.renderer) hc hl).left,
    by decide +kernel⟩

end Renderer

end Transclusion
