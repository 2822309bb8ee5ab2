import Transclusion.Proofs.Expansion.Levels

namespace Transclusion

-- The call without what was accessed for it.
def Call.bare (c : Call) : Call :=
  { c with accesses := [] }

namespace Renderer

variable {r : Renderer} {n : Nat} {tasks : List Task} {calls : List Call} {c c' : Cache}

-- The call that a task leads to when nothing is cached.
def freshCall (r : Renderer) (t : Task) : Call where
  task := t
  outcome := fresh r.library r.limit t.ancestors t.directive
  accesses := []

theorem resolveAll_bare (hc : c.Coherent r.library) (tasks : List Task) :
    (r.resolveAll tasks c).1.map Call.bare = tasks.map r.freshCall := by
  induction tasks generalizing c
  case nil => rfl
  case cons t ts hi =>
    simp only [resolveAll, List.map_cons, hi hc.resolve, Call.bare, hc.resolve_outcome, freshCall]

theorem mapM_innerOf_bare :
    (calls.map Call.bare).mapM (fun c => c.task.innerOf c.outcome) =
      calls.mapM fun c => c.task.innerOf c.outcome := by
  induction calls
  case nil          => rfl
  case cons c cs hi => simp only [List.map_cons, List.mapM_cons, hi, Call.bare]

theorem assembleAll_bare (texts : List Text) :
    r.assembleAll (calls.map Call.bare) texts = r.assembleAll calls texts := by
  induction calls generalizing texts
  case nil          => rfl
  case cons c cs hi => simp only [List.map_cons, assembleAll, assemble, hi, Call.bare]

-- Neither what is to be done on the next level nor how the texts are put together tells calls apart
-- that differ in what was accessed.
theorem congr_of_bare {calls' : List Call} (hb : calls.map Call.bare = calls'.map Call.bare) :
    calls.flatMap Call.inner = calls'.flatMap Call.inner ∧ r.gather calls = r.gather calls' := by
  have hn (cs : List Call) : (cs.map Call.bare).flatMap Call.inner = cs.flatMap Call.inner :=
    List.flatMap_map ..
  have hg (cs : List Call) : r.gather (cs.map Call.bare) = r.gather cs := by
    funext texts
    simp only [gather, mapM_innerOf_bare, assembleAll_bare]
  exact ⟨by rw [←hn calls, hb, hn], by rw [←hg calls, hb, hg]⟩

end Renderer

-- Expansions that differ in nothing but what was accessed.
structure Expansion.Alike {α : Type} (x y : Expansion α) : Prop where
  result : x.result = y.result
  calls : x.calls.map Call.bare = y.calls.map Call.bare

theorem Expansion.Alike.raising {α : Type} {x y : Expansion α} (h : x.Alike y) (limit : DepthLimit) :
    x.raising limit = y.raising limit := by
  have hb (cs : List Call) : (cs.map Call.bare).all
      (fun c => prints limit c.task.ancestors c.task.directive) =
        cs.all fun c => prints limit c.task.ancestors c.task.directive :=
    List.all_map
  rw [Expansion.raising, Expansion.raising, ←hb x.calls, h.calls, hb, h.result]

namespace Renderer

variable {r : Renderer} {n : Nat} {tasks : List Task} {calls : List Call} {c c' : Cache}

section Requests

variable {ancestors : List Text} {t : Tree} {d : Directive}

-- A finding tells nothing of what was accessed.
theorem filterMap_ofCall?_bare :
    (calls.map Call.bare).filterMap Finding.ofCall? = calls.filterMap Finding.ofCall? := by
  rw [List.filterMap_map]
  rfl

end Requests

end Renderer

end Transclusion
