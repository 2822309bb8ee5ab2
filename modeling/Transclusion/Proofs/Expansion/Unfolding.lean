import Mathlib.Data.List.Perm.Basic
import Transclusion.Proofs.Expansion.Coherence
import Transclusion.Proofs.Expansion.Plain

namespace Transclusion

-- Tasks side by side, each with those inside it.
inductive Unfolding
  | nil
  | cons (task : Task) (inner rest : Unfolding)
  deriving DecidableEq

namespace Unfolding

-- Each task before those inside it, and these before those that follow it.
def preorder : Unfolding → List Task
  | nil => []
  | cons t inner rest => t :: (inner.preorder ++ rest.preorder)

def height : Unfolding → Nat
  | nil => 0
  | cons _ inner rest => max (inner.height + 1) rest.height

-- The tasks inside `n` others, from left to right.
def atDepth : Unfolding → (n : Nat) → List Task
  | nil, _ => []
  | cons t _ rest, 0 => t :: rest.atDepth 0
  | cons _ inner rest, n + 1 => inner.atDepth n ++ rest.atDepth (n + 1)

def levelOrder (u : Unfolding) : List Task :=
  (List.range u.height).flatMap u.atDepth

variable {u : Unfolding} {n : Nat}

theorem height_le_iff : u.height ≤ n ↔ u.atDepth n = [] := by
  induction u generalizing n
  case nil => simp [height, atDepth]
  case cons t inner rest hi hr =>
    cases n
    case zero   => simp [height, atDepth]
    case succ n =>
      rw [height, atDepth, List.append_eq_nil_iff, ←hi, ←hr]
      omega

-- Below the last level there is nothing.
theorem flatMap_atDepth (h : u.height ≤ n) : (List.range n).flatMap u.atDepth = u.levelOrder := by
  induction h
  case refl => rfl
  case step n h hi =>
    rw [List.range_succ, List.flatMap_append, hi, List.flatMap_singleton, height_le_iff.mp h,
      List.append_nil]

open scoped List in
-- Level order lists each task exactly once.
theorem levelOrder_perm_preorder (u : Unfolding) : u.levelOrder.Perm u.preorder := by
  induction u
  case nil => exact .nil
  case cons t inner rest hi hr =>
    let n := max inner.height rest.height
    have hn : (cons t inner rest).height ≤ n + 1 := by
      simp only [height, n]
      omega
    have hl : (List.range (n + 1)).flatMap rest.atDepth = rest.levelOrder :=
      flatMap_atDepth (by omega)
    have hm : (List.range n).flatMap inner.atDepth = inner.levelOrder := flatMap_atDepth (by omega)
    rw [List.range_succ_eq_map, List.flatMap_cons, List.flatMap_map] at hl
    calc (cons t inner rest).levelOrder
      _ = t :: (rest.atDepth 0 ++
            (List.range n).flatMap fun k => inner.atDepth k ++ rest.atDepth (k + 1)) := by
          rw [←flatMap_atDepth hn, List.range_succ_eq_map, List.flatMap_cons, List.flatMap_map]
          rfl
      _ ~ t :: (rest.atDepth 0 ++ ((List.range n).flatMap inner.atDepth ++
            (List.range n).flatMap fun k => rest.atDepth (k + 1))) :=
          ((List.flatMap_append_perm ..).symm.append_left _).cons _
      _ ~ t :: ((List.range n).flatMap inner.atDepth ++ (rest.atDepth 0 ++
            (List.range n).flatMap fun k => rest.atDepth (k + 1))) := by
          simpa only [List.append_assoc] using (List.perm_append_comm.append_right _).cons t
      _ = t :: (inner.levelOrder ++ rest.levelOrder) := by rw [hm, ←hl]
      _ ~ t :: (inner.preorder ++ rest.preorder) := (hi.append hr).cons _

end Unfolding

namespace Renderer

variable (r : Renderer)

-- The tasks that the plain recursion comes to.
def unfolding (ancestors : List Text) : List Directive → Unfolding
  | [] => .nil
  | d :: ds =>
    match _h : fresh r.library r.limit ancestors d with
    | .error _ => .cons ⟨d, ancestors⟩ .nil (unfolding ancestors ds)
    | .ok s =>
      .cons ⟨d, ancestors⟩
        (unfolding (ancestors.insert d.sourceId) s.included.content.occurrences)
        (unfolding ancestors ds)
termination_by ds => (r.levelsLeft ancestors, ds.length)
decreasing_by
  · exact .right _ (Nat.lt_succ_self _)
  · exact .left _ _ (levelsLeft_insert_lt (fresh_eq_ok_iff.mp _h).left)
  · exact .right _ (Nat.lt_succ_self _)

-- The tasks that one comes to by going `n` levels down from some tasks.
def tasksInside : (n : Nat) → List Task → List Task
  | 0, ts => ts
  | n + 1, ts => tasksInside n (ts.flatMap r.innerTasks)

variable {r} {n : Nat}

theorem tasksInside_nil : r.tasksInside n [] = [] := by
  induction n
  case zero        => rfl
  case succ n hi => exact hi

theorem tasksInside_append (ts us : List Task) :
    r.tasksInside n (ts ++ us) = r.tasksInside n ts ++ r.tasksInside n us := by
  induction n generalizing ts us
  case zero      => rfl
  case succ n hi => simp only [tasksInside, List.flatMap_append, hi]

theorem atDepth_unfolding (ancestors : List Text) (ds : List Directive) :
    (r.unfolding ancestors ds).atDepth n = r.tasksInside n (ds.map (⟨·, ancestors⟩)) := by
  fun_induction r.unfolding ancestors ds generalizing n
  case case1 => rw [List.map_nil, tasksInside_nil, Unfolding.atDepth]
  case case2 d ds f hf hr =>
    cases n
    case zero => simp only [Unfolding.atDepth, hr, tasksInside, List.map_cons]
    case succ n =>
      simp only [Unfolding.atDepth, hr, tasksInside, List.map_cons, List.flatMap_cons, innerTasks,
        hf, List.nil_append]
  case case3 d ds s hs hi hr =>
    cases n
    case zero => simp only [Unfolding.atDepth, hr, tasksInside, List.map_cons]
    case succ n =>
      simp only [Unfolding.atDepth, hi, hr, tasksInside, List.map_cons, List.flatMap_cons,
        tasksInside_append, innerTasks, hs]

theorem levelOrder_unfolding {ancestors : List Text} {ds : List Directive}
    (h : r.tasksInside n (ds.map (⟨·, ancestors⟩)) = []) :
    (r.unfolding ancestors ds).levelOrder =
      (List.range n).flatMap fun k => r.tasksInside k (ds.map (⟨·, ancestors⟩)) := by
  rw [←atDepth_unfolding, ←Unfolding.height_le_iff] at h
  simp only [←Unfolding.flatMap_atDepth h, ←atDepth_unfolding]

section Expanding

variable {tasks : List Task} {cache : Cache} {x : Expansion (List Text)}

-- The calls of an expansion go through one level after the other, down to the last.
theorem Expands.levels {texts : List Text} (h : r.Expands n tasks cache x)
    (hx : x.result = .ok texts) (hc : cache.Coherent r.library)
    (hl : ∀ t ∈ tasks, r.LegibleBelow t) :
    ∃ m, r.tasksInside m tasks = [] ∧
      x.calls.map Call.bare =
        ((List.range m).flatMap fun k => r.tasksInside k tasks).map r.freshCall := by
  induction h generalizing texts
  case last hf =>
    rw [(resolveAll_eq_plainTask hc hl).left] at hf
    exact ⟨1, hf, by rw [resolveAll_bare hc, List.range_one, List.flatMap_singleton, tasksInside]⟩
  case starved =>
    have ⟨_, _, _, he⟩ := gather_eq_ok hx
    cases he
  case deeper hr =>
    have ⟨_, us, _, hu⟩ := gather_eq_ok hx
    rw [(resolveAll_eq_plainTask hc hl).left] at hr
    have ⟨m, hm, hs⟩ := hr hu (all_resolveAll gives_fits hc)
      fun _ hu => legibleBelow_of_mem_innerTasks hl hu
    refine ⟨m + 1, hm, ?_⟩
    rw [List.map_append, resolveAll_bare hc, hs, List.range_succ_eq_map, List.flatMap_cons,
      List.map_append, List.flatMap_map]
    rfl

end Expanding

end Renderer

end Transclusion
