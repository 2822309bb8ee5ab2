import Transclusion.Proofs.Expansion.Levels
import Transclusion.Proofs.Watch.Changes
import Transclusion.Proofs.Watch.Turns

namespace Transclusion

open Watch (Action Span)

def Watch.Action.event? : Action → Option FileEvent
  | .event e => some e
  | _ => none

def Vigil.Step.event? : Step → Option FileEvent
  | .change _ e => some e
  | _ => none

def Watcher.vigil (x : Watcher) : Vigil where
  debounce := x.debounce
  cache := x.session.cache

-- `y` is what a vigil with the events of `as` makes of `x`.
structure Watcher.Observes (x : Watcher) (as : List Action) (y : Watcher) : Prop where
  cwd : y.workspace.cwd = x.workspace.cwd
  steps : ∃ steps, steps.filterMap Vigil.Step.event? = as.filterMap Action.event? ∧
    y.vigil = x.vigil.after x.workspace steps

-- The cache is used by requests only.
def Cache.Becomes (c c' : Cache) : Prop :=
  ∃ rs, c' = c.after rs

variable {w w' : Workspace} {c c' c'' : Cache}

namespace Cache.Becomes

theorem refl (c : Cache) : c.Becomes c :=
  ⟨[], rfl⟩

theorem trans (h : c.Becomes c') (h' : c'.Becomes c'') : c.Becomes c'' := by
  obtain ⟨rs, rfl⟩ := h
  obtain ⟨rs', rfl⟩ := h'
  exact ⟨rs ++ rs', (c.after_append rs rs').symm⟩

theorem resolve (lib : Library) (limit : DepthLimit) (ancestors : List Text) (d : Directive)
    (c : Cache) : c.Becomes (resolve lib limit ancestors d c).cache := by
  have hs := resolves lib limit ancestors d c
  generalize Transclusion.resolve lib limit ancestors d c = x at hs
  cases hs
  case refused | failed  => exact .refl c
  case fetched e _ _ _ _ => exact ⟨[.put d e], rfl⟩
  case hit hc            => exact ⟨[.get d], (congrArg Prod.snd (get_of_some hc)).symm⟩

theorem resolveAll (r : Renderer) (ts : List Task) (c : Cache) : c.Becomes (r.resolveAll ts c).2 := by
  induction ts generalizing c
  case nil          => exact .refl c
  case cons t ts hi => exact (resolve ..).trans (hi _)

theorem expandAll (r : Renderer) (n : Nat) (ts : List Task) (c : Cache) :
    c.Becomes (r.expandAll n ts c).cache := by
  have hb := resolveAll r ((r.expandAll n ts c).calls.map (·.task)) c
  rwa [(r.expands n ts c).resolveAll_calls] at hb

theorem render (s : Session) (w : Workspace) (style : Style) :
    s.cache.Becomes (s.render w style).2.cache := by
  rw [Session.render, Session.onDocument]
  cases s.read w
  case error => exact .refl _
  case ok t =>
    simp only [Renderer.render]
    split
    case h_1 => exact .refl _
    case h_2 => exact expandAll ..

end Cache.Becomes

namespace Vigil

-- Where events happen does not depend on the files.
theorem after_congr (h : w'.cwd = w.cwd) (v : Vigil) (steps : List Step) :
    v.after w' steps = v.after w steps := by
  have hs : step w' = step w := by
    funext v s
    cases s <;> simp only [step, Debounce.record, Workspace.locate, h]
  rw [after, after, hs]

theorem after_requests (w : Workspace) (v : Vigil) (rs : List Cache.Request) :
    v.after w (rs.map .request) = { v with cache := v.cache.after rs } := by
  induction rs generalizing v
  case nil          => rfl
  case cons r rs hi => exact hi _

end Vigil

namespace Watcher

variable {x y z z' : Watcher} {a : Action} {as bs : List Action} {b : Option Batch} {e : FileEvent}
  {l : Location}

namespace Observes

theorem refl (x : Watcher) : x.Observes [] x :=
  ⟨rfl, [], rfl, rfl⟩

theorem trans (h : x.Observes as y) (h' : y.Observes bs z) : x.Observes (as ++ bs) z := by
  obtain ⟨steps, he, hv⟩ := h.steps
  obtain ⟨steps', he', hv'⟩ := h'.steps
  refine ⟨h'.cwd.trans h.cwd, steps ++ steps', ?_, ?_⟩
  · rw [List.filterMap_append, List.filterMap_append, he, he']
  · rw [hv', Vigil.after_congr h.cwd, hv, Vigil.after_append]

-- Nothing happens that a vigil would take notice of.
theorem of_vigil (hw : y.workspace.cwd = x.workspace.cwd) (hv : y.vigil = x.vigil)
    (ha : as.filterMap Action.event? = []) : x.Observes as y :=
  ⟨hw, [], ha.symm, hv⟩

end Observes

section Turns

theorem vigil_event (h : x.act (.event e) = .ok y) :
    y.workspace = x.workspace ∧ y.vigil = x.vigil.step x.workspace (.change x.clock e) := by
  rw [act] at h
  split at h <;> cases h
  case h_1 hd => simp [vigil, Vigil.step, hd, Except.toOption]

theorem observes_act (h : x.act a = .ok y) : x.Observes [a] y := by
  cases a
  case event e =>
    have ⟨hw, hv⟩ := vigil_event h
    exact ⟨congrArg Workspace.cwd hw, [.change x.clock e], rfl, hv⟩
  case tick =>
    cases h
    exact .of_vigil rfl rfl rfl
  case write =>
    cases h
    exact .of_vigil rfl rfl rfl
  case delete p =>
    rw [act, Workspace.delete] at h
    cases hd : x.workspace.tree.delete? (x.workspace.cwd.walk p) <;> rw [hd] at h <;> cases h
    exact .of_vigil rfl rfl rfl

-- A vigil is not disturbed by an event that cannot be recorded.
theorem observes_of_act_error {e : WatchError} (h : x.act a = .error e) : x.Observes [a] x := by
  cases a
  case event f =>
    rw [act] at h
    split at h <;> cases h
    case h_2 hd =>
      refine ⟨rfl, [.change x.clock f], rfl, ?_⟩
      simp [vigil, Vigil.after, Vigil.step, hd, Except.toOption]
  all_goals exact .of_vigil rfl rfl rfl

theorem observes_undergo (x : Watcher) (as : List Action) : x.Observes as (x.undergo as) := by
  induction as generalizing x
  case nil => exact .refl x
  case cons a as hi =>
    rw [undergo, List.foldl_cons]
    cases ha : x.act a
    case ok y    => exact (observes_act ha).trans (hi y)
    case error e => exact (observes_of_act_error ha).trans (hi x)

theorem observes_actAll (x : Watcher) (as : List Action) :
    x.Observes (x.happening as) (x.actAll as).2 := by
  induction as generalizing x
  case nil => exact .refl x
  case cons a as hi =>
    rw [happening, actAll]
    cases ha : x.act a
    case ok y    => exact (observes_act ha).trans (hi y)
    case error e => exact .refl x

theorem observes_render (x : Watcher) : x.Observes [] x.render.2 := by
  have ⟨rs, hc⟩ := Cache.Becomes.render x.session x.workspace {}
  rcases x.render_cases with ⟨_, hr⟩ | ⟨r, s, _, hs, hr⟩ <;> rw [hr]
  case inl => exact .refl x
  case inr =>
    rw [hs] at hc
    refine ⟨rfl, rs.map .request, by simp [List.filterMap_map, Vigil.Step.event?], ?_⟩
    rw [Vigil.after_requests]
    exact congrArg (Vigil.mk x.debounce) hc

theorem settle_eq (x : Watcher) (r : Option Batch × Debounce) :
    (x.settle r).2.workspace = x.workspace ∧ (x.settle r).2.vigil = Vigil.settle r x.session.cache := by
  obtain ⟨b, d⟩ := r
  cases b <;> exact ⟨rfl, rfl⟩

theorem observes_poll (h : x.poll = .ok (b, y)) : x.Observes [] y := by
  rw [poll] at h
  split at h
  case h_1 =>
    split at h <;> cases h
    exact .refl x
  case h_2 =>
    obtain ⟨hw, hv⟩ := x.settle_eq (x.debounce.poll x.clock)
    rw [Except.ok.inj h] at hw hv
    exact ⟨congrArg Workspace.cwd hw, [.poll x.clock], rfl, hv⟩

theorem observes_turn (x : Watcher) (as : List Action) :
    x.Observes (x.slept as) (x.turn as).2.2 := by
  have hr := x.observes_render
  rw [slept, turn]
  rcases hx : x.render with ⟨_ | rendered, y⟩ <;> rw [hx] at hr
  case error => exact hr
  case ok =>
    have ha := y.observes_actAll as
    rcases hy : y.actAll as with ⟨_ | e, z⟩ <;> rw [hy] at ha <;> simp only [hy]
    case some => exact hr.trans ha
    case none =>
      cases hp : z.poll
      case error => exact hr.trans ha
      case ok v  => simpa using hr.trans (ha.trans (observes_poll hp))

end Turns

-- All that a watcher goes through, up to the end of its loop.
theorem observes_loop (x : Watcher) (ss : List Span) :
    x.Observes ((x.passages ss).flatMap (·.happened)) (x.loop ss).2.2 := by
  induction ss generalizing x
  case nil => exact .refl x
  case cons s ss hi =>
    have ht := (x.observes_undergo s.early).trans ((x.undergo s.early).observes_turn s.asleep)
    rw [passages, loop]
    rcases hr : (x.undergo s.early).turn s.asleep with ⟨t, _ | e, y⟩ <;> rw [hr] at ht
    case none => exact ht.trans (hi y)
    case some => simpa using ht

theorem poll_eq_flush {b : Batch} (h : x.poll = .ok (some b, y)) :
    y.vigil = x.vigil.step x.workspace .flush := by
  rw [poll] at h
  split at h
  case h_1 => split at h <;> cases h
  case h_2 =>
    have h := Except.ok.inj h
    rw [Debounce.poll] at h
    split at h
    case isFalse => cases h
    case isTrue  =>
      obtain ⟨_, hv⟩ := x.settle_eq x.debounce.flush
      rwa [h] at hv

-- When a batch comes after an event, all that the cache then has of the file was put after the event.
theorem fresh_of_poll {b : Batch} (hd : e.isDirectory = false)
    (hk : x.debounce.skips e.path.name = false) (hl : x.workspace.locate e.path = .ok l)
    (h : x.act (.event e) = .ok y) (ho : y.Observes as z) (hp : z.poll = .ok (some b, z')) :
    ∃ steps, steps.filterMap Vigil.Step.event? = as.filterMap Action.event? ∧
      z.vigil = y.vigil.after y.workspace steps ∧
      z'.session.cache.All fun k i =>
        ∀ s, i.source = some s → s.id = l.text → ∃ d, .request (.put d i) ∈ steps ∧ d.identity = k := by
  obtain ⟨steps, he, hv⟩ := ho.steps
  refine ⟨steps, he, hv, ?_⟩
  have hw : y.vigil.Watches l steps := by
    rw [(vigil_event h).right]
    exact Vigil.watches_change x.clock hd hk hl
  have hz : z.vigil.Watches l steps := hv ▸ hw.after y.workspace (List.Subset.refl steps)
  have ha := hz.all_flush z.workspace
  rwa [←poll_eq_flush hp] at ha

end Watcher

end Transclusion
