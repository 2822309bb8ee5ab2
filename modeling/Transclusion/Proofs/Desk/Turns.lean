import Transclusion.Desk
import Transclusion.Proofs.Expansion.Schedules

namespace Transclusion

namespace Renderer

variable {r : Renderer} {inner : Call → List Task} {l l' : Loop}

-- How texts are written does not matter for what tasks do.
theorem Moves.style (h : r.Moves inner l l') (style : Style) : { r with style }.Moves inner l l' := by
  cases h
  case answers hx ha => exact .answers hx ha
  case waits hr hc   => exact .waits hr hc
  case stores hx     => exact .stores hx

end Renderer

-- A desk with the tasks that are under way, and what was seen of them and of those before. A task is
-- overtaken if the shelf changes while it waits.
structure Desk.Busy extends Desk where
  ready : List Task
  waiting : List Pending
  history : List Moment
  overtaken : Bool := false

namespace Desk

open Relation (ReflTransGen)

namespace Step

def asks : Step → Bool
  | resolve .. | expand .. | render .. | check .. => true
  | _ => false

def changesShelf : Step → Bool
  | write .. | delete .. | fault .. | heal .. => true
  | _ => false

end Step

namespace Busy

variable (b : Busy)

def loop : Loop :=
  ⟨b.ready, b.waiting, b.cache, b.history⟩

def withLoop (l : Loop) : Busy :=
  { b with cache := l.cache, ready := l.ready, waiting := l.waiting, history := l.history }

end Busy

variable (d : Desk)

-- The tasks with which a step begins.
def tasks : Step → List Task
  | .resolve ancestors x | .expand ancestors _ x =>
    if prints d.limit ancestors x then [⟨x, ancestors⟩] else []
  | .render ancestors _ t => (t.directives.toOption.getD []).map (⟨·, ancestors⟩)
  | .check t => (t.directives.toOption.getD []).map (⟨·, []⟩)
  | _ => []

-- What some steps can lead to. All tasks take turns, those of a step with those that earlier ones have
-- left, and some may be dropped before they end. What is included is looked into or not.
inductive ComesTo : List Step → Busy → Prop
  | nil : ComesTo [] { d with ready := [], waiting := [], history := [] }
  | asks {ss s b} (h : ComesTo ss b) (hs : s.asks) :
    ComesTo (ss ++ [s]) { b with ready := b.ready ++ b.tasks s }
  | changes {ss s b overtaken} (h : ComesTo ss b) (hs : ¬s.asks)
    (ho : (b.overtaken || s.changesShelf && !b.waiting.isEmpty) = overtaken) :
    ComesTo (ss ++ [s]) { b with toDesk := (b.step s).desk, overtaken }
  | moves {ss b l inner} (h : ComesTo ss b) (hi : inner = Call.inner ∨ inner = fun _ => [])
    (hm : (b.renderer {}).Moves inner b.loop l) : ComesTo ss (b.withLoop l)
  | drops {ss b ready waiting} (h : ComesTo ss b) (hr : ready ⊆ b.ready) (hw : waiting ⊆ b.waiting) :
    ComesTo ss { b with ready, waiting }

-- The resolutions that a step makes if nothing else goes on.
def calls : Step → List Call
  | .resolve ancestors x =>
    match tryResolve d.shelf.library d.limit ancestors x d.cache with
    | .error _ => []
    | .ok y => [⟨⟨x, ancestors⟩, y.outcome, y.accesses⟩]
  | .expand ancestors style x =>
    if prints d.limit ancestors x then ((d.renderer style).expand ancestors x d.cache).calls else []
  | .render ancestors style t => ((d.renderer style).render ancestors t d.cache).calls
  | .check t => ((d.renderer {}).check t d.cache).calls
  | _ => []

def runCalls : Desk → List Step → List Call
  | _, [] => []
  | d, s :: ss => d.calls s ++ runCalls (d.step s).desk ss

variable {d} {s : Step} {ss : List Step}

section Steps

theorem tryResolve_eq_ok {lib : Library} {limit : DepthLimit} {ancestors : List Text} {x : Directive}
    {cache : Cache} (h : prints limit ancestors x) :
    tryResolve lib limit ancestors x cache = .ok (resolve lib limit ancestors x cache) :=
  if_pos h

theorem tryResolve_eq_error {lib : Library} {limit : DepthLimit} {ancestors : List Text}
    {x : Directive} {cache : Cache} (h : ¬prints limit ancestors x) :
    tryResolve lib limit ancestors x cache = .error .unprinted :=
  if_neg h

theorem runCalls_append (ss ts : List Step) :
    d.runCalls (ss ++ ts) = d.runCalls ss ++ (d.after ss).runCalls ts := by
  induction ss generalizing d
  case nil          => rfl
  case cons s ss hi => simp [runCalls, after, hi]

theorem accesses_step (d : Desk) (s : Step) :
    (d.step s).accesses = (d.calls s).flatMap (·.accesses) := by
  cases s
  case resolve ancestors x =>
    by_cases h : prints d.limit ancestors x <;> simp [step, calls, tryResolve, h]
  case expand ancestors _ x =>
    by_cases h : prints d.limit ancestors x <;> simp [step, calls, h, afterExpansion, Expansion.accesses]
  all_goals rfl

theorem accesses_run (d : Desk) (ss : List Step) :
    (d.run ss).flatMap (·.accesses) = (d.runCalls ss).flatMap (·.accesses) := by
  induction ss generalizing d
  case nil          => rfl
  case cons s ss hi => simp [run, runCalls, accesses_step, hi]

theorem desk_of_asks (h : s.asks) : (d.step s).desk = { d with cache := (d.step s).desk.cache } := by
  cases s
  case resolve ancestors x =>
    by_cases h : prints d.limit ancestors x <;> simp [step, tryResolve, h]
  case expand ancestors _ x =>
    by_cases h : prints d.limit ancestors x <;> simp [step, h, afterExpansion]
  case render | check => rfl
  all_goals cases h

theorem limit_step (d : Desk) (s : Step) : (d.step s).desk.limit = d.limit := by
  cases s
  case resolve | expand | render | check => rw [desk_of_asks rfl]
  all_goals rfl

-- All that a step does that asks. It resolves its tasks one after the other, and then goes into what they
-- include, or does not.
inductive Asked (d : Desk) (tasks : List Task) (calls : List Call) (cache : Cache) : Prop
  | flat (hr : (d.renderer {}).resolveAll tasks d.cache = (calls, cache))
  | deep {style : Style} {n : Nat} {x : Expansion (List Text)}
    (hx : (d.renderer style).Expands n tasks d.cache x)
    (hn : ∀ t ∈ tasks, (d.renderer style).levelsLeft t.ancestors ≤ n) (hc : x.calls = calls)
    (hd : x.cache = cache)

theorem asked (h : s.asks) : d.Asked (d.tasks s) (d.calls s) (d.step s).desk.cache := by
  cases s
  case resolve ancestors x =>
    by_cases hp : prints d.limit ancestors x
    case pos =>
      simp only [tasks, calls, step, if_pos hp, tryResolve_eq_ok hp]
      exact .flat rfl
    case neg =>
      simp only [tasks, calls, step, if_neg hp, tryResolve_eq_error hp]
      exact .flat rfl
  case expand ancestors style x =>
    by_cases hp : prints d.limit ancestors x
    case pos =>
      simp only [tasks, calls, step, if_pos hp, afterExpansion, Renderer.expand]
      exact .deep (Renderer.expands ..) (List.forall_mem_singleton.mpr (Nat.le_refl _)) rfl rfl
    case neg =>
      simp only [tasks, calls, step, if_neg hp]
      exact .flat rfl
  case render ancestors style t =>
    cases ht : t.directives <;>
      simp only [tasks, calls, step, afterExpansion, Renderer.render, ht, Except.toOption]
    case error => exact .flat rfl
    case ok    => exact .deep (Renderer.expands ..) (by simp) rfl rfl
  case check t =>
    cases ht : t.directives <;>
      simp only [tasks, calls, step, afterExpansion, Renderer.check, Renderer.resolveEach, ht, Except.toOption]
    case error => exact .flat rfl
    case ok    => exact .flat rfl
  all_goals cases h

-- What a step does is one of the ways in which its tasks can take turns.
theorem exists_moves_of_asks (h : s.asks) (hc : d.cache.All Cache.Placed) (history : List Moment) :
    ∃ inner more, (inner = Call.inner ∨ inner = fun _ => []) ∧ Moment.calls more = d.calls s ∧
      ReflTransGen ((d.renderer {}).Moves inner) ⟨d.tasks s, [], d.cache, history⟩
        ⟨[], [], (d.step s).desk.cache, history ++ more⟩ := by
  cases asked (d := d) h
  case flat hr =>
    obtain ⟨more, hm, hs⟩ :=
      Renderer.exists_moves_resolveAll (r := d.renderer {}) (fun _ => []) (d.tasks s) [] d.cache history
    rw [hr, List.append_nil, List.nil_append, List.flatMap_eq_nil_iff.mpr fun _ _ => rfl] at hs
    exact ⟨_, more, .inr rfl, hm.trans (congrArg Prod.fst hr), hs⟩
  case deep hx hn hm hd =>
    obtain ⟨more, hm', hs⟩ := hx.exists_moves hc hn history
    rw [hd] at hs
    exact ⟨_, more, .inl rfl, hm'.trans hm, hs.lift id fun _ _ h => h.style {}⟩

end Steps

section Runs

variable {b : Busy} {l : Loop} {inner : Call → List Task} {p : Directive.Identity → Included → Prop}

-- An answer leaves nothing in the cache but what was there and what the shelf has.
theorem all_of_asks (h : s.asks) (hc : d.cache.All p)
    (hp : ∀ x e, 0 < d.limit.bound → (d.shelf.library.fetch x).1 = .ok e → p x.identity e) :
    (d.step s).desk.cache.All p := by
  cases asked (d := d) h
  case flat hr =>
    have ha : ((d.renderer {}).resolveAll (d.tasks s) d.cache).2.All p := Renderer.all_resolveAll hp hc
    rwa [hr] at ha
  case deep hx _ _ hd => exact hd ▸ hx.all hp hc

theorem placed_step (h : d.cache.All Cache.Placed) (s : Step) :
    (d.step s).desk.cache.All Cache.Placed := by
  cases s
  case resolve | expand | render | check =>
    exact all_of_asks rfl h fun _ _ _ => Library.sourceId_of_fetch
  case invalidate id       => exact h.invalidate id
  case invalidateRefs refs => exact (h.invalidateRefs refs).imp fun _ _ hp => hp.left
  case clear               => exact .clear
  all_goals exact h

theorem placed_after (h : d.cache.All Cache.Placed) (ss : List Step) :
    (d.after ss).cache.All Cache.Placed := by
  induction ss generalizing d
  case nil          => exact h
  case cons s ss hi => exact hi (placed_step h s)

theorem ComesTo.goes (h : d.ComesTo ss b) (hi : inner = Call.inner ∨ inner = fun _ => [])
    (hm : ReflTransGen ((b.renderer {}).Moves inner) b.loop l) : d.ComesTo ss (b.withLoop l) := by
  induction hm
  case refl       => exact h
  case tail hm hg => exact .moves (b := b.withLoop _) hg hi hm

-- What the steps do one after the other is one of the things that they can lead to.
theorem exists_comesTo (hc : d.cache.All Cache.Placed) (ss : List Step) :
    ∃ history, Moment.calls history = d.runCalls ss ∧
      d.ComesTo ss { d.after ss with ready := [], waiting := [], history } := by
  induction ss using List.reverseRecOn
  case nil => exact ⟨[], rfl, .nil⟩
  case append_singleton ss s hi =>
    have ⟨history, hh, hb⟩ := hi
    rw [runCalls_append, after_append]
    cases hs : s.asks
    case true =>
      have ⟨inner, more, hi, hc, hm⟩ := exists_moves_of_asks hs (placed_after hc ss) history
      refine ⟨history ++ more, by simp [runCalls, hh, hc], ?_⟩
      rw [after, after, desk_of_asks hs]
      exact (hb.asks hs).goes hi hm
    case false =>
      have hn : (d.after ss).calls s = [] := by cases s <;> first | rfl | cases hs
      exact ⟨history, by simp [runCalls, hh, hn], hb.changes (by simp [hs]) (by simp)⟩

end Runs

end Desk

end Transclusion
