import Mathlib.Logic.Relation
import Transclusion.Proofs.Cache.Runs
import Transclusion.Proofs.Expansion.Ends
import Transclusion.Proofs.Expansion.Coherence

namespace Transclusion

-- What can be seen of a task: what it asks the library for as it starts, and how it ends.
inductive Moment
  | starts (t : Task) (accesses : List Access)
  | ends (c : Call)

namespace Moment

def call? : Moment → Option Call
  | starts .. => none
  | ends c    => some c

-- The calls that ended, in the order in which they did.
def calls (history : List Moment) : List Call :=
  history.filterMap call?

variable {history history' : List Moment} {t : Task} {log : List Access} {c : Call}

@[simp] theorem calls_nil : calls [] = [] := rfl

@[simp] theorem calls_append : calls (history ++ history') = calls history ++ calls history' :=
  List.filterMap_append

@[simp] theorem calls_starts : calls (starts t log :: history) = calls history := rfl

@[simp] theorem calls_ends : calls (ends c :: history) = c :: calls history := rfl

end Moment

-- A task that has started, and what the library gave it. It has not got that yet.
structure Pending where
  task : Task
  given : Except Failure Included × List Access

-- An event loop in the middle of its work.
structure Loop where
  ready : List Task
  waiting : List Pending
  cache : Cache
  history : List Moment

namespace Loop

def start (tasks : List Task) (cache : Cache) : Loop :=
  ⟨tasks, [], cache, []⟩

def calls (l : Loop) : List Call :=
  Moment.calls l.history

end Loop

namespace Renderer

variable (r : Renderer) (inner : Call → List Task)

-- One task of a loop goes on, whichever it is. A task that is refused or finds its content in the cache
-- ends as soon as it starts. All others wait, and each puts what it was given into the cache when that
-- has come, whatever is in the cache by then. As a call ends, the tasks inside it get ready.
inductive Moves : Loop → Loop → Prop
  | answers {front t back waiting cache history x}
    (hx : resolve r.library r.limit t.ancestors t.directive cache = x)
    (ha : refusal? r.limit t.ancestors t.directive ≠ none ∨ cache.find? t.directive.identity ≠ none) :
    Moves ⟨front ++ t :: back, waiting, cache, history⟩
      ⟨front ++ back ++ inner ⟨t, x.outcome, x.accesses⟩, waiting, x.cache,
        history ++ [.starts t x.accesses, .ends ⟨t, x.outcome, x.accesses⟩]⟩
  | waits {front t back waiting cache history}
    (hr : refusal? r.limit t.ancestors t.directive = none)
    (hc : cache.find? t.directive.identity = none) :
    Moves ⟨front ++ t :: back, waiting, cache, history⟩
      ⟨front ++ back, ⟨t, r.library.fetch t.directive⟩ :: waiting, cache,
        history ++ [.starts t (r.library.fetch t.directive).2]⟩
  | stores {ready front p back cache history x}
    (hx : Resolution.ofFetch p.task.directive cache p.given = x) :
    Moves ⟨ready, front ++ p :: back, cache, history⟩
      ⟨ready ++ inner ⟨p.task, x.outcome, x.accesses⟩, front ++ back, x.cache,
        history ++ [.ends ⟨p.task, x.outcome, x.accesses⟩]⟩

-- The cache after the calls of a history, made one after the other.
def cacheAfter (old : Cache) (history : List Moment) : Cache :=
  (r.resolveAll ((Moment.calls history).map (·.task)) old).2

-- The calls that ended come to the same as if they had been made one after the other. Each task asked
-- for what it would have asked for after the calls that had ended by then.
structure Serial (old : Cache) (history : List Moment) (now : Cache) : Prop where
  calls : (r.resolveAll ((Moment.calls history).map (·.task)) old).1.map Call.bare =
    (Moment.calls history).map Call.bare
  cache : r.cacheAfter old history = now
  starts : ∀ before t log after, history = before ++ .starts t log :: after →
    log = (resolve r.library r.limit t.ancestors t.directive (r.cacheAfter old before)).accesses

-- The task was not refused, and what it was given is what the library still has.
structure Admits (p : Pending) : Prop where
  allowed : refusal? r.limit p.task.ancestors p.task.directive = none
  given : p.given = r.library.fetch p.task.directive

-- If the content of what waits is in the cache by now, then it is what is on its way.
structure Awaits (l : Loop) : Prop where
  admitted : ∀ p ∈ l.waiting, r.Admits p
  expected : l.cache.All fun k e => ∀ p ∈ l.waiting, p.task.directive.identity = k →
    (r.library.fetch p.task.directive).1 = .ok e

variable {r inner} {old now later : Cache} {history history' : List Moment} {t : Task} {l l' : Loop}

section Serial

theorem cacheAfter_append :
    r.cacheAfter old (history ++ history') = r.cacheAfter (r.cacheAfter old history) history' := by
  simp only [cacheAfter, Moment.calls_append, List.map_append, resolveAll_append]

theorem Serial.nil : r.Serial old [] old where
  calls := rfl
  cache := rfl
  starts before t log after h := by cases before <;> cases h

theorem Serial.trans (h : r.Serial old history now) (h' : r.Serial now history' later) :
    r.Serial old (history ++ history') later where
  calls := by
    have hc := h.cache
    rw [cacheAfter] at hc
    rw [Moment.calls_append, List.map_append, resolveAll_append, List.map_append, List.map_append,
      h.calls, hc, h'.calls]
  cache := by rw [cacheAfter_append, h.cache, h'.cache]
  starts before t log after he := by
    rcases List.append_eq_append_iff.mp he with ⟨mid, rfl, hm⟩ | ⟨mid, hb, hm⟩
    · rw [cacheAfter_append, h.cache]
      exact h'.starts _ _ _ _ hm
    · cases mid with
      | nil =>
        rw [List.append_nil] at hb
        rw [←hb, h.cache]
        exact h'.starts [] t log after hm.symm
      | cons m mid =>
        cases List.cons.inj hm |>.left
        exact h.starts before t log mid hb

-- What has happened until some moment.
theorem Serial.until (h : r.Serial old (history ++ history') now) :
    r.Serial old history (r.cacheAfter old history) where
  calls := by
    have hc := h.calls
    rw [Moment.calls_append, List.map_append, resolveAll_append, List.map_append, List.map_append] at hc
    refine (List.append_inj hc ?_).left
    rw [List.length_map, List.length_map, length_resolveAll, List.length_map]
  cache := rfl
  starts before t log after he :=
    h.starts before t log (after ++ history') (by rw [he, List.append_assoc, List.cons_append])

-- A task starts.
theorem Serial.single_starts (r : Renderer) (now : Cache) (t : Task) :
    r.Serial now
      [.starts t (resolve r.library r.limit t.ancestors t.directive now).accesses] now where
  calls := rfl
  cache := rfl
  starts before u log after h := by
    cases before with
    | nil      => cases h; rfl
    | cons _ b => cases b <;> cases h

-- A call ends as its task does by itself.
theorem Serial.single_ends {x : Resolution}
    (ho : (resolve r.library r.limit t.ancestors t.directive now).outcome = x.outcome)
    (hc : (resolve r.library r.limit t.ancestors t.directive now).cache = x.cache) :
    r.Serial now [.ends ⟨t, x.outcome, x.accesses⟩] x.cache where
  calls := by simp [resolveAll, Call.bare, ho]
  cache := hc
  starts before u log after h := by
    cases before with
    | nil      => cases h
    | cons _ b => cases b <;> cases h

end Serial

section Moves

variable {lib : Library} {limit : DepthLimit} {ancestors : List Text} {d : Directive} {cache : Cache}

theorem resolve_of_find?_eq_none (hr : refusal? limit ancestors d = none)
    (hc : cache.find? d.identity = none) :
    resolve lib limit ancestors d cache = .ofFetch d cache (lib.fetch d) := by
  simp only [resolve, hr, Cache.get_of_none hc]

-- It makes no difference if others have put the same content into the cache in the meantime.
theorem resolve_eq_ofFetch (hr : refusal? limit ancestors d = none)
    (he : ∀ e, cache.find? d.identity = some e → (lib.fetch d).1 = .ok e) :
    (resolve lib limit ancestors d cache).outcome =
        (Resolution.ofFetch d cache (lib.fetch d)).outcome ∧
      (resolve lib limit ancestors d cache).cache =
        (Resolution.ofFetch d cache (lib.fetch d)).cache := by
  cases hc : cache.find? d.identity
  case none => simp only [resolve_of_find?_eq_none hr hc, and_self]
  case some e =>
    have hp : cache.put d e = cache.touch d.identity e := by
      rw [Cache.put, Cache.makeRoom_of_mem (Cache.mem_keys_of_find? hc)]
    have hf : lib.fetch d = (.ok e, (lib.fetch d).2) := by rw [←he e hc]
    rw [hf]
    simp only [resolve, hr, Cache.get_of_some hc, Resolution.ofFetch, hp, and_self]

theorem subset_of_stores (front back : List Pending) (p : Pending) :
    front ++ back ⊆ front ++ p :: back :=
  ((List.sublist_cons_self p back).append_left front).subset

theorem Awaits.start (tasks : List Task) (cache : Cache) : r.Awaits (.start tasks cache) where
  admitted := List.forall_mem_nil _
  expected _ _ _ := List.forall_mem_nil _

theorem Awaits.resolve {ready ready' : List Task} {waiting waiting' : List Pending} {history' : List Moment}
    (h : r.Awaits ⟨ready, waiting, cache, history⟩) (hw : waiting' ⊆ waiting) (ancestors : List Text)
    (d : Directive) :
    r.Awaits ⟨ready', waiting', (resolve r.library r.limit ancestors d cache).cache, history'⟩ where
  admitted p hp := h.admitted p (hw hp)
  expected :=
    (Cache.All.resolve h.expected fun _ _ hf _ _ hk => Library.fetch_congr hk ▸ hf).imp
      fun _ _ he p hp => he p (hw hp)

theorem Moves.serial (h : r.Moves inner l l') (hs : r.Serial old l.history l.cache)
    (ha : r.Awaits l) : r.Serial old l'.history l'.cache ∧ r.Awaits l' := by
  cases h
  case answers front t back waiting cache history x hx _ =>
    subst hx
    exact ⟨hs.trans ((Serial.single_starts r _ t).trans (.single_ends rfl rfl)),
      ha.resolve (List.Subset.refl _) ..⟩
  case waits front t back waiting cache history hr hc =>
    refine ⟨hs.trans ?_, List.forall_mem_cons.mpr ⟨⟨hr, rfl⟩, ha.admitted⟩, fun k e hm => ?_⟩
    · have hf : resolve r.library r.limit t.ancestors t.directive cache = _ :=
        resolve_of_find?_eq_none hr hc
      have hl := congrArg Resolution.accesses hf
      have ho : (Resolution.ofFetch t.directive cache (r.library.fetch t.directive)).accesses =
          (r.library.fetch t.directive).2 := by
        rcases r.library.fetch t.directive with ⟨_ | _, _⟩ <;> rfl
      rw [←ho, ←hl]
      exact .single_starts r cache t
    · refine List.forall_mem_cons.mpr ⟨fun hk => ?_, ha.expected k e hm⟩
      exact absurd (List.mem_map_of_mem hm) (hk ▸ Cache.find?_eq_none_iff.mp hc)
  case stores ready front u back cache history _ hx =>
    have hm : u ∈ front ++ u :: back := List.mem_append_right _ List.mem_cons_self
    have ⟨hr, hg⟩ := ha.admitted u hm
    rw [hg] at hx
    subst hx
    have ⟨ho, hc⟩ := resolve_eq_ofFetch hr fun e hf => ha.expected.find? hf u hm rfl
    refine ⟨hs.trans (.single_ends ho hc), ?_⟩
    rw [←hc]
    exact ha.resolve (subset_of_stores _ _ _) ..

theorem Moves.admits (h : r.Moves inner l l') (ha : ∀ p ∈ l.waiting, r.Admits p) :
    ∀ p ∈ l'.waiting, r.Admits p := by
  cases h
  case answers    => exact ha
  case waits hr _ => exact List.forall_mem_cons.mpr ⟨⟨hr, rfl⟩, ha⟩
  case stores     => exact fun p hp => ha p (subset_of_stores _ _ _ hp)

theorem Moves.all {p : Directive.Identity → Included → Prop} (h : r.Moves inner l l')
    (ha : ∀ u ∈ l.waiting, r.Admits u) (hp : r.Gives p) (hc : l.cache.All p) : l'.cache.All p := by
  cases h
  case answers hx _ => exact hx ▸ hc.resolve (hp _)
  case waits        => exact hc
  case stores u _ _ _ _ hx =>
    have ⟨hr, hg⟩ := ha u (List.mem_append_right _ List.mem_cons_self)
    have hl := Nat.zero_lt_of_lt (refusal?_eq_none_iff.mp hr).left
    rw [hg] at hx
    rcases hf : r.library.fetch u.task.directive with ⟨_ | e, log⟩ <;> subst hx <;> rw [hf]
    case error => exact hc
    case ok    => exact hc.put (hp _ _ hl (by rw [hf]))

-- On a coherent cache each call ends as if nothing were cached.
theorem Moves.outcome_eq {c : Call} (h : r.Moves inner l l') (ha : ∀ p ∈ l.waiting, r.Admits p)
    (hc : l.cache.Coherent r.library) (hl : l'.calls = l.calls ++ [c]) :
    c.outcome = fresh r.library r.limit c.task.ancestors c.task.directive := by
  cases h
  case answers hx _ =>
    subst hx
    simp only [Loop.calls, Moment.calls_append, Moment.calls_starts, Moment.calls_ends,
      Moment.calls_nil, List.append_cancel_left_eq, List.cons.injEq, and_true] at hl
    subst hl
    exact hc.resolve_outcome
  case waits => simp [Loop.calls] at hl
  case stores u _ cache _ _ hx =>
    have ⟨hr, hg⟩ := ha u (List.mem_append_right _ List.mem_cons_self)
    rw [hg] at hx
    subst hx
    simp only [Loop.calls, Moment.calls_append, Moment.calls_ends, Moment.calls_nil,
      List.append_cancel_left_eq, List.cons.injEq, and_true] at hl
    subst hl
    have hf : ∀ e, cache.find? u.task.directive.identity = some e →
        (r.library.fetch u.task.directive).1 = .ok e := fun e hf => hc.find? hf _ rfl
    exact (resolve_eq_ofFetch hr hf).left.symm.trans hc.resolve_outcome

variable {tasks : List Task}

-- However the tasks take turns, the calls come to what they would come to one after the other.
theorem serial (h : Relation.ReflTransGen (r.Moves inner) (.start tasks old) l) :
    r.Serial old l.history l.cache ∧ r.Awaits l := by
  induction h
  case refl           => exact ⟨.nil, .start tasks old⟩
  case tail _ hm hi   => exact hm.serial hi.left hi.right

theorem Serial.madeWith {p : Directive.Identity → Included → Prop} (h : r.Serial old history now)
    (hp : r.Gives p) (hc : old.All p) : ∀ c ∈ Moment.calls history, r.MadeWith p c := by
  intro c hm
  have hb := h.calls ▸ List.mem_map_of_mem (f := Call.bare) hm
  obtain ⟨c', hm', he⟩ := List.mem_map.mp hb
  have ⟨cache, ha, ho⟩ := madeWith_of_mem_resolveAll hp hc c' hm'
  have ht : c'.bare.task = c.bare.task := congrArg Call.task he
  have hx : c'.bare.outcome = c.bare.outcome := congrArg Call.outcome he
  simp only [Call.bare] at ht hx
  exact ⟨cache, ha, by rw [←ht, ←hx, ho]⟩

end Moves

end Renderer

end Transclusion
