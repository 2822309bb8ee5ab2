import Transclusion.Proofs.Cache.Recency
import Transclusion.Proofs.Watch.Batches
import Transclusion.Watch

namespace Transclusion

open Text

-- A move changes what is at both its ends.
def FileEvent.Changes (e : FileEvent) (w : Workspace) (l : Location) : Prop :=
  w.locate e.path = .ok l ∨ e.kind = .moved ∧ ∃ p, e.dest = some p ∧ w.locate p = .ok l

-- What is held back, and the cache that it will be delivered to.
structure Vigil where
  debounce : Debounce
  cache : Cache
  deriving DecidableEq

namespace Vigil

inductive Step
  | change (now : Nat) (e : FileEvent)
  | request (r : Cache.Request)
  | poll (now : Nat)
  | flush

def settle (r : Option Batch × Debounce) (c : Cache) : Vigil where
  debounce := r.2
  cache := r.1.elim c fun b => (c.apply b).2

-- What cannot be recorded is as if it had not happened.
def step (w : Workspace) (v : Vigil) : Step → Vigil
  | .change now e => { v with debounce := (v.debounce.record w now e).toOption.getD v.debounce }
  | .request r => { v with cache := v.cache.step r }
  | .poll now => settle (v.debounce.poll now) v.cache
  | .flush => settle v.debounce.flush v.cache

def after (w : Workspace) (v : Vigil) (steps : List Step) : Vigil :=
  steps.foldl (step w) v

-- Each entry that was included from `l` was put by one of `steps`, if there is no word of `l` waiting.
def Watches (l : Location) (steps : List Step) (v : Vigil) : Prop :=
  l ∈ v.debounce.pending.locations ∨ v.cache.All fun k i =>
    ∀ s, i.source = some s → s.id = l.text → ∃ d, .request (.put d i) ∈ steps ∧ d.identity = k

variable {w : Workspace} {v : Vigil} {now : Nat} {e : FileEvent} {l : Location} {s : Step}
  {steps : List Step}

theorem after_append (w : Workspace) (v : Vigil) (steps steps' : List Step) :
    v.after w (steps ++ steps') = (v.after w steps).after w steps' :=
  List.foldl_append

section Suffix

theorem suffix_step (w : Workspace) (v : Vigil) (s : Step) :
    (v.step w s).debounce.suffix = v.debounce.suffix := by
  cases s
  case request => rfl
  case flush   => exact v.debounce.suffix_flush
  case change now e =>
    rw [step]
    cases hr : v.debounce.record w now e
    case error   => rfl
    case ok d    => exact Debounce.suffix_record hr
  case poll now =>
    rw [step, settle, Debounce.poll]
    split
    case isTrue  => exact v.debounce.suffix_flush
    case isFalse => rfl

theorem suffix_after (w : Workspace) (v : Vigil) (steps : List Step) :
    (v.after w steps).debounce.suffix = v.debounce.suffix := by
  induction steps generalizing v
  case nil             => rfl
  case cons s steps hi => exact (hi (v.step w s)).trans (v.suffix_step w s)

end Suffix

section Waiting

theorem mem_locations_add {b : Batch} (h : l ∈ b.locations) (k : FileEvent.Kind) (l' : Location) :
    l ∈ (b.add k l').locations := by
  rw [Batch.mem_locations_iff] at h ⊢
  cases k <;> simp only [Batch.add, List.mem_insert_iff]
  case created | modified => exact h.imp_left .inr
  case deleted | moved    => exact h.imp_right .inr

theorem mem_locations_add_self (b : Batch) (k : FileEvent.Kind) (l : Location) :
    l ∈ (b.add k l).locations := by
  rw [Batch.mem_locations_iff]
  cases k <;> simp [Batch.add]

end Waiting

namespace Watches

-- A batch takes all that waits.
theorem settle_flush (h : v.Watches l steps) : (settle v.debounce.flush v.cache).Watches l steps := by
  rw [Debounce.flush]
  split
  case isTrue  => exact h
  case isFalse =>
    refine .inr fun k i hm s hs hi => ?_
    obtain ⟨hk, hn⟩ := Cache.mem_invalidateRefs hm
    rcases h with hl | hc
    case inl => exact absurd (List.mem_map.mpr ⟨l, hl, hi.symm⟩) (hn s hs)
    case inr => exact hc k i hk s hs hi

theorem step (h : v.Watches l steps) (hs : s ∈ steps) : (v.step w s).Watches l steps := by
  cases s
  case flush => exact h.settle_flush
  case poll now =>
    rw [Vigil.step, Debounce.poll]
    split
    case isTrue  => exact h.settle_flush
    case isFalse => exact h
  case change now e =>
    rw [Vigil.step]
    rcases v.debounce.record_cases w now e with ⟨_, hr | ⟨f, hr⟩⟩ | ⟨n, _, hr⟩ <;> rw [hr]
    case inr => exact h.imp_left (mem_locations_add · n.kind n.place)
    all_goals exact h
  case request r =>
    refine h.imp_right fun hc k i hm => ?_
    rcases Cache.mem_step hm with ⟨d, rfl, hd⟩ | ⟨hk, _⟩
    · exact fun _ _ _ => ⟨d, hs, hd⟩
    · exact hc k i hk

theorem after {taken : List Step} (h : v.Watches l steps) (w : Workspace) (ht : taken ⊆ steps) :
    (v.after w taken).Watches l steps := by
  induction taken generalizing v
  case nil => exact h
  case cons s taken hi =>
    have ⟨hs, ht⟩ := List.cons_subset.mp ht
    exact hi (h.step hs) ht

-- Nothing waits after a flush.
theorem all_flush (h : v.Watches l steps) (w : Workspace) :
    (v.step w .flush).cache.All fun k i =>
      ∀ s, i.source = some s → s.id = l.text → ∃ d, .request (.put d i) ∈ steps ∧ d.identity = k := by
  rcases h.settle_flush with hl | hc
  case inr => exact hc
  case inl =>
    rw [settle, v.debounce.pending_flush] at hl
    cases hl

end Watches

theorem watches_change (now : Nat) (hd : e.isDirectory = false)
    (hk : v.debounce.skips e.path.name = false) (hl : w.locate e.path = .ok l) :
    (v.step w (.change now e)).Watches l steps := by
  refine .inl ?_
  simp only [step, Debounce.record, hd, hk, hl, Bool.or_self, Bool.false_eq_true, if_false, Except.map,
    Except.toOption, Option.getD]
  exact mem_locations_add_self _ e.kind l

-- Once all that was held back is delivered, what is still there of a changed file was put after the
-- change, unless the file is the one that was moved to.
theorem no_entry_outlives_change (w : Workspace) (v : Vigil) (pre : List Step) (now : Nat)
    (e : FileEvent) (post : List Step) (l : Location) (hd : e.isDirectory = false)
    (hk : v.debounce.skips e.path.name = false) (hc : e.Changes w l) :
    (v.after w (pre ++ .change now e :: post ++ [.flush])).cache.All fun k i =>
      ∀ s, i.source = some s → s.id = l.text →
        (∃ d, .request (.put d i) ∈ post ∧ d.identity = k) ∨ e.kind = .moved ∧ w.locate e.path ≠ .ok l := by
  by_cases hl : w.locate e.path = .ok l
  case neg => exact fun _ _ _ _ _ _ => .inr ⟨(hc.resolve_left hl).left, hl⟩
  case pos =>
    have hk : (v.after w pre).debounce.skips e.path.name = false := by
      rwa [Debounce.skips, suffix_after]
    have hw := ((watches_change now hd hk hl).after w (List.Subset.refl post)).all_flush w
    rw [after_append, after_append]
    exact fun k i hm s hs hi => .inl (hw k i hm s hs hi)

namespace cellar

def shelf : Location :=
  ⟨["w".toList, "shelf.org".toList]⟩

def crate : Location :=
  ⟨["w".toList, "crate.org".toList]⟩

def directive (l : Location) : Directive where
  link := { body := l.text }

def entry (l : Location) : Included where
  content := .whole (.ofText [])
  sourceId := l.text
  source := some l.source
  target := none

-- Both files are included, and then the crate is put where the shelf was.
def vigil : Vigil where
  debounce := {}
  cache := { capacity := 2 }

def included : List Step :=
  [.request (.put (directive shelf) (entry shelf)), .request (.put (directive crate) (entry crate))]

def move : FileEvent where
  kind := .moved
  path := crate.path
  dest := some shelf.path

end cellar

open cellar

theorem no_entry_outlives_change_cellar :
    let now := vigil.after {} (included ++ [.change 0 move, .flush])
    (∀ k i, (k, i) ∈ now.cache.entries → i.source ≠ some crate.source) ∧ now.cache.length = 1 := by
  have ha := no_entry_outlives_change {} vigil included 0 move [] crate rfl (by decide +kernel)
    (.inl (by decide +kernel))
  refine ⟨fun k i hm hi => ?_, by decide +kernel⟩
  rcases ha k i hm _ hi rfl with ⟨_, hp, _⟩ | ⟨_, hn⟩
  · cases hp
  · exact hn (by decide +kernel)

-- The handler forgets that a move also changes what is where it ends.
theorem entry_outlives_move :
    let now := vigil.after {} (included ++ [.change 0 move, .flush])
    move.Changes {} shelf ∧ move.isDirectory = false ∧
      (∀ l ∈ [crate, shelf], vigil.debounce.skips l.name = false) ∧
      now.cache.entries = [((directive shelf).identity, entry shelf)] ∧
      (entry shelf).source = some shelf.source := by
  refine ⟨.inr ⟨rfl, shelf.path, rfl, ?_⟩, rfl, ?_, ?_, rfl⟩ <;> decide +kernel

end Vigil

end Transclusion
