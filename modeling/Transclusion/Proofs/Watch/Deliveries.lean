import Mathlib.Data.List.Induction
import Transclusion.Proofs.Watch.Batches

namespace Transclusion

open Text

namespace Debounce

inductive Step
  | event (e : FileEvent)
  | poll
  | flush
  deriving DecidableEq

-- A step and the time at which it is taken.
structure Moment where
  now : Rat
  step : Step
  deriving DecidableEq

variable (w : Workspace) (d : Debounce)

-- What cannot be recorded is as if it had not happened.
def step (m : Moment) : Option Batch × Debounce :=
  match m.step with
  | .event e => (none, (d.record w m.now e).toOption.getD d)
  | .poll => d.poll m.now
  | .flush => d.flush

def after (ms : List Moment) : Debounce :=
  ms.foldl (fun d m => (d.step w m).2) d

-- The batch that is delivered at `m`, when `ms` have gone before.
def delivery (ms : List Moment) (m : Moment) : Option Batch :=
  ((d.after w ms).step w m).1

def noted? (m : Moment) : Option Note :=
  match m.step with
  | .event e => d.note? w e
  | _ => none

-- The time of the last event that was recorded.
def lastNoted? (ms : List Moment) : Option Rat :=
  (ms.filter fun m => (d.noted? w m).isSome).getLast?.map (·.now)

-- The note was recorded, and no batch has been delivered since.
inductive Waits (n : Note) : List Moment → Prop
  | noted {ms m} (h : d.noted? w m = some n) : Waits n (ms ++ [m])
  | silent {ms m} (h : Waits n ms) (hm : d.delivery w ms m = none) : Waits n (ms ++ [m])

-- What has come of `ms`, and what will come of the next moment, if `q` is the quiet period and `ns` are
-- the notes that wait.
structure Prompt (q : Int) (ms : List Moment) (ns : List Note) : Prop where
  waits : ∀ n, n ∈ ns ↔ d.Waits w n ms
  pending : (d.after w ms).pending.Gathers ns
  event : ∀ t e, d.delivery w ms ⟨t, .event e⟩ = none
  poll : ∀ t, (d.delivery w ms ⟨t, .poll⟩).isSome ↔ ns ≠ [] ∧ ∃ last ∈ d.lastNoted? w ms, q ≤ t - last
  flush : ∀ t, (d.delivery w ms ⟨t, .flush⟩).isSome ↔ ns ≠ []
  batch : ∀ m b, d.delivery w ms m = some b → b.Gathers ns ∧ ns ≠ [] ∧ b.isEmpty = false

variable {w : Workspace} {d x : Debounce} {n : Note} {ms : List Moment} {m : Moment}

section Steps

-- A moment records something, or delivers all that is held back, or does nothing.
theorem step_cases (w : Workspace) (d : Debounce) (m : Moment) :
    (∃ n, d.noted? w m = some n ∧ d.step w m =
      (none, { d with pending := d.pending.add n.kind n.place, lastEvent := m.now })) ∨
    (d.noted? w m = none ∧ d.step w m = (none, d)) ∨
    (d.noted? w m = none ∧ d.pending.isEmpty = false ∧ d.step w m =
      (some d.pending, { d with pending := {} })) := by
  obtain ⟨now, s⟩ := m
  have hf : d.flush = (none, d) ∨
      d.pending.isEmpty = false ∧ d.flush = (some d.pending, { d with pending := {} }) := by
    cases hp : d.pending.isEmpty
    case true  => exact .inl (flush_of_isEmpty hp)
    case false => exact .inr ⟨rfl, flush_of_not_isEmpty hp⟩
  cases s
  case event e =>
    rcases d.record_cases w now e with ⟨hn, hr | ⟨f, hr⟩⟩ | ⟨n, hn, hr⟩
    · exact .inr (.inl ⟨hn, by simp [step, hr, Except.toOption]⟩)
    · exact .inr (.inl ⟨hn, by simp [step, hr, Except.toOption]⟩)
    · exact .inl ⟨n, hn, by simp [step, hr, Except.toOption]⟩
  case flush => exact .inr (hf.imp (⟨rfl, ·⟩) (⟨rfl, ·⟩))
  case poll =>
    cases hq : d.isQuiet now
    case false => exact .inr (.inl ⟨rfl, by simp [step, Debounce.poll, hq]⟩)
    case true =>
      have hs : d.step w ⟨now, .poll⟩ = d.flush := by simp [step, Debounce.poll, hq]
      rw [hs]
      exact .inr (hf.imp (⟨rfl, ·⟩) (⟨rfl, ·⟩))

theorem noted?_congr (h : x.suffix = d.suffix) (w : Workspace) : x.noted? w = d.noted? w := by
  obtain ⟨_, _, _, _⟩ := x
  subst h
  rfl

theorem after_concat (w : Workspace) (d : Debounce) (ms : List Moment) (m : Moment) :
    d.after w (ms ++ [m]) = ((d.after w ms).step w m).2 := by
  rw [after, List.foldl_append]
  rfl

theorem waits_concat_iff :
    d.Waits w n (ms ++ [m]) ↔ d.noted? w m = some n ∨ d.Waits w n ms ∧ d.delivery w ms m = none := by
  constructor
  case mpr => exact fun h => h.elim .noted fun ⟨h, hm⟩ => .silent h hm
  case mp =>
    intro h
    generalize hl : ms ++ [m] = l at h
    cases h
    case noted h =>
      obtain ⟨rfl, hm⟩ := List.append_inj' hl rfl
      cases hm
      exact .inl h
    case silent h hd =>
      obtain ⟨rfl, hm⟩ := List.append_inj' hl rfl
      cases hm
      exact .inr ⟨h, hd⟩

theorem not_waits_nil : ¬d.Waits w n [] := by
  intro h
  generalize hl : ([] : List Moment) = l at h
  cases h <;> simp at hl

end Steps

section Times

theorem lastNoted?_of_some (h : d.noted? w m = some n) (ms : List Moment) :
    d.lastNoted? w (ms ++ [m]) = some m.now := by
  simp [lastNoted?, List.filter_append, h]

theorem lastNoted?_of_none (h : d.noted? w m = none) (ms : List Moment) :
    d.lastNoted? w (ms ++ [m]) = d.lastNoted? w ms := by
  simp [lastNoted?, List.filter_append, h]

end Times

-- `x` is what `d` has become after `ms`, with the notes `ns` still to be delivered.
structure Holds (w : Workspace) (d : Debounce) (ms : List Moment) (ns : List Note) (x : Debounce) :
    Prop where
  quiet : x.quiet = d.quiet
  suffix : x.suffix = d.suffix
  waits : ∀ n, n ∈ ns ↔ d.Waits w n ms
  pending : x.pending.Gathers ns
  last : ns ≠ [] → d.lastNoted? w ms = some x.lastEvent

namespace Holds

variable {ns : List Note}

theorem start (w : Workspace) (h : d.pending = {}) : d.Holds w [] [] d where
  quiet := rfl
  suffix := rfl
  waits _ := iff_of_false List.not_mem_nil not_waits_nil
  pending := h ▸ Batch.gathers_nil
  last h := absurd rfl h

theorem concat (h : d.Holds w ms ns (d.after w ms)) (m : Moment) :
    ∃ ns', d.Holds w (ms ++ [m]) ns' (d.after w (ms ++ [m])) := by
  have hn := noted?_congr h.suffix w
  have hd : d.delivery w ms m = ((d.after w ms).step w m).1 := rfl
  rw [after_concat]
  rcases (d.after w ms).step_cases w m with ⟨n, hm, hs⟩ | ⟨hm, hs⟩ | ⟨hm, _, hs⟩
  all_goals
    rw [hn] at hm
    rw [hs] at hd ⊢
  case inl =>
    refine ⟨ns ++ [n], h.quiet, h.suffix, fun k => ?_, h.pending.add n, fun _ => ?_⟩
    · rw [waits_concat_iff, List.mem_append, List.mem_singleton, h.waits, hm, hd, Option.some.injEq]
      simp only [and_true]
      exact or_comm.trans (or_congr_left eq_comm)
    · exact lastNoted?_of_some hm ms
  case inr.inl =>
    refine ⟨ns, h.quiet, h.suffix, fun k => ?_, h.pending, fun hne => ?_⟩
    · simp [waits_concat_iff, h.waits, hm, hd]
    · exact (lastNoted?_of_none hm ms).trans (h.last hne)
  case inr.inr =>
    refine ⟨[], h.quiet, h.suffix, fun k => ?_, Batch.gathers_nil, fun hne => absurd rfl hne⟩
    simp [waits_concat_iff, hm, hd]

theorem after (w : Workspace) (h : d.pending = {}) (ms : List Moment) :
    ∃ ns, d.Holds w ms ns (d.after w ms) := by
  induction ms using List.reverseRecOn
  case nil => exact ⟨[], start w h⟩
  case append_singleton ms m hi =>
    obtain ⟨ns, hi⟩ := hi
    exact hi.concat m

theorem flush (h : d.Holds w ms ns x) : x.flush.1.isSome ↔ ns ≠ [] := by
  have hn := h.pending.isEmpty_iff
  cases hp : x.pending.isEmpty
  case true  => simp [flush_of_isEmpty hp, hn.mp hp]
  case false => simp [flush_of_not_isEmpty hp, mt hn.mpr (by simp [hp])]

theorem poll {q : Int} (h : d.Holds w ms ns x) (hq : d.quiet = some q) (t : Rat) :
    (x.poll t).1.isSome ↔ ns ≠ [] ∧ ∃ last ∈ d.lastNoted? w ms, q ≤ t - last := by
  have hi : x.isQuiet t ↔ q ≤ t - x.lastEvent := by simp [isQuiet, h.quiet, hq]
  by_cases hn : ns = []
  case pos =>
    have hf : x.flush.1 = none := by simpa [hn] using h.flush
    rw [Debounce.poll]
    split <;> simp [hn, hf]
  case neg =>
    rw [Debounce.poll, h.last hn]
    simp only [Option.mem_some_iff, exists_eq_left', ←hi]
    split
    case isTrue ht  => simp [h.flush, hn, ht]
    case isFalse ht => simp [ht]

end Holds

-- Whatever happens in whatever order, what is recorded is in the next batch and in no other.
theorem delivers_once_after_quiet (w : Workspace) (q : Int) (suffix : Text) (ms : List Moment) :
    ∃ ns, ({ quiet := some q, suffix } : Debounce).Prompt w q ms ns := by
  obtain ⟨ns, h⟩ := Holds.after (d := { quiet := some q, suffix }) w rfl ms
  refine ⟨ns, h.waits, h.pending, fun _ _ => rfl, h.poll rfl, fun _ => h.flush, fun m b hb => ?_⟩
  rcases step_cases w (after w _ ms) m with ⟨n, _, hs⟩ | ⟨_, hs⟩ | ⟨_, hp, hs⟩ <;>
    rw [delivery, hs] at hb <;> cases hb
  exact ⟨h.pending, mt h.pending.isEmpty_iff.mpr (by simp [hp]), hp⟩

-- A backup that is written does not keep the batch waiting.
example :
    let d : Debounce := { quiet := some 150 }
    let ms : List Moment :=
      [⟨0, .event { kind := .modified, path := ⟨.slash, ["a.org".toList]⟩ }⟩,
        ⟨100, .event { kind := .modified, path := ⟨.slash, ["a.org~".toList]⟩ }⟩]
    d.delivery {} ms ⟨299 / 2, .poll⟩ = none ∧
      d.delivery {} ms ⟨150, .poll⟩ = some { modified := [⟨["a.org".toList]⟩] } := by
  decide +kernel

end Debounce

end Transclusion
