import Transclusion.Proofs.Cache.Runs
import Transclusion.Proofs.Watch.Batches
import Transclusion.Watch

namespace Transclusion

open Watch (Action Span Turn)

-- A turn as it went: the watcher that comes to it, and all that happened since the turn before.
structure Watch.Passage where
  watcher : Watcher
  happened : List Action
  turn : Turn

namespace Watch

-- The cache that a batch is delivered to.
def Passage.cache (p : Passage) : Cache :=
  p.watcher.render.2.session.cache

-- What came of the rendering in the turn that ended with `error`, if it rendered.
def Turn.rendering? (t : Turn) (error : Option WatchError) : Option (Except SessionError Text) :=
  match t.rendered, error with
  | some s, _ => some (.ok s)
  | none, some (.session e) => some (.error e)
  | none, _ => none

-- Only the last turn can have failed.
def rendering? (turns : List Turn) (error : Option WatchError) (i : Nat) :
    Option (Except SessionError Text) :=
  turns[i]?.bind fun t => t.rendering? (if i + 1 = turns.length then error else none)

-- The first turn, and each that follows a batch.
def isDue (turns : List Turn) : Nat → Bool
  | 0 => true
  | i + 1 => turns[i]?.any (·.batch.isSome)

end Watch

-- The passages `ps` of a watcher that recorded events with `note?` make up a run.
structure WatchRun.Faithful (r : WatchRun) (note? : Watch.Action → Option Note) (spans : List Span)
    (late : List Action) (ps : List Watch.Passage) : Prop where
  turns : r.turns = ps.map (·.turn)
  renders : ∀ i p, ps[i]? = some p →
    Watch.rendering? r.turns r.error i =
      if Watch.isDue r.turns i then some (p.watcher.session.render p.watcher.workspace {}).1 else none
  drops : ∀ i p q, ps[i]? = some p → ps[i + 1]? = some q →
    q.watcher.session.cache = p.turn.batch.elim p.cache (fun b => (p.cache.apply b).2) ∧
      ∀ b, p.turn.batch = some b → q.watcher.session.cache.All fun _ e =>
        ∀ s, e.source = some s → s.id ∉ b.locations.map (·.text)
  delivers : ∃ shares,
    List.Forall₂ Batch.Delivers (r.turns.map (·.batch) ++ [r.lastBatch]) shares ∧
      shares.flatten = (ps.flatMap (·.happened) ++ late).filterMap note? ∧
      ∀ k ≤ ps.length,
        (shares.take k).flatten <+: ((ps.take k).flatMap (·.happened)).filterMap note?
  completes : r.error = none → ps.map (·.happened) = spans.map fun s => s.early ++ s.asleep

namespace Watcher

variable (x : Watcher)

-- The actions up to the one that fails.
def happening : Watcher → List Action → List Action
  | _, [] => []
  | x, a :: as =>
    match x.act a with
    | .ok y => a :: happening y as
    | .error _ => []

-- A watcher that fails to render does not sleep.
def slept (as : List Action) : List Action :=
  match x.render with
  | (.ok _, y) => y.happening as
  | (.error _, _) => []

def passages : Watcher → List Span → List Watch.Passage
  | _, [] => []
  | x, s :: ss =>
    let x := x.undergo s.early
    let (turn, error, y) := x.turn s.asleep
    { watcher := x, happened := s.early ++ x.slept s.asleep, turn } ::
      if error.isNone then passages y ss else []

-- What is recorded of an action.
def note? : Action → Option Note
  | .event e => x.debounce.note? x.workspace e
  | _ => none

-- `y` is what `x` becomes while `as` happen.
structure Follows (x : Watcher) (as : List Action) (y : Watcher) : Prop where
  session : y.session = x.session
  dirty : y.dirty = x.dirty
  note? : y.note? = x.note?
  gathers : ∀ ns, x.debounce.pending.Gathers ns →
    y.debounce.pending.Gathers (ns ++ as.filterMap x.note?)

-- `y` is what `x` becomes while `as` happen and `b` is delivered to the cache `c`.
structure Settles (x : Watcher) (as : List Action) (c : Cache) (b : Option Batch) (y : Watcher) :
    Prop where
  cache : y.session.cache = b.elim c fun b => (c.apply b).2
  note? : y.note? = x.note?
  delivers : ∀ ns, x.debounce.pending.Gathers ns →
    ∃ share rest, share ++ rest = ns ++ as.filterMap x.note? ∧ Batch.Delivers b share ∧
      y.debounce.pending.Gathers rest

-- What a turn makes of `x`.
structure Turned (x : Watcher) (as : List Action) (t : Turn) (error : Option WatchError)
    (y : Watcher) : Prop where
  rendering? : t.rendering? error =
    if x.dirty then some (x.session.render x.workspace {}).1 else none
  settles : x.Settles (x.slept as) x.render.2.session.cache t.batch y
  slept : error = none → x.slept as = as
  dirty : error = none → y.dirty = t.batch.isSome

-- All turns but the last end well.
inductive Looped : Watcher → List Watch.Passage → Option WatchError → Watcher → Prop
  | stopped (x : Watcher) : Looped x [] none x
  | failed {x y : Watcher} {early asleep t e} (h : (x.undergo early).Turned asleep t (some e) y) :
    Looped x [⟨x.undergo early, early ++ (x.undergo early).slept asleep, t⟩] (some e) y
  | turned {x y z : Watcher} {early asleep t ps error} (h : (x.undergo early).Turned asleep t none y)
      (hl : Looped y ps error z) :
    Looped x (⟨x.undergo early, early ++ (x.undergo early).slept asleep, t⟩ :: ps) error z

variable {x y z : Watcher} {a : Action} {as bs : List Action} {e : WatchError}
  {error : Option WatchError} {c : Cache} {s : Span} {ss : List Span} {b : Option Batch} {t : Turn}
  {ps : List Watch.Passage}

section Actions

theorem note?_congr (hs : y.debounce.suffix = x.debounce.suffix)
    (hw : y.workspace.cwd = x.workspace.cwd) : y.note? = x.note? := by
  funext a
  cases a <;> simp [note?, Debounce.note?, Debounce.skips, Workspace.locate, hs, hw]

namespace Follows

theorem refl (x : Watcher) : x.Follows [] x where
  session := rfl
  dirty := rfl
  note? := rfl
  gathers _ h := by simpa

theorem trans (h : x.Follows as y) (h' : y.Follows bs z) : x.Follows (as ++ bs) z where
  session := h'.session.trans h.session
  dirty := h'.dirty.trans h.dirty
  note? := h'.note?.trans h.note?
  gathers ns hn := by
    have hg := h'.gathers _ (h.gathers ns hn)
    rwa [h.note?, List.append_assoc, ←List.filterMap_append] at hg

end Follows

theorem Follows.of_unrecorded (hs : y.session = x.session) (hd : y.dirty = x.dirty)
    (hn : y.note? = x.note?) (hp : y.debounce = x.debounce) (ha : x.note? a = none) :
    x.Follows [a] y := by
  refine ⟨hs, hd, hn, fun ns hg => ?_⟩
  rwa [hp, List.filterMap_cons_none ha, List.filterMap_nil, List.append_nil]

theorem follows_act (h : x.act a = .ok y) : x.Follows [a] y := by
  cases a
  case event f =>
    rw [act] at h
    split at h <;> cases h
    case h_1 d hd =>
      refine ⟨rfl, rfl, note?_congr (Debounce.suffix_record hd) rfl, fun ns hn => ?_⟩
      have hg := Debounce.gathers_record hn hd
      cases hf : x.debounce.note? x.workspace f <;> simpa [note?, hf] using hg
  case tick =>
    cases h
    exact .of_unrecorded rfl rfl rfl rfl rfl
  case write =>
    cases h
    exact .of_unrecorded rfl rfl (note?_congr rfl rfl) rfl rfl
  case delete p =>
    rw [act, Workspace.delete] at h
    cases hd : x.workspace.tree.delete? (x.workspace.cwd.walk p) <;> rw [hd] at h <;> cases h
    exact .of_unrecorded rfl rfl (note?_congr rfl rfl) rfl rfl

theorem note?_of_act_error (h : x.act a = .error e) : x.note? a = none := by
  cases a
  case event f =>
    rw [act] at h
    split at h <;> cases h
    case h_2 hd => exact Debounce.note?_of_record_error hd
  all_goals rfl

theorem actAll_ne_session (x : Watcher) (as : List Action) (f : SessionError) :
    (x.actAll as).1 ≠ some (.session f) := by
  induction as generalizing x
  case nil => nofun
  case cons a as hi =>
    rw [actAll]
    cases ha : x.act a
    case ok y => exact hi y
    case error e =>
      cases a <;> rw [act] at ha
      case event  => split at ha <;> cases ha; nofun
      case delete => split at ha <;> cases ha; nofun
      all_goals cases ha

theorem follows_undergo (x : Watcher) (as : List Action) : x.Follows as (x.undergo as) := by
  induction as generalizing x
  case nil => exact .refl x
  case cons a as hi =>
    rw [undergo, List.foldl_cons]
    cases ha : x.act a
    case ok y    => exact (follows_act ha).trans (hi y)
    case error e =>
      refine ⟨(hi x).session, (hi x).dirty, (hi x).note?, fun ns hn => ?_⟩
      rw [List.filterMap_cons_none (note?_of_act_error ha)]
      exact (hi x).gathers ns hn

theorem follows_actAll (x : Watcher) (as : List Action) :
    x.Follows (x.happening as) (x.actAll as).2 := by
  induction as generalizing x
  case nil => exact .refl x
  case cons a as hi =>
    rw [happening, actAll]
    cases ha : x.act a
    case ok y    => exact (follows_act ha).trans (hi y)
    case error e => exact .refl x

theorem happening_of_actAll (h : (x.actAll as).1 = none) : x.happening as = as := by
  induction as generalizing x
  case nil => rfl
  case cons a as hi =>
    rw [actAll] at h
    rw [happening]
    cases ha : x.act a <;> rw [ha] at h
    case ok y    => exact congrArg (a :: ·) (hi h)
    case error e => cases h

end Actions

section Settling

namespace Follows

theorem settles (h : x.Follows as y) (hs : y.Settles bs c b z) : x.Settles (as ++ bs) c b z where
  cache := hs.cache
  note? := hs.note?.trans h.note?
  delivers ns hn := by
    have hd := hs.delivers _ (h.gathers ns hn)
    rwa [h.note?, List.append_assoc, ←List.filterMap_append] at hd

-- As long as nothing is delivered, all is held back.
theorem settles_none (h : x.Follows as y) : x.Settles as x.session.cache none y where
  cache := by rw [h.session]; rfl
  note? := h.note?
  delivers ns hn := ⟨[], _, rfl, .nothing, h.gathers ns hn⟩

end Follows

theorem settles_flush (x : Watcher) :
    x.Settles [] x.session.cache (x.settle x.debounce.flush).1 (x.settle x.debounce.flush).2 := by
  have hs := x.debounce.suffix_flush
  have hp := x.debounce.pending_flush
  have hd := @Debounce.flush_delivers x.debounce
  generalize x.debounce.flush = r at hs hp hd
  obtain ⟨b, d⟩ := r
  have hg : d.pending.Gathers [] := hp ▸ Batch.gathers_nil
  cases b <;> exact ⟨rfl, note?_congr hs rfl, fun ns hn => ⟨ns, [], by simp, hd hn, hg⟩⟩

theorem settles_poll (h : x.poll = .ok (b, y)) : x.Settles [] x.session.cache b y := by
  rw [poll] at h
  split at h
  case h_1 =>
    split at h <;> cases h
    exact (Follows.refl x).settles_none
  case h_2 =>
    have h := Except.ok.inj h
    rw [Debounce.poll] at h
    split at h
    case isTrue =>
      have hs := x.settles_flush
      rwa [h] at hs
    case isFalse =>
      cases h
      exact (Follows.refl x).settles_none

theorem fst_settle (x : Watcher) (r : Option Batch × Debounce) : (x.settle r).1 = r.1 := by
  obtain ⟨b, d⟩ := r
  cases b <;> rfl

theorem dirty_settle (x : Watcher) (r : Option Batch × Debounce) :
    (x.settle r).2.dirty = (x.dirty || (x.settle r).1.isSome) := by
  obtain ⟨b, d⟩ := r
  cases b
  case none   => simp [settle]
  case some b => simp [settle, deliver]

theorem poll_ne_session {f : SessionError} : x.poll ≠ .error (.session f) := by
  rw [poll]
  split
  case h_1 => split <;> nofun
  case h_2 => nofun

theorem dirty_poll (h : x.poll = .ok (b, y)) : y.dirty = (x.dirty || b.isSome) := by
  rw [poll] at h
  split at h
  case h_1 =>
    split at h <;> cases h
    simp
  case h_2 =>
    have hd := x.dirty_settle (x.debounce.poll x.clock)
    rwa [Except.ok.inj h] at hd

end Settling

section Turns

theorem render_cases (x : Watcher) :
    (x.dirty = false ∧ x.render = (.ok none, x)) ∨
    ∃ r s, x.dirty = true ∧ x.session.render x.workspace {} = (r, s) ∧
      x.render = ((r.map some).mapError .session, { x with session := s, dirty := false }) := by
  rw [render]
  cases x.dirty
  case false => exact .inl ⟨rfl, rfl⟩
  case true  => exact .inr ⟨_, _, rfl, rfl, rfl⟩

theorem Settles.of_render (h : x.render.2.Settles as c b y) : x.Settles as c b y := by
  obtain ⟨hn, hd⟩ : x.render.2.note? = x.note? ∧ x.render.2.debounce = x.debounce := by
    rcases x.render_cases with ⟨_, hr⟩ | ⟨_, _, _, _, hr⟩ <;> rw [hr] <;> exact ⟨rfl, rfl⟩
  refine ⟨h.cache, h.note?.trans hn, ?_⟩
  rw [←hn, ←hd]
  exact h.delivers

theorem rendering?_of_ne_session (h : ∀ f, error ≠ some (.session f)) :
    t.rendering? error = t.rendered.map .ok := by
  unfold Turn.rendering?
  split
  case h_1 hr     => simp [hr]
  case h_2 f _    => exact absurd rfl (h f)
  case h_3 _ hr _ => simp [hr]

-- A watcher that has rendered goes on to sleep and to poll.
theorem turned_of_render {rendered : Option Text} (hr : x.render = (.ok rendered, y))
    (hd : y.dirty = false)
    (hs : rendered.map .ok = if x.dirty then some (x.session.render x.workspace {}).1 else none) :
    x.Turned as (x.turn as).1 (x.turn as).2.1 (x.turn as).2.2 := by
  have hy {b z} (h : y.Settles (y.happening as) y.session.cache b z) :
      x.Settles (x.slept as) x.render.2.session.cache b z := by
    rw [show x.slept as = y.happening as by rw [slept, hr]]
    rw [show y = x.render.2 by rw [hr]] at h ⊢
    exact h.of_render
  have ha := y.follows_actAll as
  have hn := y.actAll_ne_session as
  rcases hz : y.actAll as with ⟨_ | e, z⟩ <;> rw [hz] at ha hn
  case some =>
    simp only [turn, hr, hz]
    refine ⟨?_, hy ha.settles_none, nofun, nofun⟩
    rwa [rendering?_of_ne_session hn]
  case none =>
    have hh : y.happening as = as := happening_of_actAll (by rw [hz])
    cases hp : z.poll
    case error e =>
      simp only [turn, hr, hz, hp]
      refine ⟨?_, hy ha.settles_none, nofun, nofun⟩
      rwa [rendering?_of_ne_session fun f he => poll_ne_session (Option.some.inj he ▸ hp)]
    case ok r =>
      obtain ⟨b, v⟩ := r
      simp only [turn, hr, hz, hp]
      have hs := ha.settles (settles_poll hp)
      rw [List.append_nil, ha.session] at hs
      refine ⟨?_, hy hs, fun _ => ?_, fun _ => ?_⟩
      · rwa [rendering?_of_ne_session (by simp)]
      · rw [slept, hr]
        exact hh
      · rw [dirty_poll hp, ha.dirty, hd, Bool.false_or]

theorem turned (x : Watcher) (as : List Action) :
    x.Turned as (x.turn as).1 (x.turn as).2.1 (x.turn as).2.2 := by
  rcases x.render_cases with ⟨hd, hr⟩ | ⟨r, s, hd, hs, hr⟩
  case inl => exact turned_of_render hr hd (by simp [hd])
  case inr =>
    cases r
    case ok text => exact turned_of_render hr rfl (by simp [hd, hs])
    case error f =>
      simp only [turn, hr, Except.map, Except.mapError]
      refine ⟨by simp [Turn.rendering?, hd, hs], .of_render ?_, nofun, nofun⟩
      rw [slept, hr]
      exact (Follows.refl _).settles_none

end Turns

section Loop

theorem looped (x : Watcher) (ss : List Span) :
    Looped x (x.passages ss) (x.loop ss).2.1 (x.loop ss).2.2 := by
  induction ss generalizing x
  case nil => exact .stopped x
  case cons s ss hi =>
    have ht := (x.undergo s.early).turned s.asleep
    rw [passages, loop]
    rcases hr : (x.undergo s.early).turn s.asleep with ⟨t, _ | e, y⟩ <;> rw [hr] at ht
    case none => exact .turned ht (hi y)
    case some => exact .failed ht

theorem turns_loop (x : Watcher) (ss : List Span) :
    (x.loop ss).1 = (x.passages ss).map (·.turn) := by
  induction ss generalizing x
  case nil => rfl
  case cons s ss hi =>
    rw [passages, loop]
    rcases (x.undergo s.early).turn s.asleep with ⟨t, _ | e, y⟩
    case none => simp [hi y]
    case some => rfl

-- Without an error there is a turn for each span, and all of it happens.
theorem happened_of_loop (h : (x.loop ss).2.1 = none) :
    (x.passages ss).map (·.happened) = ss.map fun s => s.early ++ s.asleep := by
  induction ss generalizing x
  case nil => rfl
  case cons s ss hi =>
    have ht := (x.undergo s.early).turned s.asleep
    rw [loop] at h
    rw [passages]
    rcases hr : (x.undergo s.early).turn s.asleep with ⟨t, _ | e, y⟩ <;> rw [hr] at ht h
    case none => simp [hi h, ht.slept rfl]
    case some => cases h

namespace Looped

theorem note? (h : Looped x ps error z) : z.note? = x.note? := by
  induction h
  case stopped => rfl
  case failed x y early _ _ _ ht       => exact ht.settles.note?.trans (x.follows_undergo early).note?
  case turned x y z early _ _ _ _ ht _ hi =>
    exact hi.trans (ht.settles.note?.trans (x.follows_undergo early).note?)

-- Each batch takes the next share of what is recorded, and none of what is still to happen.
theorem delivers (h : Looped x ps error z) {ns : List Note} (hn : x.debounce.pending.Gathers ns) :
    ∃ shares rest, List.Forall₂ Batch.Delivers (ps.map (·.turn.batch)) shares ∧
      shares.flatten ++ rest = ns ++ (ps.flatMap (·.happened)).filterMap x.note? ∧
      z.debounce.pending.Gathers rest ∧
      ∀ k, (shares.take k).flatten <+: ns ++ ((ps.take k).flatMap (·.happened)).filterMap x.note? := by
  induction h generalizing ns
  case stopped => exact ⟨[], ns, .nil, by simp, hn, by simp⟩
  case failed x y early asleep t e ht =>
    have ⟨share, rest, he, hd, hp⟩ := ((x.follows_undergo early).settles ht.settles).delivers ns hn
    refine ⟨[share], rest, .cons hd .nil, by simpa using he, hp, fun k => ?_⟩
    cases k
    case zero   => simp
    case succ k => exact ⟨rest, by simpa using he⟩
  case turned x y z early asleep t ps error ht hl hi =>
    have hf := (x.follows_undergo early).settles ht.settles
    have ⟨share, rest, he, hd, hp⟩ := hf.delivers ns hn
    have ⟨shares, last, hds, hes, hz, hk⟩ := hi hp
    rw [hf.note?] at hes hk
    refine ⟨share :: shares, last, .cons hd hds, ?_, hz, fun k => ?_⟩
    · simp only [List.flatten_cons, List.flatMap_cons, List.filterMap_append, List.append_assoc, hes]
      rw [←List.append_assoc, he]
      simp
    · cases k
      case zero   => simp
      case succ k =>
        have ⟨more, hm⟩ := hk k
        refine ⟨more, ?_⟩
        simp only [List.take_succ_cons, List.flatten_cons, List.flatMap_cons, List.filterMap_append,
          List.append_assoc, hm]
        rw [←List.append_assoc, he]
        simp

theorem head (h : Looped x ps error z) {p : Watch.Passage} (hp : ps[0]? = some p) :
    p.watcher.dirty = x.dirty ∧ p.watcher.session = x.session := by
  cases h <;> cases hp <;> exact ⟨(x.follows_undergo _).dirty, (x.follows_undergo _).session⟩

theorem next (h : Looped x ps error z) {i : Nat} {p q : Watch.Passage} (hp : ps[i]? = some p)
    (hq : ps[i + 1]? = some q) :
    q.watcher.dirty = p.turn.batch.isSome ∧
      q.watcher.session.cache = p.turn.batch.elim p.cache fun b => (p.cache.apply b).2 := by
  induction h generalizing i
  case stopped => cases hp
  case failed  => cases hq
  case turned x y z early asleep t ps error ht hl hi =>
    cases i
    case succ i => exact hi hp hq
    case zero   =>
      cases hp
      have ⟨hd, hs⟩ := hl.head hq
      exact ⟨hd.trans (ht.dirty rfl), (congrArg _ hs).trans ht.settles.cache⟩

theorem rendering? (h : Looped x ps error z) {i : Nat} {p : Watch.Passage} (hp : ps[i]? = some p) :
    Watch.rendering? (ps.map (·.turn)) error i =
      if p.watcher.dirty then some (p.watcher.session.render p.watcher.workspace {}).1 else none := by
  induction h generalizing i
  case stopped => cases hp
  case failed ht =>
    cases i <;> cases hp
    simpa [Watch.rendering?] using ht.rendering?
  case turned x y z early asleep t ps error ht hl hi =>
    cases i
    case succ i => simpa [Watch.rendering?] using hi hp
    case zero   =>
      cases hp
      cases hl <;> simpa [Watch.rendering?] using ht.rendering?

-- The watcher comes to a turn dirty if the turn is due.
theorem dirty_eq_isDue (h : Looped x ps error z) (hx : x.dirty) {i : Nat} {p : Watch.Passage}
    (hp : ps[i]? = some p) : p.watcher.dirty = Watch.isDue (ps.map (·.turn)) i := by
  cases i
  case zero   => rw [(h.head hp).left, hx, Watch.isDue]
  case succ i =>
    have ⟨hi, _⟩ := List.getElem?_eq_some_iff.mp hp
    have hq := List.getElem?_eq_getElem (Nat.lt_of_succ_lt hi)
    rw [(h.next hq hp).left, Watch.isDue]
    simp [hq]

-- The last delivery takes all that is left.
theorem delivers_finish (h : Looped x ps error z) (hp : x.debounce.pending = {}) (late : List Action) :
    ∃ shares, List.Forall₂ Batch.Delivers (ps.map (·.turn.batch) ++ [(z.undergo late).finish.1]) shares ∧
      shares.flatten = (ps.flatMap (·.happened) ++ late).filterMap x.note? ∧
      ∀ k ≤ ps.length,
        (shares.take k).flatten <+: ((ps.take k).flatMap (·.happened)).filterMap x.note? := by
  have ⟨shares, rest, hds, he, hz, hk⟩ := h.delivers (hp ▸ Batch.gathers_nil)
  have hg := Debounce.flush_delivers ((z.follows_undergo late).gathers rest hz)
  refine ⟨shares ++ [rest ++ late.filterMap x.note?], ?_, ?_, fun k hle => ?_⟩
  · refine List.rel_append hds (.cons ?_ .nil)
    rw [finish, fst_settle]
    exact h.note? ▸ hg
  · rw [List.filterMap_append, List.flatten_append, List.flatten_singleton, ←List.append_assoc, he]
    rfl
  · have hs : ps.length = shares.length := by simpa using hds.length_eq
    rw [List.take_append_of_le_length (hs ▸ hle)]
    exact hk k

end Looped

end Loop

end Watcher

namespace Watch

variable {x : Watcher}

-- The observer is stopped and the session is closed, also after an error.
theorem attend_final {root : Path} {watched : List (Location × Bool)}
    (h : directories x.workspace root x.session.main = .ok watched) (spans : List Span)
    (late : List Action) :
    (attend x root spans late).final.observing = false ∧
      (attend x root spans late).final.session.cache.entries = [] := by
  simp only [attend, h]
  exact ⟨rfl, rfl⟩

-- The loop, with what happens after it and the last delivery.
theorem faithful_attend {root : Path} {watched : List (Location × Bool)}
    (h : directories x.workspace root x.session.main = .ok watched) (hd : x.dirty)
    (hp : x.debounce.pending = {}) (spans : List Span) (late : List Action) :
    (attend x root spans late).Faithful x.note? spans late
      ({ x with observing := true }.passages spans) := by
  let y := { x with observing := true }
  have hl := y.looped spans
  have ht := y.turns_loop spans
  have hc := @Watcher.happened_of_loop y spans
  generalize hr : attend x root spans late = r
  simp only [attend, h] at hr
  subst hr
  refine ⟨ht, fun i p hp => ?_, fun i p q hp hq => ?_, ?_, hc⟩
  case refine_1 =>
    have hr := hl.rendering? hp
    rwa [hl.dirty_eq_isDue hd hp, ←ht] at hr
  case refine_2 =>
    have hn := (hl.next hp hq).right
    refine ⟨hn, fun b hb k e he s hs => ?_⟩
    rw [hn, hb] at he
    exact (Cache.mem_invalidateRefs he).right s hs
  case refine_3 =>
    rw [ht, List.map_map]
    exact hl.delivers_finish hp late

-- Whatever happens and however it ends, the watcher renders once for each batch, and each event that
-- is recorded is in one batch.
theorem renders_once_per_batch (w : Workspace) (s : Session) (quiet : QuietPeriod) (clock : Nat)
    (root : Path) (spans : List Span) (late : List Action) :
    let x := start w s quiet clock
    let r := attend x root spans late
    r.final.observing = false ∧
      (s.cache.entries = [] ∨ (directories w root s.main).toOption.isSome →
        r.final.session.cache.entries = []) ∧
      ((directories w root s.main).toOption.isSome →
        r.Faithful x.note? spans late ({ x with observing := true }.passages spans)) := by
  intro x r
  rcases hd : directories w root s.main with e | watched
  case error =>
    have hr : r = { error := some e, final := x } := by
      simp only [r, attend, show directories x.workspace root x.session.main = .error e from hd]
    rw [hr]
    exact ⟨rfl, fun h => h.resolve_right nofun, nofun⟩
  case ok =>
    have hd : directories x.workspace root x.session.main = .ok watched := hd
    have ⟨ho, hc⟩ := attend_final hd spans late
    have hf := faithful_attend hd rfl rfl spans late
    exact ⟨ho, fun _ => hc, fun _ => hf⟩

-- A document that includes another one.
def nook : Workspace where
  tree :=
    { nodes :=
        [(⟨["w".toList]⟩, .directory), (⟨["w".toList, "b.org".toList]⟩, .file [111]),
          (⟨["w".toList, "a.org".toList]⟩, .file "#+transclude: [[./b.org]]".toUTF8.toList)] }

namespace nook

def session : Session where
  main := ⟨["w".toList, "a.org".toList]⟩
  root := ⟨["w".toList]⟩
  limit := .ofInt 4
  glob := Glob.ofText "*.org".toList
  cache := { capacity := 2 }

def included : Path :=
  ⟨.slash, ["w".toList, "b.org".toList]⟩

-- The included document is written while the watcher sleeps, and is gone after the last turn.
def spans : List Span :=
  [{ asleep := [.write included [98], .event { kind := .modified, path := included }, .tick 200] }, {}, {}]

def late : List Action :=
  [.delete included, .event { kind := .deleted, path := included }]

def run : WatchRun :=
  attend (start nook session (.ofInt 150) 0) ⟨.slash, ["w".toList]⟩ spans late

end nook

theorem renders_once_per_batch_nook :
    nook.run.turns.map (·.rendered) = [some "o\n".toList, some "b\n".toList, none] ∧
      nook.run.turns.map (·.batch.isSome) = [true, false, false] ∧
      rendering? nook.run.turns nook.run.error 2 = none ∧ nook.run.lastBatch.isSome ∧
      nook.run.final.session.cache.entries = [] := by
  have ⟨_, hc, hf⟩ := renders_once_per_batch nook nook.session (.ofInt 150) 0 ⟨.slash, ["w".toList]⟩
    nook.spans nook.late
  have hd : (directories nook ⟨.slash, ["w".toList]⟩ nook.session.main).toOption.isSome := by
    decide +kernel
  have hl : nook.run.turns.length = 3 := by decide +kernel
  have hf := hf hd
  rw [show nook.run.turns = _ from hf.turns, List.length_map] at hl
  refine ⟨by decide +kernel, by decide +kernel, ?_, by decide +kernel, hc (.inr hd)⟩
  refine (hf.renders 2 _ (List.getElem?_eq_getElem (hl ▸ by decide))).trans (if_neg ?_)
  decide +kernel

end Watch

end Transclusion
