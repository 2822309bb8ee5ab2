import Transclusion.Proofs.Desk.Invalidation
import Transclusion.Proofs.Expansion.Once

namespace Transclusion.Desk

variable {d : Desk} {s : Step} {ss : List Step} {k : Directive.Identity}

-- A step that asks is nothing but resolutions, one after the other.
theorem resolveAll_calls (h : s.asks) :
    (d.renderer {}).resolveAll ((d.calls s).map (·.task)) d.cache =
      (d.calls s, (d.step s).desk.cache) := by
  cases asked (d := d) h
  case flat hr =>
    have ht := Renderer.resolveAll_tasks (r := d.renderer {}) (d.tasks s) d.cache
    rw [hr] at ht
    rw [ht, hr]
  case deep style _ _ hx _ hc hd =>
    rw [←hc, ←hd]
    exact (Renderer.resolveAll_style style _ _).symm.trans hx.resolveAll_calls

theorem resolveAll_runCalls (h : ∀ s ∈ ss, s.asks) :
    (d.renderer {}).resolveAll ((d.runCalls ss).map (·.task)) d.cache =
      (d.runCalls ss, (d.after ss).cache) := by
  induction ss generalizing d
  case nil => rfl
  case cons s ss hi =>
    have ⟨hs, h⟩ := List.forall_mem_cons.mp h
    have hd : (d.step s).desk.renderer {} = d.renderer {} := by rw [desk_of_asks hs]; rfl
    have hr := hi h (d := (d.step s).desk)
    rw [hd] at hr
    simp only [runCalls, after, List.map_append, Renderer.resolveAll_append, resolveAll_calls hs, hr]

-- While nothing changes, the calls come to what they would come to one after the other.
theorem ComesTo.serial {b : Busy} (h : d.ComesTo ss b) (ha : ∀ s ∈ ss, s.asks) :
    b.renderer {} = d.renderer {} ∧ (d.renderer {}).Serial d.cache b.history b.cache ∧
      (d.renderer {}).Awaits b.loop := by
  induction h
  case nil => exact ⟨rfl, .nil, .start [] d.cache⟩
  case asks hi =>
    have ⟨hr, hs, hw⟩ := hi (List.forall_mem_append.mp ha).left
    exact ⟨hr, hs, hw.admitted, hw.expected⟩
  case changes hn _ _ =>
    exact absurd (ha _ (List.mem_append_right _ List.mem_cons_self)) hn
  case moves hm hi =>
    have ⟨hr, hs, hw⟩ := hi ha
    rw [hr] at hm
    exact ⟨hr, hm.serial hs hw⟩
  case drops hw' hi =>
    have ⟨hr, hs, hw⟩ := hi ha
    exact ⟨hr, hs, fun p hp => hw.admitted p (hw' hp), fun k e hm p hp => hw.expected k e hm p (hw' hp)⟩

-- How a document is come by under a key: one look, and one reading.
def Gets (d : Desk) (k : Directive.Identity) (source : Source) (log : List Access) : Prop :=
  log = [.beside k.link.body, .fetch source.name] ∨
    ∃ scope, d.shelf.scope = some scope ∧ log = [.search scope k.link.body, .fetch source.name]

-- While there is space for all that is included, what is included under a key is always the same, and a
-- task asks for it only if no other has got it yet. So each key is fetched once if the tasks are
-- resolved one after the other.
theorem fetched_once (he : d.cache.entries = []) (ha : ∀ s ∈ ss, s.asks) :
    (∀ b, d.ComesTo ss b → (succeeded (Moment.calls b.history)).card ≤ d.cache.capacity →
      ∀ k ∈ succeeded (Moment.calls b.history), ∃ e source, e.source = some source ∧
        (∀ c ∈ Moment.calls b.history, c.key = k → ∀ s, c.outcome = .ok s → s.included = e) ∧
        ∀ before t log after, b.history = before ++ .starts t log :: after →
          t.directive.identity = k →
            if refusal? d.limit t.ancestors t.directive = none ∧
                k ∉ succeeded (Moment.calls before) then d.Gets k source log
            else log = []) ∧
    (∃ history, Moment.calls history = d.runCalls ss ∧
      d.ComesTo ss { d.after ss with ready := [], waiting := [], history }) ∧
    (d.run ss).flatMap (·.accesses) = (d.runCalls ss).flatMap (·.accesses) ∧
    ((succeeded (d.runCalls ss)).card ≤ d.cache.capacity →
      ∀ k ∈ succeeded (d.runCalls ss), ∃ before c after e source,
        d.runCalls ss = before ++ c :: after ∧ c.key = k ∧
        c.outcome = .ok ⟨e, c.task.directive.sourceName⟩ ∧ e.source = some source ∧
        d.Gets k source c.accesses ∧
        ∀ c' ∈ before ++ after, c'.key = k →
          c'.accesses = [] ∧ ∀ s, c'.outcome = .ok s → s.included = e) := by
  have hc : d.cache.Coherent d.shelf.library := .of_empty he
  refine ⟨fun b hb hn k hk => ?_, exists_comesTo (.of_empty he) ss, accesses_run d ss, fun hn k hk => ?_⟩
  · have ⟨_, hs, _⟩ := hb.serial ha
    obtain ⟨e, hf, hu⟩ := hs.included_eq hc hk
    obtain ⟨c, _, _, _, rfl⟩ := mem_succeeded_iff.mp hk
    obtain ⟨source, hsource, hl⟩ := Library.accesses_of_fetch (hf c.task.directive rfl)
    refine ⟨e, source, hsource, hu, fun before t log after hh ht => ?_⟩
    rw [hh] at hs hn
    have hlog : log =
        if refusal? d.limit t.ancestors t.directive = none ∧
            t.directive.identity ∉ succeeded (Moment.calls before) then
          (d.shelf.library.fetch t.directive).2
        else [] := hs.accesses_of_starts he hn
    rw [ht, Library.fetch_congr ht] at hlog
    split
    case isTrue hp  => rwa [hlog, if_pos hp]
    case isFalse hp => rw [hlog, if_neg hp]
  · have hr := congrArg Prod.fst (resolveAll_runCalls (d := d) ha)
    obtain ⟨e, hf, ho⟩ := Renderer.fetchedOnce_resolveAll (r := d.renderer {}) hc he
      (by rwa [hr]) (by rwa [hr])
    rw [hr] at ho
    obtain ⟨before, c, after, hb, rfl, hl, ho, hu⟩ := ho
    obtain ⟨source, hs, ha⟩ := Library.accesses_of_fetch (hf c.task.directive rfl)
    refine ⟨before, c, after, e, source, hb, rfl, ho, hs, ?_, hu⟩
    rw [hl]
    exact ha

open rooms in
theorem fetched_once_rooms :
    let steps : List Step := [.render [] {} Shelf.rooms.hall, .check Shelf.rooms.hall]
    (desk.runCalls steps).map (·.accesses.length) = [2, 2, 0, 0] ∧
      ∀ k ∈ succeeded (desk.runCalls steps), ∃ c ∈ desk.runCalls steps, c.key = k ∧
        c.accesses.length = 2 := by
  intro steps
  have hn : (succeeded (desk.runCalls steps)).card ≤ desk.cache.capacity := by decide +kernel
  refine ⟨by decide +kernel, fun k hk => ?_⟩
  obtain ⟨before, c, after, e, source, hc, hk, _, _, ha, _⟩ :=
    (fetched_once (d := desk) rfl (by decide)).right.right.right hn k hk
  refine ⟨c, by simp [hc], hk, ?_⟩
  rcases ha with ha | ⟨_, _, ha⟩ <;> rw [ha] <;> rfl

-- Two tasks that wait for the same content have both asked for it.
theorem not_fetched_once :
    let desk : Desk :=
      { shelf := { files := [("a.org".toList, "leaf\n".toList)] }
        limit := .ofInt 5, cache := { capacity := 50 } }
    let leaf : Directive := { link := { scheme := none, body := "./a.org".toList } }
    let twins : Tree := .whole (.ofText "#+transclude: [[./a.org]]\n#+transclude: [[./a.org]]\n".toList)
    ∃ b, desk.ComesTo [.render [] {} twins] b ∧ b.ready = [] ∧ b.waiting = [] ∧
      succeeded (Moment.calls b.history) = {leaf.identity} ∧
      (Moment.calls b.history).map Call.key = [leaf.identity, leaf.identity] ∧
      (Moment.calls b.history).map (·.accesses.length) = [2, 2] := by
  intro desk leaf twins
  let t : Task := ⟨leaf, []⟩
  let r := desk.renderer {}
  let given := desk.shelf.library.fetch leaf
  let x := Resolution.ofFetch leaf desk.cache given
  let y := Resolution.ofFetch leaf x.cache given
  let first : Call := ⟨t, x.outcome, x.accesses⟩
  let second : Call := ⟨t, y.outcome, y.accesses⟩
  let p : Pending := ⟨t, given⟩
  let asked : List Moment := [.starts t given.2]
  have ht : desk.tasks (.render [] {} twins) = [t, t] := by decide +kernel
  have hb : desk.ComesTo [.render [] {} twins]
      { desk with ready := desk.tasks (.render [] {} twins), waiting := [], history := [] } :=
    ComesTo.nil.asks rfl
  rw [ht] at hb
  have hw : r.Moves Call.inner ⟨[] ++ t :: [t], [], desk.cache, []⟩ ⟨[t], [p], desk.cache, asked⟩ :=
    .waits rfl rfl
  have hw' : r.Moves Call.inner ⟨[] ++ t :: [], [p], desk.cache, asked⟩
      ⟨[], [p, p], desk.cache, asked ++ asked⟩ := .waits rfl rfl
  have hs : r.Moves Call.inner ⟨[], [] ++ p :: [p], desk.cache, asked ++ asked⟩
      ⟨first.inner, [p], x.cache, asked ++ asked ++ [.ends first]⟩ := .stores rfl
  have hs' : r.Moves Call.inner ⟨first.inner, [] ++ p :: [], x.cache, asked ++ asked ++ [.ends first]⟩
      ⟨first.inner ++ second.inner, [], y.cache, asked ++ asked ++ [.ends first] ++ [.ends second]⟩ :=
    .stores rfl
  refine ⟨_, hb.goes (.inl rfl) (.tail (.tail (.tail (.single hw) hw') hs) hs'), ?_⟩
  decide +kernel

end Transclusion.Desk
