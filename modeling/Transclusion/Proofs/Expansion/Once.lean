import Transclusion.Proofs.Cache.Room
import Transclusion.Proofs.Expansion.Interleaving

namespace Transclusion

namespace Call

variable (c : Call)

def key : Directive.Identity :=
  c.task.directive.identity

-- The call accessed nothing, and if it succeeded, it included `e`.
def Reuses (e : Included) : Prop :=
  c.accesses = [] ∧ ∀ s, c.outcome = .ok s → s.included = e

end Call

-- The keys of the calls that succeeded.
def succeeded (calls : List Call) : Finset Directive.Identity :=
  (calls.filterMap fun c => c.outcome.toOption.map fun _ => c.key).toFinset

section Once

variable {calls : List Call} {c : Call} {k : Directive.Identity}

theorem mem_succeeded_iff : k ∈ succeeded calls ↔ ∃ c ∈ calls, ∃ s, c.outcome = .ok s ∧ c.key = k := by
  simp only [succeeded, List.mem_toFinset, List.mem_filterMap, Option.map_eq_some_iff,
    toOption_eq_some_iff]

theorem succeeded_cons_of_ok {s : Success} (h : c.outcome = .ok s) :
    succeeded (c :: calls) = insert c.key (succeeded calls) := by
  simp [succeeded, h, Except.toOption]

theorem succeeded_cons_of_error {f : Failure} (h : c.outcome = .error f) :
    succeeded (c :: calls) = succeeded calls := by
  simp [succeeded, h, Except.toOption]

-- Another call was it, if the first has not succeeded with the key.
theorem mem_succeeded_of_cons (h : k ∈ succeeded (c :: calls))
    (hc : ¬((∃ s, c.outcome = .ok s) ∧ k = c.key)) : k ∈ succeeded calls := by
  obtain ⟨c', hm, s, hs, hk⟩ := mem_succeeded_iff.mp h
  rcases List.mem_cons.mp hm with rfl | hm
  · exact absurd ⟨⟨s, hs⟩, hk.symm⟩ hc
  · exact mem_succeeded_iff.mpr ⟨c', hm, s, hs, hk⟩

end Once

namespace Resolves

variable {lib : Library} {limit : DepthLimit} {ancestors : List Text} {d : Directive} {cache : Cache}
  {x : Resolution} {e : Included} {s : Success}

-- What the library has is only failed to get by a refusal, and then nothing is looked up.
theorem accesses_eq_nil (h : Resolves lib limit ancestors d cache x)
    (he : Cache.Fits lib d.identity e) (hx : ¬∃ s, x.outcome = .ok s) : x.accesses = [] := by
  cases h
  case refused | hit => rfl
  case fetched => exact absurd ⟨_, rfl⟩ hx
  case failed hf =>
    have hd := he d rfl
    rw [hf] at hd
    cases hd

-- What is new to the cache comes from the library.
theorem of_not_mem_keys (h : Resolves lib limit ancestors d cache x)
    (he : Cache.Fits lib d.identity e) (hk : d.identity ∉ cache.keys) (hx : x.outcome = .ok s) :
    x.outcome = .ok ⟨e, d.sourceName⟩ ∧ x.accesses = (lib.fetch d).2 := by
  cases h
  case refused | failed => cases hx
  case hit hf   => exact absurd (Cache.mem_keys_of_find? hf) hk
  case fetched hf =>
    have hd := he d rfl
    rw [hf] at hd ⊢
    cases hd
    exact ⟨rfl, rfl⟩

end Resolves

namespace Renderer

variable {r : Renderer} {t : Task} {ts tasks : List Task} {cache : Cache} {k : Directive.Identity}
  {e : Included}

-- A success leaves its key in the cache, and no key has to leave for it.
theorem hasRoom_step (hr : cache.HasRoom (succeeded (r.resolveAll (t :: ts) cache).1)) :
    let x := resolve r.library r.limit t.ancestors t.directive cache
    x.cache.HasRoom (succeeded (r.resolveAll ts x.cache).1) ∧
      ∀ k, k ∈ x.cache.keys ↔ k ∈ cache.keys ∨ (∃ s, x.outcome = .ok s) ∧ k = t.directive.identity := by
  have hs := resolves r.library r.limit t.ancestors t.directive cache
  rw [resolveAll] at hr
  generalize resolve r.library r.limit t.ancestors t.directive cache = x at hs hr ⊢
  have hm (e : Included) (k : Directive.Identity) :
      k ∈ (cache.touch t.directive.identity e).keys ↔ k ∈ cache.keys ∨ k = t.directive.identity := by
    rw [←List.mem_toFinset, Cache.toFinset_keys_touch, Finset.mem_insert, List.mem_toFinset, or_comm]
  cases hs
  case refused =>
    rw [succeeded_cons_of_error rfl] at hr
    exact ⟨hr, by simp⟩
  case failed =>
    rw [succeeded_cons_of_error rfl] at hr
    exact ⟨hr, by simp⟩
  case hit e _ _ =>
    rw [succeeded_cons_of_ok rfl] at hr
    exact ⟨hr.touch e, fun k => by simp [hm]⟩
  case fetched e _ _ hc _ =>
    rw [succeeded_cons_of_ok rfl] at hr
    have hp := hr.put_eq_touch e (Cache.find?_eq_none_iff.mp hc)
    simp only [hp] at hr ⊢
    exact ⟨hr.touch e, fun k => by simp [hm]⟩

-- A key that was used once is never asked for again.
theorem reuses_of_mem_keys (hc : cache.Coherent r.library) (he : Cache.Fits r.library k e)
    (hr : cache.HasRoom (succeeded (r.resolveAll tasks cache).1)) (hk : k ∈ cache.keys) :
    ∀ c ∈ (r.resolveAll tasks cache).1, c.key = k → c.Reuses e := by
  induction tasks generalizing cache
  case nil => simp [resolveAll]
  case cons t ts hi =>
    obtain ⟨hx, hm⟩ := hasRoom_step hr
    refine List.forall_mem_cons.mpr ⟨?_, hi hc.resolve hx ((hm k).mpr (.inl hk))⟩
    rintro rfl
    have hs := resolves r.library r.limit t.ancestors t.directive cache
    generalize resolve r.library r.limit t.ancestors t.directive cache = x at hs ⊢
    cases hs
    case refused => exact ⟨rfl, by simp⟩
    case failed hn _  => exact absurd hk (Cache.find?_eq_none_iff.mp hn)
    case fetched hn _ => exact absurd hk (Cache.find?_eq_none_iff.mp hn)
    case hit e' _ hf =>
      have hd := hc.find? hf t.directive rfl
      have he := Except.ok.inj (hd.symm.trans (he t.directive rfl))
      refine ⟨rfl, ?_⟩
      rintro _ ⟨⟩
      exact he

-- One call has the library's answer, and all others with the key that succeed have it from there.
def FetchedOnce (r : Renderer) (k : Directive.Identity) (e : Included) (calls : List Call) : Prop :=
  ∃ before c after, calls = before ++ c :: after ∧ c.key = k ∧
    c.accesses = (r.library.fetch c.task.directive).2 ∧
      c.outcome = .ok ⟨e, c.task.directive.sourceName⟩ ∧
        ∀ c' ∈ before ++ after, c'.key = k → c'.Reuses e

theorem FetchedOnce.cons {calls : List Call} {c : Call} (h : r.FetchedOnce k e calls)
    (hc : c.key = k → c.Reuses e) : r.FetchedOnce k e (c :: calls) := by
  obtain ⟨before, c', after, rfl, hk, ha, ho, hu⟩ := h
  exact ⟨c :: before, c', after, rfl, hk, ha, ho, List.forall_mem_cons.mpr ⟨hc, hu⟩⟩

theorem fetchedOnce_of_not_mem_keys (hc : cache.Coherent r.library) (he : Cache.Fits r.library k e)
    (hr : cache.HasRoom (succeeded (r.resolveAll tasks cache).1)) (hk : k ∉ cache.keys)
    (hs : k ∈ succeeded (r.resolveAll tasks cache).1) :
    r.FetchedOnce k e (r.resolveAll tasks cache).1 := by
  induction tasks generalizing cache
  case nil => simp [resolveAll, succeeded] at hs
  case cons t ts hi =>
    obtain ⟨hx, hm⟩ := hasRoom_step hr
    have hv := resolves r.library r.limit t.ancestors t.directive cache
    have hcx : (resolve r.library r.limit t.ancestors t.directive cache).cache.Coherent r.library :=
      hc.resolve
    rw [resolveAll] at hs ⊢
    generalize resolve r.library r.limit t.ancestors t.directive cache = x at hx hm hv hcx hs ⊢
    by_cases ho : (∃ s, x.outcome = .ok s) ∧ k = t.directive.identity
    case pos =>
      have hu := reuses_of_mem_keys hcx he hx ((hm k).mpr (.inr ho))
      obtain ⟨⟨s, ho⟩, rfl⟩ := ho
      obtain ⟨ho, ha⟩ := hv.of_not_mem_keys he hk ho
      exact ⟨[], _, _, rfl, rfl, ha, ho, hu⟩
    case neg =>
      have hkx : k ∉ x.cache.keys := fun h => ((hm k).mp h).elim hk ho
      refine (hi hcx hx hkx (mem_succeeded_of_cons hs ho)).cons ?_
      rintro rfl
      have hn : ¬∃ s, x.outcome = .ok s := fun h => ho ⟨h, rfl⟩
      exact ⟨hv.accesses_eq_nil he hn, fun s hs => absurd ⟨s, hs⟩ hn⟩

-- If there is space for all that succeeds, it is fetched once.
theorem fetchedOnce_resolveAll (hc : cache.Coherent r.library) (hn : cache.entries = [])
    (hr : (succeeded (r.resolveAll tasks cache).1).card ≤ cache.capacity)
    (hs : k ∈ succeeded (r.resolveAll tasks cache).1) :
    ∃ e, Cache.Fits r.library k e ∧ r.FetchedOnce k e (r.resolveAll tasks cache).1 := by
  obtain ⟨c, hm, s, ho, rfl⟩ := mem_succeeded_iff.mp hs
  have ⟨_, he⟩ := (madeWith_of_mem_resolveAll gives_fits hc c hm).of_ok gives_fits ho
  have hk : c.key ∉ cache.keys := Cache.keys_of_empty hn ▸ List.not_mem_nil
  exact ⟨s.included, he, fetchedOnce_of_not_mem_keys hc he (.of_empty hn hr) hk hs⟩

section Turns

variable {history : List Moment} {now : Cache}

theorem succeeded_bare (calls : List Call) : succeeded (calls.map Call.bare) = succeeded calls :=
  congrArg List.toFinset (List.filterMap_map ..)

-- What is in the cache is what was there and what succeeded.
theorem mem_keys_resolveAll (hr : cache.HasRoom (succeeded (r.resolveAll tasks cache).1)) :
    k ∈ (r.resolveAll tasks cache).2.keys ↔
      k ∈ cache.keys ∨ k ∈ succeeded (r.resolveAll tasks cache).1 := by
  induction tasks generalizing cache
  case nil => simp [resolveAll, succeeded]
  case cons t ts hi =>
    obtain ⟨hx, hm⟩ := hasRoom_step hr
    rw [resolveAll, hi hx, hm, or_assoc]
    refine or_congr_right ?_
    cases ho : (resolve r.library r.limit t.ancestors t.directive cache).outcome
    case error => simp [succeeded_cons_of_error]
    case ok    => simp [succeeded_cons_of_ok, Call.key]

theorem Serial.succeeded_eq (h : r.Serial cache history now) :
    succeeded (r.resolveAll ((Moment.calls history).map (·.task)) cache).1 =
      succeeded (Moment.calls history) := by
  rw [←succeeded_bare, h.calls, succeeded_bare]

-- As long as a key has not succeeded, it is asked for by each task that is not refused, and never again.
theorem Serial.accesses_of_starts {before after : List Moment} {log : List Access}
    (h : r.Serial cache (before ++ .starts t log :: after) now) (hn : cache.entries = [])
    (hr : (succeeded (Moment.calls (before ++ .starts t log :: after))).card ≤ cache.capacity) :
    log =
      if refusal? r.limit t.ancestors t.directive = none ∧
          t.directive.identity ∉ succeeded (Moment.calls before) then
        (r.library.fetch t.directive).2
      else [] := by
  have hb := h.until
  have hr : cache.HasRoom (succeeded (Moment.calls before)) := by
    refine .of_empty hn (.trans (Finset.card_le_card fun k hk => ?_) hr)
    obtain ⟨c, hm, hs⟩ := mem_succeeded_iff.mp hk
    exact mem_succeeded_iff.mpr ⟨c, by simp [hm], hs⟩
  have hk : t.directive.identity ∈ (r.cacheAfter cache before).keys ↔
      t.directive.identity ∈ succeeded (Moment.calls before) := by
    rw [←hb.succeeded_eq] at hr ⊢
    have hm := mem_keys_resolveAll (k := t.directive.identity) hr
    rwa [Cache.keys_of_empty hn, or_iff_right List.not_mem_nil] at hm
  simp only [h.starts before t log after rfl, ←hk]
  have hv := resolves r.library r.limit t.ancestors t.directive (r.cacheAfter cache before)
  generalize resolve r.library r.limit t.ancestors t.directive (r.cacheAfter cache before) = x at hv ⊢
  cases hv
  case refused hr => simp [hr]
  case hit hc     => simp [Cache.mem_keys_of_find? hc]
  case failed hr hc hf  => simp [hr, Cache.find?_eq_none_iff.mp hc, hf]
  case fetched hr hc hf => simp [hr, Cache.find?_eq_none_iff.mp hc, hf]

-- All that succeeds with a key includes the same.
theorem Serial.included_eq (h : r.Serial cache history now) (hc : cache.Coherent r.library)
    (hk : k ∈ succeeded (Moment.calls history)) :
    ∃ e, Cache.Fits r.library k e ∧
      ∀ c ∈ Moment.calls history, c.key = k → ∀ s, c.outcome = .ok s → s.included = e := by
  obtain ⟨c, hm, s, ho, rfl⟩ := mem_succeeded_iff.mp hk
  have hw := h.madeWith gives_fits hc
  have he := ((hw c hm).of_ok gives_fits ho).right
  refine ⟨s.included, he, fun c' hm' hk' s' ho' => ?_⟩
  have he' := ((hw c' hm').of_ok gives_fits ho').right c.task.directive hk'.symm
  exact Except.ok.inj (he'.symm.trans (he _ rfl))

end Turns

end Renderer

end Transclusion
