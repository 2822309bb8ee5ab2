import Mathlib.Data.Finset.Dedup
import Mathlib.Data.Finset.Card
import Mathlib.Data.List.Dedup
import Transclusion.Proofs.Cache.Runs

namespace Transclusion.Cache

-- The last request that puts something under `k` puts `e`.
def LatestPut (k : Directive.Identity) (e : Included) (rs : List Request) : Prop :=
  ∃ pre d post, rs = pre ++ .put d e :: post ∧ d.identity = k ∧ ∀ r ∈ post, ¬r.Puts k

-- After `before`, the request `r` uses `k`, and none of those since does.
structure LastUse (c : Cache) (k : Directive.Identity) (before : List Request) (r : Request)
    (since : List Request) : Prop where
  uses : (c.after before).used? r = some k
  last : k ∉ ((c.after before).step r).uses since

variable {c : Cache} {d : Directive} {k : Directive.Identity} {e : Included} {r : Request}
variable {rs : List Request} {us : List Directive.Identity}

section Order

-- Of equal ones, the last stays.
theorem dedup_concat (us : List Directive.Identity) (k : Directive.Identity) :
    (us ++ [k]).dedup = us.dedup.filter (· != k) ++ [k] := by
  induction us
  case nil => rfl
  case cons u us hi =>
    rw [List.cons_append]
    by_cases hu : u ∈ us
    case pos => rw [List.dedup_cons_of_mem hu, List.dedup_cons_of_mem (List.mem_append_left _ hu), hi]
    case neg =>
      rw [List.dedup_cons_of_notMem hu]
      by_cases hk : u = k
      case pos =>
        subst hk
        rw [List.dedup_cons_of_mem (List.mem_append_right _ List.mem_cons_self), hi]
        simp
      case neg =>
        rw [List.dedup_cons_of_notMem (by simp [hu, hk]), hi]
        simp [hk]

theorem keys_step_sublist (h : c.keys.Sublist us.dedup) (r : Request) :
    (c.step r).keys.Sublist (us ++ (c.used? r).toList).dedup := by
  rcases step_cases c r with ⟨d, e, hu, hs, _⟩ | ⟨hu, hs⟩ <;> rw [hu, hs]
  case inl =>
    rw [keys_put, Option.toList_some, dedup_concat]
    exact (((keys_makeRoom_sublist c _).trans h).filter _).append_right _
  case inr =>
    rw [Option.toList_none, List.append_nil]
    exact (List.filter_sublist.map _).trans h

theorem keys_after_sublist (h : c.keys.Sublist us.dedup) (rs : List Request) :
    (c.after rs).keys.Sublist (us ++ c.uses rs).dedup := by
  induction rs generalizing c us
  case nil          => rwa [uses, List.append_nil]
  case cons r rs hi => simpa [uses, after_cons] using hi (keys_step_sublist h r)

end Order

section Latest

theorem mem_put {x : Directive.Identity × Included} (h : x ∈ (c.put d e).entries) :
    x = (d.identity, e) ∨ x ∈ c.entries ∧ x.1 ≠ d.identity := by
  simp only [put, touch, without, List.mem_append, List.mem_filter, List.mem_singleton, bne_iff_ne] at h
  exact h.symm.imp_right (And.imp_left mem_makeRoom)

theorem mem_step (h : (k, e) ∈ (c.step r).entries) :
    (∃ d, r = .put d e ∧ d.identity = k) ∨ (k, e) ∈ c.entries ∧ ¬r.Puts k := by
  rcases step_cases c r with ⟨d, e', _, hs, hr⟩ | ⟨hu, hs⟩ <;> rw [hs] at h
  case inl =>
    rcases mem_put h with he | ⟨hm, hk⟩
    case inl =>
      cases he
      rcases hr with rfl | ⟨rfl, hf⟩
      · exact .inl ⟨d, rfl, rfl⟩
      · exact .inr ⟨mem_of_find? hf, not_false⟩
    case inr =>
      rcases hr with rfl | ⟨rfl, _⟩
      · exact .inr ⟨hm, Ne.symm hk⟩
      · exact .inr ⟨hm, not_false⟩
  case inr =>
    refine .inr ⟨(List.mem_filter.mp h).left, fun hp => ?_⟩
    cases r
    case put => cases hu
    all_goals cases hp

theorem mem_after (h : (k, e) ∈ (c.after rs).entries) :
    (k, e) ∈ c.entries ∧ (∀ r ∈ rs, ¬r.Puts k) ∨ LatestPut k e rs := by
  induction rs generalizing c
  case nil => exact .inl ⟨h, by simp⟩
  case cons r rs hi =>
    rcases hi h with ⟨hm, hn⟩ | ⟨pre, d, post, rfl, hd, hn⟩
    case inr => exact .inr ⟨r :: pre, d, post, rfl, hd, hn⟩
    case inl =>
      rcases mem_step hm with ⟨d, rfl, hd⟩ | ⟨hm, hr⟩
      · exact .inr ⟨[], d, rs, rfl, hd, hn⟩
      · exact .inl ⟨hm, List.forall_mem_cons.mpr ⟨hr, hn⟩⟩

end Latest

section Uses

theorem mem_keys_step (h : k ∈ (c.step r).keys) : k ∈ c.keys ∨ c.used? r = some k := by
  rcases step_cases c r with ⟨d, e, hu, hs, _⟩ | ⟨_, hs⟩ <;> rw [hs] at h
  case inl =>
    rw [keys_put, List.mem_append, List.mem_filter, List.mem_singleton] at h
    rcases h with ⟨h, _⟩ | rfl
    · exact .inl ((keys_makeRoom_sublist c _).subset h)
    · exact .inr hu
  case inr => exact .inl ((List.filter_sublist.map _).subset h)

-- What is gone stays away until it is used.
theorem not_mem_keys_after (h : k ∉ c.keys) (hu : k ∉ c.uses rs) : k ∉ (c.after rs).keys := by
  induction rs generalizing c
  case nil => exact h
  case cons r rs hi =>
    rw [uses, List.mem_append, not_or, Option.mem_toList] at hu
    exact hi (fun hm => (mem_keys_step hm).elim h hu.left) hu.right

theorem exists_lastUse (h : k ∈ c.uses rs) :
    ∃ before r since, rs = before ++ r :: since ∧ c.LastUse k before r since := by
  induction rs generalizing c
  case nil => cases h
  case cons r rs hi =>
    by_cases hm : k ∈ (c.step r).uses rs
    case pos =>
      have ⟨before, q, since, he, hl⟩ := hi hm
      exact ⟨r :: before, q, since, by rw [he]; rfl, hl.uses, hl.last⟩
    case neg =>
      rw [uses, List.mem_append, Option.mem_toList] at h
      exact ⟨[], r, rs, rfl, h.resolve_right hm, hm⟩

-- The key that is used goes to the end.
theorem entries_step_of_used (h : c.used? r = some k) :
    ∃ front e, (c.step r).entries = front ++ [(k, e)] := by
  rcases step_cases c r with ⟨d, e, hu, hs, _⟩ | ⟨hu, _⟩
  case inl =>
    cases hu.symm.trans h
    exact ⟨_, e, by rw [hs]; rfl⟩
  case inr => cases hu.symm.trans h

end Uses

section Position

theorem card_le_card_of_subset {vs : List Directive.Identity} (h : us ⊆ vs) :
    us.toFinset.card ≤ vs.toFinset.card :=
  Finset.card_le_card fun _ hk => List.mem_toFinset.mpr (h (List.mem_toFinset.mp hk))

theorem append_subset_append {vs : List Directive.Identity} (h : us ⊆ vs)
    (ws : List Directive.Identity) : us ++ ws ⊆ vs ++ ws :=
  List.append_subset.mpr ⟨List.subset_append_of_subset_left ws h, List.subset_append_right vs ws⟩

theorem mem_filter_concat {j : Directive.Identity} : j ∈ us.filter (· != k) ++ [k] ↔ j ∈ us ++ [k] := by
  by_cases hj : j = k <;> simp [hj]

variable {front back : List (Directive.Identity × Included)}

theorem WellFormed.nodup_behind (hw : c.WellFormed) (h : c.entries = front ++ (k, e) :: back) :
    k ∉ back.map (·.1) ∧ (back.map (·.1)).Nodup := by
  have hn := hw.nodup
  rw [keys, h, List.map_append, List.map_cons] at hn
  exact List.nodup_cons.mp (List.nodup_append.mp hn).right.left

theorem makeRoom_entry (j : Directive.Identity) (h : c.entries = front ++ (k, e) :: back) :
    (∃ front', (c.makeRoom j).entries = front' ++ (k, e) :: back) ∨
    ((c.makeRoom j).entries = back ∧ j ∉ c.keys ∧ c.capacity ≤ back.length + 1) := by
  rcases makeRoom_cases c j with ⟨hm, _⟩ | ⟨hm, hj, hl⟩ <;> rw [hm, h]
  case inl => exact .inl ⟨front, rfl⟩
  case inr =>
    cases front
    case cons x front => exact .inl ⟨front, rfl⟩
    case nil          => exact .inr ⟨rfl, hj, by rwa [length, h] at hl⟩

-- Another key that is put goes behind `k`, or `k` makes room for it.
theorem put_entry (hw : c.WellFormed) (h : c.entries = front ++ (k, e) :: back) (hk : d.identity ≠ k)
    (e' : Included) :
    (∃ front' back', (c.put d e').entries = front' ++ (k, e) :: back' ∧
      back'.map (·.1) = (back.map (·.1)).filter (· != d.identity) ++ [d.identity]) ∨
    (k ∉ (c.put d e').keys ∧ d.identity ∉ back.map (·.1) ∧ c.capacity ≤ back.length + 1) := by
  rcases makeRoom_entry d.identity h with ⟨front', hm⟩ | ⟨hm, hj, hl⟩
  case inl =>
    refine .inl ⟨front'.filter (·.1 != d.identity),
      back.filter (·.1 != d.identity) ++ [(d.identity, e')], ?_, ?_⟩
    · simp [put, touch, without, hm, Ne.symm hk]
    · simp [List.filter_map, Function.comp_def]
  case inr =>
    have hb : d.identity ∉ back.map (·.1) := fun hb => hj <| by
      rw [keys, h, List.map_append]
      exact List.mem_append_right _ (List.mem_cons_of_mem _ hb)
    refine .inr ⟨fun hm' => ?_, hb, hl⟩
    rw [keys_put, keys, hm, List.mem_append, List.mem_filter, List.mem_singleton] at hm'
    exact hm'.elim (fun hf => (hw.nodup_behind h).left hf.left) (Ne.symm hk)

-- What a request that does not use `k` leaves of it.
theorem step_entry (hw : c.WellFormed) (h : c.entries = front ++ (k, e) :: back)
    (hk : c.used? r ≠ some k) :
    (∃ front' back', (c.step r).entries = front' ++ (k, e) :: back' ∧
      back'.map (·.1) ⊆ back.map (·.1) ++ (c.used? r).toList ∧
      ((∀ e, r.drops e = false) → back.map (·.1) ++ (c.used? r).toList ⊆ back'.map (·.1))) ∨
    (k ∉ (c.step r).keys ∧ (r.drops e ∨
      ∃ j, c.used? r = some j ∧ j ∉ back.map (·.1) ∧ c.capacity ≤ back.length + 1)) := by
  rcases step_cases c r with ⟨d, e', hu, hs, _⟩ | ⟨hu, hs⟩ <;> rw [hu, hs]
  case inl =>
    rcases put_entry hw h (fun hd => hk (hu.trans (congrArg some hd))) e' with
      ⟨front', back', hp, hb⟩ | ⟨hn, hj, hl⟩
    case inl =>
      refine .inl ⟨front', back', hp, ?_⟩
      rw [hb]
      exact ⟨fun _ => mem_filter_concat.mp, fun _ _ => mem_filter_concat.mpr⟩
    case inr => exact .inr ⟨hn, .inr ⟨_, rfl, hj, hl⟩⟩
  case inr =>
    cases hd : r.drops e
    case true =>
      refine .inr ⟨fun hk => ?_, .inl rfl⟩
      obtain ⟨⟨_, e'⟩, hx, rfl⟩ := List.mem_map.mp hk
      have ⟨hm, hn⟩ := List.mem_filter.mp hx
      have he := hw.eq_of_mem hm (h ▸ List.mem_append_right _ List.mem_cons_self)
      simp [he, hd] at hn
    case false =>
      refine .inl ⟨front.filter fun x => !r.drops x.2, back.filter fun x => !r.drops x.2, ?_, ?_, ?_⟩
      · simp [h, hd]
      · simpa using (List.filter_sublist.map _).subset
      · intro hn
        simp [hn]

-- What many such requests leave of it. All that comes to stand behind `k` was used in the meantime.
theorem after_entry (hw : c.WellFormed) (h : c.entries = front ++ (k, e) :: back) (hk : k ∉ c.uses rs) :
    (∃ front' back', (c.after rs).entries = front' ++ (k, e) :: back' ∧
      ((∀ r ∈ rs, ∀ e, r.drops e = false) → back.map (·.1) ++ c.uses rs ⊆ back'.map (·.1))) ∨
    (k ∉ (c.after rs).keys ∧ ((∃ r ∈ rs, r.drops e) ∨
      c.capacity ≤ (back.map (·.1) ++ c.uses rs).toFinset.card)) := by
  induction rs generalizing c front back
  case nil => exact .inl ⟨front, back, h, by simp [uses]⟩
  case cons r rs hi =>
    rw [uses, List.mem_append, not_or, Option.mem_toList] at hk
    rw [uses, after_cons, ←List.append_assoc]
    rcases step_entry hw h hk.left with ⟨front', back', hs, hb, hd⟩ | ⟨hn, hd⟩
    case inl =>
      rcases hi (hw.step r) hs hk.right with ⟨front'', back'', ha, hd'⟩ | ⟨hn, hd'⟩
      case inl =>
        refine .inl ⟨front'', back'', ha, fun hr => ?_⟩
        obtain ⟨hr, hrs⟩ := List.forall_mem_cons.mp hr
        exact List.Subset.trans (append_subset_append (hd hr) _) (hd' hrs)
      case inr =>
        refine .inr ⟨hn, hd'.imp ?_ fun hc => ?_⟩
        · rintro ⟨q, hq, hd⟩
          exact ⟨q, List.mem_cons_of_mem r hq, hd⟩
        · rw [capacity_step] at hc
          exact Nat.le_trans hc (card_le_card_of_subset (append_subset_append hb _))
    case inr =>
      refine .inr ⟨not_mem_keys_after hn hk.right, hd.imp (⟨r, List.mem_cons_self, ·⟩) ?_⟩
      rintro ⟨j, hu, hj, hl⟩
      have hn : (j :: back.map (·.1)).Nodup := List.nodup_cons.mpr ⟨hj, (hw.nodup_behind h).right⟩
      have hs : j :: back.map (·.1) ⊆ back.map (·.1) ++ (c.used? r).toList ++ (c.step r).uses rs := by
        intro i
        simp only [hu, List.mem_cons, List.mem_append, Option.mem_toList, Option.some.injEq]
        grind
      calc c.capacity
        _ ≤ (j :: back.map (·.1)).length := by simpa using hl
        _ = (j :: back.map (·.1)).toFinset.card := (List.toFinset_card_of_nodup hn).symm
        _ ≤ _ := card_le_card_of_subset hs

end Position

-- What is kept after the requests `rs`, when `n` entries fit.
structure ExactLru (c : Cache) (n : Int) (rs : List Request) : Prop where
  nodup : (c.after rs).keys.Nodup
  bounded : (c.after rs).length ≤ n
  -- `dedup` leaves the last of equal keys, so each key counts at its last use.
  ordered : (c.after rs).keys.Sublist (c.uses rs).dedup
  latest : ∀ k e, (c.after rs).find? k = some e → LatestPut k e rs
  used : ∀ k ∈ c.uses rs, ∃ before r since, rs = before ++ r :: since ∧ c.LastUse k before r since
  crowded : ∀ pre d e post, rs = pre ++ .put d e :: post →
    (∀ q ∈ post, ¬q.Puts d.identity ∧ q.drops e = false) → (c.after rs).find? d.identity = none →
      ∀ before r since, rs = before ++ r :: since → c.LastUse d.identity before r since →
        n ≤ (((c.after before).step r).uses since).toFinset.card
  evicted : ∀ k before r since, rs = before ++ r :: since → c.LastUse k before r since →
    (∀ q ∈ since, ∀ e, q.drops e = false) →
      n ≤ (((c.after before).step r).uses since).toFinset.card → (c.after rs).find? k = none

section Exactness

variable {n : Int}

theorem after_split (c : Cache) (before : List Request) (r : Request) (since : List Request) :
    c.after (before ++ r :: since) = ((c.after before).step r).after since := by
  rw [after_append, after_cons]

theorem append_cons_cases {before pre since post : List Request} {r q : Request}
    (h : pre ++ q :: post = before ++ r :: since) :
    (∃ mid, post = mid ++ since ∧ before ++ [r] = pre ++ q :: mid) ∨
      ∃ mid, since = mid ++ q :: post := by
  rcases List.append_eq_append_iff.mp h with ⟨a, rfl, ha⟩ | ⟨a, rfl, ha⟩ <;> cases a
  case inl.nil =>
    cases ha
    exact .inl ⟨[], rfl, by simp⟩
  case inl.cons x a =>
    cases ha
    exact .inl ⟨a ++ [r], by simp, by simp⟩
  case inr.nil =>
    cases ha
    exact .inl ⟨[], rfl, by simp⟩
  case inr.cons x a =>
    cases ha
    exact .inr ⟨a, rfl⟩

theorem mem_uses_of_puts {pre post : List Request} : d.identity ∈ c.uses (pre ++ .put d e :: post) := by
  simp [uses_append, uses, used?]

-- The entry of the latest put is the one that goes to the end at each use that follows.
theorem entries_lastUse {pre post before since : List Request} {e : Included}
    (he : pre ++ .put d e :: post = before ++ r :: since) (hp : ∀ q ∈ post, ¬q.Puts d.identity)
    (hl : c.LastUse d.identity before r since) :
    (∃ front, ((c.after before).step r).entries = front ++ [(d.identity, e)]) ∧ ∀ q ∈ since, q ∈ post := by
  obtain ⟨mid, rfl, hm⟩ | ⟨mid, rfl⟩ := append_cons_cases he
  case inr => exact absurd mem_uses_of_puts hl.last
  case inl =>
    have ⟨front, e', hs⟩ := entries_step_of_used hl.uses
    have ha : (c.after before).step r = ((c.after pre).put d e).after mid := by
      have ha := congrArg c.after hm
      rwa [after_split, after_split] at ha
    have hx : (d.identity, e') ∈ (((c.after pre).put d e).after mid).entries := by
      rw [←ha, hs]
      simp
    refine ⟨⟨front, ?_⟩, fun q hq => List.mem_append_right _ hq⟩
    rcases mem_after hx with ⟨hx, _⟩ | ⟨_, d', _, rfl, hd, _⟩
    case inl =>
      rcases mem_put hx with he | ⟨_, hn⟩
      · cases he; exact hs
      · exact absurd rfl hn
    case inr => exact absurd hd (hp (.put d' e') (by simp))

theorem mem_keys_of_entries {front back : List (Directive.Identity × Included)}
    (h : c.entries = front ++ (k, e) :: back) : k ∈ c.keys := by
  simp [keys, h]

theorem WellFormed.crowded {pre post before since : List Request} {e : Included} (hw : c.WellFormed)
    (he : pre ++ .put d e :: post = before ++ r :: since)
    (hp : ∀ q ∈ post, ¬q.Puts d.identity ∧ q.drops e = false) (hl : c.LastUse d.identity before r since)
    (hn : d.identity ∉ (c.after (before ++ r :: since)).keys) :
    c.capacity ≤ (((c.after before).step r).uses since).toFinset.card := by
  have ⟨⟨front, hs⟩, hsub⟩ := entries_lastUse he (fun q hq => (hp q hq).left) hl
  rw [after_split] at hn
  rcases after_entry ((hw.after before).step r) hs hl.last with ⟨_, _, ha, _⟩ | ⟨_, ⟨q, hq, hd⟩ | hc⟩
  · exact absurd (mem_keys_of_entries ha) hn
  · cases hd.symm.trans (hp q (hsub q hq)).right
  · rwa [capacity_step, capacity_after] at hc

theorem WellFormed.evicted {before since : List Request} (hw : c.WellFormed)
    (hl : c.LastUse k before r since) (hd : ∀ q ∈ since, ∀ e, q.drops e = false)
    (hn : c.capacity ≤ (((c.after before).step r).uses since).toFinset.card) :
    k ∉ (c.after (before ++ r :: since)).keys := by
  have ⟨front, e, hs⟩ := entries_step_of_used hl.uses
  have hw := (hw.after before).step r
  rw [after_split]
  rcases after_entry hw hs hl.last with ⟨front', back', ha, hb⟩ | ⟨hk, _⟩
  case inr => exact hk
  case inl =>
    -- All that was used since stands behind the key, and there is no room for so many.
    have hle : (((c.after before).step r).uses since).toFinset.card ≤ back'.length := calc
      _ ≤ (back'.map (·.1)).toFinset.card := card_le_card_of_subset (hb hd)
      _ ≤ (back'.map (·.1)).length := List.toFinset_card_le _
      _ = back'.length := List.length_map _
    have hlt := (hw.after since).bounded
    rw [length, ha, List.length_append, List.length_cons, capacity_after, capacity_step, capacity_after] at hlt
    omega

-- A cache of any size keeps exactly what was used most recently.
theorem exactLru_ofSize (hn : 1 ≤ n) : ∃ c, ofSize n = .ok c ∧ ∀ rs, c.ExactLru n rs := by
  have ⟨c, hc, he, hcap, hw⟩ := exists_ofSize hn
  have hk : c.keys = [] := keys_of_empty he
  refine ⟨c, hc, fun rs => ?_⟩
  constructor
  case nodup => exact (hw.after rs).nodup
  case bounded =>
    rw [←hcap, ←capacity_after c rs]
    exact_mod_cast (hw.after rs).bounded
  case ordered =>
    have hs : c.keys.Sublist ([] : List Directive.Identity).dedup := by simp [hk]
    simpa using keys_after_sublist hs rs
  case latest =>
    intro k e hf
    rcases mem_after (mem_of_find? hf) with ⟨hm, _⟩ | hl
    · simp [he] at hm
    · exact hl
  case used => exact fun k hk => exists_lastUse hk
  case crowded =>
    rintro pre d e post rfl hp hf before r since hs hl
    rw [←hcap]
    exact_mod_cast hw.crowded hs hp hl (hs ▸ find?_eq_none_iff.mp hf)
  case evicted =>
    rintro k before r since rfl hl hd hc
    exact find?_eq_none_iff.mpr (hw.evicted hl hd (by rw [←hcap] at hc; exact_mod_cast hc))

theorem exactLru_ofSize_threeRooms :
    ∃ c, ofSize 2 = .ok c ∧ c.ExactLru 2 threeRooms ∧
      (c.after threeRooms).keys.map (·.link.body) = ["hall.org".toList, "cellar.org".toList] := by
  have ⟨c, hc, h⟩ := exactLru_ofSize (n := 2) (by decide)
  refine ⟨c, hc, h threeRooms, ?_⟩
  cases Except.ok.inj hc
  decide +kernel

end Exactness

end Transclusion.Cache
