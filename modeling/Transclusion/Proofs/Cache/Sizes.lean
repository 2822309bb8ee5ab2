import Transclusion.Proofs.Cache.Runs

namespace Transclusion.Cache

-- All of `s` is kept in `l` in the same order, and `l` has no more to spare than its size allows.
structure Below (s l : Cache) : Prop where
  small : s.WellFormed
  large : l.WellFormed
  sublist : s.entries.Sublist l.entries
  spare : l.length + s.capacity ≤ s.length + l.capacity

variable {s l : Cache} {d : Directive} {k : Directive.Identity} {e : Included}

section Lengths

-- Of the longer list at least as much is left out.
theorem length_filter_add {α : Type} {xs ys : List α} (h : xs.Sublist ys) (p : α → Bool) :
    (ys.filter p).length + xs.length ≤ (xs.filter p).length + ys.length := by
  have hc := h.countP_le (p := fun a => ¬p a)
  have hx := List.length_eq_countP_add_countP p (l := xs)
  have hy := List.length_eq_countP_add_countP p (l := ys)
  rw [←List.countP_eq_length_filter, ←List.countP_eq_length_filter]
  omega

theorem length_put (c : Cache) (d : Directive) (e : Included) :
    (c.put d e).length = ((c.makeRoom d.identity).entries.filter (·.1 != d.identity)).length + 1 :=
  List.length_append

theorem length_put_of_full (hw : s.WellFormed) (hk : d.identity ∉ s.keys) (hf : s.capacity ≤ s.length)
    (hm : (s.makeRoom d.identity).entries = s.entries.tail) (e : Included) :
    (s.put d e).length = s.capacity := by
  have hp := hw.positive
  have hb := hw.bounded
  have ht : d.identity ∉ s.entries.tail.map (·.1) :=
    fun h => hk (((List.tail_sublist _).map _).subset h)
  rw [length_put, hm, filter_of_not_mem ht, List.length_tail]
  rw [length] at hf hb
  omega

theorem length_put_of_mem (hk : d.identity ∈ l.keys) (e : Included) : (l.put d e).length ≤ l.length := by
  rw [length_eq_length_keys, length_eq_length_keys, keys_put, makeRoom_of_mem hk, List.length_append]
  exact length_filter_keys_lt hk

end Lengths

namespace Below

theorem subset_keys (h : s.Below l) (hk : k ∈ s.keys) : k ∈ l.keys :=
  (h.sublist.map _).subset hk

theorem find? (h : s.Below l) (hf : s.find? k = some e) : l.find? k = some e :=
  h.large.find?_of_mem (h.sublist.subset (mem_of_find? hf))

-- The larger cache makes room only where the smaller one does.
theorem makeRoom (h : s.Below l) (k : Directive.Identity) :
    (s.makeRoom k).entries.Sublist (l.makeRoom k).entries := by
  rcases makeRoom_cases l k with ⟨hl, _⟩ | ⟨hl, hk, hfull⟩ <;> rw [hl]
  case inl =>
    refine List.Sublist.trans ?_ h.sublist
    rcases makeRoom_cases s k with ⟨hs, _⟩ | ⟨hs, _⟩ <;> rw [hs]
    · exact List.tail_sublist _
  case inr =>
    have hspare := h.spare
    rcases makeRoom_cases s k with ⟨_, hs | hs⟩ | ⟨hs, _, _⟩
    · exact absurd (h.subset_keys hs) hk
    · omega
    · rw [hs]
      exact h.sublist.tail

theorem put (h : s.Below l) (d : Directive) (e : Included) : (s.put d e).Below (l.put d e) := by
  have hl := h.large.put d e
  refine ⟨h.small.put d e, hl, ((h.makeRoom _).filter _).append_right _, ?_⟩
  have hb := hl.bounded
  have hspare := h.spare
  rw [capacity_put] at hb
  rw [capacity_put, capacity_put]
  rcases makeRoom_cases s d.identity with ⟨hs, hn⟩ | ⟨hs, hk, hf⟩
  case inr =>
    rw [length_put_of_full h.small hk hf hs]
    omega
  case inl =>
    rcases makeRoom_cases l d.identity with ⟨hl, _⟩ | ⟨_, hk, hf⟩
    case inl =>
      have ha := length_filter_add h.sublist (·.1 != d.identity)
      rw [length_put, length_put, hs, hl]
      rw [length, length] at hspare
      omega
    case inr =>
      have hk := hn.resolve_left fun hs => hk (h.subset_keys hs)
      omega

-- What only the larger cache finds moves among what only the larger one keeps.
theorem put_right (h : s.Below l) (hn : d.identity ∉ s.keys) (hk : d.identity ∈ l.keys)
    (e : Included) : s.Below (l.put d e) := by
  refine ⟨h.small, h.large.put d e, ?_, ?_⟩
  · have hs := h.sublist.filter (·.1 != d.identity)
    rw [filter_of_not_mem hn] at hs
    rw [Cache.put, makeRoom_of_mem hk]
    exact hs.trans (List.sublist_append_left ..)
  · rw [capacity_put]
    exact Nat.le_trans (Nat.add_le_add_right (length_put_of_mem hk e) _) h.spare

theorem filter (h : s.Below l) (p : Directive.Identity × Included → Bool) :
    Below { s with entries := s.entries.filter p } { l with entries := l.entries.filter p } where
  small := h.small.filter p
  large := h.large.filter p
  sublist := h.sublist.filter p
  spare := by
    have ha := length_filter_add h.sublist p
    have hspare := h.spare
    simp only [length] at hspare ⊢
    omega

theorem step (h : s.Below l) (r : Request) : (s.step r).Below (l.step r) := by
  cases r
  case put d e => exact h.put d e
  case get d =>
    cases hs : s.find? d.identity
    case some e =>
      rw [step_get_of_some hs, step_get_of_some (h.find? hs)]
      exact h.put d e
    case none =>
      rw [step_get_of_none hs]
      cases hl : l.find? d.identity
      case none => rwa [step_get_of_none hl]
      case some e =>
        rw [step_get_of_some hl]
        exact h.put_right (find?_eq_none_iff.mp hs) (mem_keys_of_find? hl) e
  case invalidate id =>
    rw [step_of_not_used rfl, step_of_not_used rfl]
    exact h.filter _
  case clear =>
    rw [step_of_not_used rfl, step_of_not_used rfl]
    exact h.filter _

theorem after (h : s.Below l) (rs : List Request) : (s.after rs).Below (l.after rs) := by
  induction rs generalizing s l
  case nil          => exact h
  case cons r rs hi => exact hi (h.step r)

end Below

section Sizes

variable {m n : Int}

-- Whatever a cache of one size finds, a larger one finds too.
theorem below_ofSize (hm : 1 ≤ m) (hn : m ≤ n) :
    ∃ s l, ofSize m = .ok s ∧ ofSize n = .ok l ∧ ∀ rs,
      (s.after rs).keys.Sublist (l.after rs).keys ∧
      (∀ k e e', (s.after rs).find? k = some e → (l.after rs).find? k = some e' → e = e') ∧
      ∀ d e, ((s.after rs).get d).1 = some e → ((l.after rs).get d).1 = some e := by
  have ⟨s, hs, hse, hsc, hsw⟩ := exists_ofSize hm
  have ⟨l, hl, hle, hlc, hlw⟩ := exists_ofSize (Int.le_trans hm hn)
  refine ⟨s, l, hs, hl, fun rs => ?_⟩
  have hw : (s.after rs).Below (l.after rs) := by
    refine Below.after ⟨hsw, hlw, ?_, ?_⟩ rs
    · rw [hse, hle]
    · rw [length, length, hse, hle, List.length_nil]
      omega
  refine ⟨hw.sublist.map _, fun k e e' he he' => ?_, fun d e he => ?_⟩
  · exact Option.some.inj ((hw.find? he).symm.trans he')
  · rw [fst_get] at he ⊢
    exact hw.find? he

theorem below_ofSize_threeRooms :
    ∃ s l, ofSize 2 = .ok s ∧ ofSize 3 = .ok l ∧
      (s.after threeRooms).keys.Sublist (l.after threeRooms).keys ∧
      (s.after threeRooms).length = 2 ∧ (l.after threeRooms).length = 3 := by
  have ⟨s, l, hs, hl, h⟩ := below_ofSize (m := 2) (n := 3) (by decide) (by decide)
  refine ⟨s, l, hs, hl, (h threeRooms).left, ?_⟩
  cases Except.ok.inj hs
  cases Except.ok.inj hl
  decide +kernel

end Sizes

end Transclusion.Cache
