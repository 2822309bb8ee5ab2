import Mathlib.Data.List.Nodup
import Transclusion.Proofs.Cache.Entries

namespace Transclusion.Cache

inductive Request
  | get (d : Directive)
  | put (d : Directive) (e : Included)
  | invalidate (sourceId : Text)
  | clear

-- Whether the request removes what is kept as `e`.
def Request.drops : Request → Included → Bool
  | invalidate id, e => e.sourceId == id
  | clear, _ => true
  | _, _ => false

def Request.Puts (k : Directive.Identity) : Request → Prop
  | put d _ => d.identity = k
  | _ => False

def step (c : Cache) : Request → Cache
  | .get d => (c.get d).2
  | .put d e => c.put d e
  | .invalidate id => (c.invalidate id).2
  | .clear => c.clear

-- A key is used when it is put or found.
def used? (c : Cache) : Request → Option Directive.Identity
  | .get d => if (c.find? d.identity).isSome then some d.identity else none
  | .put d _ => some d.identity
  | _ => none

def after (c : Cache) (rs : List Request) : Cache :=
  rs.foldl step c

-- The keys that are used, in the order of their uses.
def uses (c : Cache) : List Request → List Directive.Identity
  | [] => []
  | r :: rs => (c.used? r).toList ++ (c.step r).uses rs

variable {c : Cache} {d : Directive} {k : Directive.Identity} {e : Included} {r : Request}

section Runs

theorem after_cons (c : Cache) (r : Request) (rs : List Request) :
    c.after (r :: rs) = (c.step r).after rs := rfl

theorem after_append (c : Cache) (rs rs' : List Request) :
    c.after (rs ++ rs') = (c.after rs).after rs' :=
  List.foldl_append

theorem uses_append (c : Cache) (rs rs' : List Request) :
    c.uses (rs ++ rs') = c.uses rs ++ (c.after rs).uses rs' := by
  induction rs generalizing c
  case nil          => rfl
  case cons r rs hi => simp [uses, hi, after_cons]

end Runs

section Keys

theorem keys_of_empty (h : c.entries = []) : c.keys = [] := by
  rw [keys, h, List.map_nil]

theorem find?_eq_none_iff : c.find? k = none ↔ k ∉ c.keys := by
  simp only [find?, keys, List.lookup_eq_none_iff, List.mem_map]
  grind

theorem find?_isNone_iff : (c.find? k).isNone ↔ k ∉ c.keys := by
  rw [Option.isNone_iff_eq_none, find?_eq_none_iff]

theorem mem_keys_of_find? (h : c.find? k = some e) : k ∈ c.keys :=
  List.mem_map_of_mem (mem_of_find? h)

theorem keys_touch (c : Cache) (k : Directive.Identity) (e : Included) :
    (c.touch k e).keys = c.keys.filter (· != k) ++ [k] := by
  simp [keys, touch, without, List.filter_map, Function.comp_def]

theorem keys_makeRoom_sublist (c : Cache) (k : Directive.Identity) :
    (c.makeRoom k).keys.Sublist c.keys := by
  rw [makeRoom]
  split
  · exact (List.tail_sublist _).map _
  · exact .refl _

theorem filter_of_not_mem {xs : List (Directive.Identity × Included)} (h : k ∉ xs.map (·.1)) :
    xs.filter (·.1 != k) = xs :=
  List.filter_eq_self.mpr fun _ hx => bne_iff_ne.mpr fun he => h (he ▸ List.mem_map_of_mem hx)

theorem makeRoom_of_mem (h : k ∈ c.keys) : c.makeRoom k = c := by
  have hn := find?_isNone_iff.not_left.mpr h
  simp [makeRoom, hn]

-- A new key in a full cache is the only one that makes room.
theorem makeRoom_cases (c : Cache) (k : Directive.Identity) :
    (c.makeRoom k).entries = c.entries ∧ (k ∈ c.keys ∨ c.length < c.capacity) ∨
    (c.makeRoom k).entries = c.entries.tail ∧ k ∉ c.keys ∧ c.capacity ≤ c.length := by
  by_cases hk : k ∈ c.keys
  case pos => exact .inl ⟨by rw [makeRoom_of_mem hk], .inl hk⟩
  case neg =>
    rw [makeRoom, find?_isNone_iff.mpr hk, Bool.true_and]
    split
    case isTrue hl  => exact .inr ⟨rfl, hk, of_decide_eq_true hl⟩
    case isFalse hl => exact .inl ⟨rfl, .inr (by simpa using hl)⟩

theorem length_eq_length_keys (c : Cache) : c.length = c.keys.length :=
  (List.length_map _).symm

theorem length_filter_keys_lt (h : k ∈ c.keys) : (c.keys.filter (· != k)).length < c.keys.length :=
  List.length_filter_lt_length_iff_exists.mpr ⟨k, h, by simp⟩

end Keys

-- One entry for a key at most, and no more of them than fit.
structure WellFormed (c : Cache) : Prop where
  nodup : c.keys.Nodup
  bounded : c.length ≤ c.capacity
  positive : 0 < c.capacity

section Steps

theorem step_get_of_none (h : c.find? d.identity = none) : c.step (.get d) = c := by
  rw [step, get_of_none h]

theorem step_get_of_some (h : c.find? d.identity = some e) : c.step (.get d) = c.put d e := by
  rw [step, get_of_some h, put, makeRoom_of_mem (mem_keys_of_find? h)]

-- What a request does.
theorem step_cases (c : Cache) (r : Request) :
    (∃ d e, c.used? r = some d.identity ∧ c.step r = c.put d e ∧
      (r = .put d e ∨ r = .get d ∧ c.find? d.identity = some e)) ∨
    (c.used? r = none ∧ c.step r = { c with entries := c.entries.filter fun x => !r.drops x.2 }) := by
  cases r
  case put d e => exact .inl ⟨d, e, rfl, rfl, .inl rfl⟩
  case get d =>
    cases hf : c.find? d.identity
    case none   => exact .inr ⟨by simp [used?, hf], by simp [step_get_of_none hf, Request.drops]⟩
    case some e => exact .inl ⟨d, e, by simp [used?, hf], step_get_of_some hf, .inr ⟨rfl, hf⟩⟩
  case invalidate id =>
    refine .inr ⟨rfl, ?_⟩
    simp [step, invalidate, List.partition_eq_filter_filter, Request.drops, Function.comp_def]
  case clear => exact .inr ⟨rfl, by simp [step, clear, Request.drops]⟩

theorem step_of_not_used (h : c.used? r = none) :
    c.step r = { c with entries := c.entries.filter fun x => !r.drops x.2 } := by
  rcases step_cases c r with ⟨_, _, hu, _⟩ | ⟨_, hs⟩
  · cases h.symm.trans hu
  · exact hs

theorem fst_get (c : Cache) (d : Directive) : (c.get d).1 = c.find? d.identity := by
  rw [get]
  split <;> simp [*]

theorem capacity_put (c : Cache) (d : Directive) (e : Included) : (c.put d e).capacity = c.capacity := by
  rw [put, touch, makeRoom]
  split <;> rfl

theorem capacity_step (c : Cache) (r : Request) : (c.step r).capacity = c.capacity := by
  rcases step_cases c r with ⟨d, e, _, hs, _⟩ | ⟨_, hs⟩
  · rw [hs, capacity_put]
  · rw [hs]

theorem capacity_after (c : Cache) (rs : List Request) : (c.after rs).capacity = c.capacity := by
  induction rs generalizing c
  case nil          => rfl
  case cons r rs hi => rw [after_cons, hi, capacity_step]

theorem keys_put (c : Cache) (d : Directive) (e : Included) :
    (c.put d e).keys = (c.makeRoom d.identity).keys.filter (· != d.identity) ++ [d.identity] :=
  keys_touch _ _ e

namespace WellFormed

-- With the key itself set aside, there is room for one more.
theorem length_makeRoom (h : c.WellFormed) (k : Directive.Identity) :
    ((c.makeRoom k).keys.filter (· != k)).length < c.capacity := by
  have hb := h.bounded
  have hp := h.positive
  rcases makeRoom_cases c k with ⟨hm, hk | hl⟩ | ⟨hm, _, _⟩
  case inl.inl =>
    rw [keys, hm]
    exact Nat.lt_of_lt_of_le (length_filter_keys_lt hk) (length_eq_length_keys c ▸ hb)
  case inl.inr =>
    refine Nat.lt_of_le_of_lt (List.length_filter_le ..) ?_
    rwa [←length_eq_length_keys, length, hm]
  case inr =>
    refine Nat.lt_of_le_of_lt (List.length_filter_le ..) ?_
    rw [←length_eq_length_keys, length, hm, List.length_tail]
    rw [length] at hb
    omega

theorem put (h : c.WellFormed) (d : Directive) (e : Included) : (c.put d e).WellFormed where
  nodup := by
    rw [keys_put]
    refine List.Nodup.append (((keys_makeRoom_sublist c _).nodup h.nodup).filter _) (List.nodup_singleton _) ?_
    simp
  bounded := by
    rw [length_eq_length_keys, keys_put, capacity_put, List.length_append]
    exact h.length_makeRoom d.identity
  positive := capacity_put c d e ▸ h.positive

theorem filter (h : c.WellFormed) (p : Directive.Identity × Included → Bool) :
    WellFormed { c with entries := c.entries.filter p } where
  nodup := (List.filter_sublist.map _).nodup h.nodup
  bounded := Nat.le_trans (List.length_filter_le ..) h.bounded
  positive := h.positive

theorem step (h : c.WellFormed) (r : Request) : (c.step r).WellFormed := by
  rcases step_cases c r with ⟨d, e, _, hs, _⟩ | ⟨_, hs⟩ <;> rw [hs]
  · exact h.put d e
  · exact h.filter _

theorem after (h : c.WellFormed) (rs : List Request) : (c.after rs).WellFormed := by
  induction rs generalizing c
  case nil          => exact h
  case cons r rs hi => exact hi (h.step r)

theorem eq_of_mem {e' : Included} (h : c.WellFormed) (he : (k, e) ∈ c.entries)
    (he' : (k, e') ∈ c.entries) : e = e' :=
  congrArg Prod.snd (List.inj_on_of_nodup_map h.nodup he he' rfl)

theorem find?_of_mem (h : c.WellFormed) (he : (k, e) ∈ c.entries) : c.find? k = some e := by
  cases hf : c.find? k
  case none    => exact absurd (List.mem_map_of_mem he) (find?_eq_none_iff.mp hf)
  case some e' => rw [h.eq_of_mem (mem_of_find? hf) he]

end WellFormed

-- A cache of a given size starts out empty.
theorem exists_ofSize {n : Int} (hn : 1 ≤ n) :
    ∃ c, ofSize n = .ok c ∧ c.entries = [] ∧ (c.capacity : Int) = n ∧ c.WellFormed := by
  refine ⟨{ capacity := n.toNat }, ?_, rfl, ?_, List.nodup_nil, Nat.zero_le _, ?_⟩
  · rw [ofSize, if_neg (by omega)]
  · simp only; omega
  · simp only; omega

end Steps

-- Three documents, of which a cache of two keeps the first and the last.
def threeRooms : List Request :=
  let d (name : Text) : Directive := { link := { body := name } }
  let e (name : Text) : Included := { content := .whole {}, sourceId := name, source := none, target := none }
  let hall := "hall.org".toList
  let attic := "attic.org".toList
  let cellar := "cellar.org".toList
  [.put (d hall) (e hall), .put (d attic) (e attic), .get (d hall), .put (d cellar) (e cellar)]

end Transclusion.Cache
