import Transclusion.Proofs.Text.Fold

namespace Transclusion.Text

variable {a c d : Char} {lit s : Text} {runs : List Run} {codes : List Nat} {p : Char → Prop}

section Tables

-- A letter stays as it is, or a run moves it.
theorem shiftBy_cases (h : shiftBy runs c = d) (hd : d.toNat ≠ 0) :
    c = d ∨ ∃ r ∈ runs, r.has c.toNat ∧ (c.toNat : Int) + r.shift = d.toNat := by
  rw [shiftBy] at h
  split at h
  case h_2 => exact .inl h
  case h_1 r hf =>
    have hh := List.find?_some hf
    refine .inr ⟨r, List.mem_of_find?_eq_some hf, hh, ?_⟩
    have ho := toNat_ofNat_eq (c.toNat + r.shift).toNat
    rw [h] at ho
    omega

-- Where the run takes `n` from, if it reaches it.
def Run.source? (r : Run) (n : Nat) : Option Nat :=
  let m := ((n : Int) - r.shift).toNat
  if r.has m then some m else none

-- `n` itself, and the code points that the runs move to it.
def sources (runs : List Run) (n : Nat) : List Nat :=
  n :: runs.filterMap (·.source? n)

theorem mem_sources (h : shiftBy runs c = d) (hd : d.toNat ≠ 0) : c.toNat ∈ sources runs d.toNat := by
  rcases shiftBy_cases h hd with rfl | ⟨r, hr, hh, he⟩
  · exact List.mem_cons_self
  · have hm : ((d.toNat : Int) - r.shift).toNat = c.toNat := by omega
    have hs : r.source? d.toNat = some c.toNat := by simp only [Run.source?, hm, hh, if_true]
    exact List.mem_cons_of_mem _ (List.mem_filterMap.mpr ⟨r, hr, hs⟩)

-- What holds of each of the few sources holds of all that become `d`.
theorem forall_sources (hp : ∀ n ∈ sources runs d.toNat, p (Char.ofNat n)) (hd : d.toNat ≠ 0)
    (h : shiftBy runs c = d) : p c := by
  have hc := hp _ (mem_sources h hd)
  rwa [Char.ofNat_toNat] at hc

theorem upperChar_of_lookup (h : upperSequences.lookup c.toNat = some codes) :
    upperChar c = codes.map Char.ofNat ∧ 1 < codes.length ∧ (c.toNat, codes) ∈ upperSequences := by
  have hs : ∀ x ∈ upperSequences, 1 < x.2.length := by decide +kernel
  obtain ⟨_, _, he, _⟩ := List.lookup_eq_some_iff.mp h
  have hm : (c.toNat, codes) ∈ upperSequences := by simp [he]
  exact ⟨by rw [upperChar, h], hs _ hm, hm⟩

theorem shiftBy_of_upperChar (h : upperChar c = [a]) : shiftBy upperRuns c = a := by
  cases hl : upperSequences.lookup c.toNat
  case none =>
    rw [upperChar, hl] at h
    exact List.singleton_inj.mp h
  case some codes =>
    obtain ⟨hu, hn, _⟩ := upperChar_of_lookup hl
    have hc := congrArg List.length (hu.symm.trans h)
    rw [List.length_map] at hc
    exact absurd hc (Nat.ne_of_gt hn)

end Tables

section Words

-- Nothing in the literal starts what a letter becomes that becomes several.
def IsPlain (lit : Text) : Prop :=
  ∀ x ∈ upperSequences, ∀ n ∈ x.2.head?, Char.ofNat n ∉ lit

theorem IsPlain.of_cons (h : IsPlain (a :: lit)) : IsPlain lit :=
  fun x hx n hn hm => h x hx n hn (List.mem_cons_of_mem a hm)

theorem upper_eq_iff (hl : IsPlain lit) :
    upper s = lit ↔ List.Forall₂ (fun a c => upperChar c = [a]) lit s := by
  constructor
  case mpr =>
    intro h
    induction h
    case nil => rfl
    case cons hc _ hi =>
      rw [upper, List.flatMap_cons, hc]
      exact congrArg _ (hi hl.of_cons)
  case mp =>
    intro h
    induction s generalizing lit
    case nil =>
      cases h
      exact .nil
    case cons c s hi =>
      rw [upper, List.flatMap_cons] at h
      cases hc : upperSequences.lookup c.toNat
      case some codes =>
        obtain ⟨hu, hn, hm⟩ := upperChar_of_lookup hc
        obtain ⟨n, codes, rfl⟩ := List.exists_cons_of_length_pos (Nat.zero_lt_of_lt hn)
        refine absurd ?_ (hl _ hm n rfl)
        rw [←h, hu]
        exact List.mem_cons_self
      case none =>
        have hu : upperChar c = [shiftBy upperRuns c] := by rw [upperChar, hc]
        rw [hu] at h
        cases h
        exact .cons hu (hi hl.of_cons rfl)

end Words

section Ids

theorem agree_cases (h : agree a c) :
    c = dottedCapitalI ∨ related (fold a) (shiftBy lowerRuns c).toNat := by
  by_cases hc : c = dottedCapitalI
  case pos => exact .inl hc
  case neg =>
    rw [agree, show fold c = _ from if_neg hc] at h
    exact .inr h

-- Of all spellings only the capital letter with a dot has another upper case.
theorem agree_I_iff : agree 'I' c ↔ upperChar c = ['I'] ∨ c = dottedCapitalI := by
  constructor
  case mp =>
    intro h
    refine (agree_cases h).symm.imp_left fun hr => ?_
    have hf : fold 'I' = 105 := by decide +kernel
    have hn : shiftBy lowerRuns c = 'i' ∨ shiftBy lowerRuns c = 'ı' := by
      simp only [←Char.toNat_inj]
      simp [hf, related, families] at hr
      exact hr.elim (.inl ·.symm) id
    rcases hn with hc | hc
    · exact forall_sources (p := (upperChar · = ['I'])) (by decide +kernel) (by decide) hc
    · exact forall_sources (p := (upperChar · = ['I'])) (by decide +kernel) (by decide) hc
  case mpr =>
    rintro (h | rfl)
    · exact forall_sources (p := (agree 'I' ·)) (by decide +kernel) (by decide) (shiftBy_of_upperChar h)
    · decide +kernel

theorem agree_D_iff : agree 'D' c ↔ upperChar c = ['D'] := by
  constructor
  case mp =>
    intro h
    rcases agree_cases h with rfl | hr
    · exact absurd h (by decide +kernel)
    · have hf : fold 'D' = 100 := by decide +kernel
      have hc : shiftBy lowerRuns c = 'd' := by
        rw [←Char.toNat_inj]
        simp [hf, related, families] at hr
        exact hr.symm
      exact forall_sources (p := (upperChar · = ['D'])) (by decide +kernel) (by decide) hc
  case mpr =>
    intro h
    exact forall_sources (p := (agree 'D' ·)) (by decide +kernel) (by decide) (shiftBy_of_upperChar h)

theorem isPlain_id : IsPlain "ID".toList := by
  unfold IsPlain
  decide +kernel

theorem forall₂_agree_of_upper (h : upper s = "ID".toList) :
    List.Forall₂ (fun a c => agree a c) "ID".toList s := by
  obtain _ | ⟨hi, _ | ⟨hd, ⟨⟩⟩⟩ := (upper_eq_iff isPlain_id).mp h
  exact .cons (agree_I_iff.mpr (.inl hi)) (.cons (agree_D_iff.mpr hd) .nil)

theorem upper_of_forall₂_agree (h : List.Forall₂ (fun a c => agree a c) "ID".toList s) :
    upper s = "ID".toList ∨ dottedCapitalI ∈ s := by
  obtain _ | ⟨hi, _ | ⟨hd, ⟨⟩⟩⟩ := h
  rcases agree_I_iff.mp hi with hi | rfl
  case inl => exact .inl ((upper_eq_iff isPlain_id).mpr (.cons hi (.cons (agree_D_iff.mp hd) .nil)))
  case inr => exact .inr List.mem_cons_self

end Ids

end Transclusion.Text
