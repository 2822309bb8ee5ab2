import Transclusion.Text.Fold
import Transclusion.Proofs.Text.Blank

namespace Transclusion.Text

variable {a c : Char} {lit s r : Text}

section Marks

theorem toNat_ofNat_eq (n : Nat) : (Char.ofNat n).toNat = n ∨ (Char.ofNat n).toNat = 0 := by
  by_cases h : n.isValidChar
  case pos =>
    rw [Char.ofNat, dif_pos h]
    exact .inl rfl
  case neg =>
    rw [Char.ofNat, dif_neg h]
    exact .inr rfl

-- No letter comes before the capital A, nor does its lower case.
theorem lowerRuns_above : ∀ r ∈ lowerRuns, 65 ≤ r.first ∧ 65 ≤ (r.first : Int) + r.shift := by
  decide +kernel

theorem fold_of_lt (h : c.toNat < 65) : fold c = c.toNat := by
  have hd : c ≠ dottedCapitalI := by
    rintro rfl
    exact absurd h (by decide)
  have hf : lowerRuns.find? (·.has c.toNat) = none := by
    rw [List.find?_eq_none]
    intro r hm
    have ⟨hl, _⟩ := lowerRuns_above r hm
    simp only [Run.has, Bool.and_eq_true, decide_eq_true_eq]
    omega
  rw [fold, if_neg hd, shiftBy, hf]

theorem fold_eq_or (c : Char) : fold c = c.toNat ∨ fold c = 0 ∨ 65 ≤ fold c := by
  rw [fold]
  split
  case isTrue => exact .inr (.inr (by decide))
  case isFalse =>
    rw [shiftBy]
    split
    case h_2 => exact .inl rfl
    case h_1 r hf =>
      have ⟨_, hm⟩ := lowerRuns_above r (List.mem_of_find?_eq_some hf)
      have hb := List.find?_some hf
      simp only [Run.has, Bool.and_eq_true, decide_eq_true_eq] at hb
      rcases toNat_ofNat_eq (c.toNat + r.shift).toNat with he | he
      · exact .inr (.inr (by omega))
      · exact .inr (.inl he)

theorem eq_of_agree_of_lt (hz : a.toNat ≠ 0) (hl : a.toNat < 65) (h : agree a c) : c = a := by
  have hf : ∀ f ∈ families, ∀ n ∈ f, 65 ≤ n := by decide
  rw [agree, related, fold_of_lt hl, Bool.or_eq_true, beq_iff_eq, List.any_eq_true] at h
  rcases h with he | ⟨f, hm, hn⟩
  case inr =>
    simp only [Bool.and_eq_true, List.contains_iff_mem] at hn
    have := hf f hm _ hn.left
    omega
  case inl =>
    have ho := fold_eq_or c
    exact Char.toNat_inj.mp (by omega)

theorem eq_colon_of_agree (h : agree ':' c) : c = ':' :=
  eq_of_agree_of_lt (by decide) (by decide) h

-- No blank has another case.
theorem fold_of_isBlank (h : isBlank c) : fold c = c.toNat :=
  forall_isBlank (p := fun c => fold c = c.toNat) (by decide) h

theorem fold_mem_blankCodes (h : agree a c) (hc : isBlank c) : fold a ∈ blankCodes := by
  have hf : ∀ f ∈ families, ∀ n ∈ f, n ∉ blankCodes := by decide
  have hm := mem_blankCodes hc
  rw [agree, related, fold_of_isBlank hc, Bool.or_eq_true, beq_iff_eq, List.any_eq_true] at h
  rcases h with he | ⟨f, hff, hn⟩
  case inl => rwa [he]
  case inr =>
    simp only [Bool.and_eq_true, List.contains_iff_mem] at hn
    exact absurd hm (hf f hff _ hn.right)

end Marks

-- No character of the literal agrees with `c`.
def Lacks (lit : Text) (c : Char) : Prop :=
  ∀ a ∈ lit, agree a c = false

-- Only the literal is gone through, not all characters that there are.
instance (lit : Text) (c : Char) : Decidable (Lacks lit c) :=
  List.decidableBAll (fun a => agree a c = false) lit

section Reading

theorem afterFold?_eq_some_iff :
    afterFold? lit s = some r ↔ ∃ u, s = u ++ r ∧ List.Forall₂ (fun a c => agree a c) lit u := by
  constructor
  case mp =>
    intro h
    fun_induction afterFold? lit s
    case case1 =>
      cases h
      exact ⟨[], rfl, .nil⟩
    case case2 => cases h
    case case3 c _ ha hi =>
      obtain ⟨u, rfl, hu⟩ := hi h
      exact ⟨c :: u, rfl, .cons ha hu⟩
    case case4 => cases h
  case mpr =>
    rintro ⟨u, rfl, hu⟩
    induction hu
    case nil          => rfl
    case cons ha _ hi => simpa [afterFold?, ha] using hi

-- What no character of the literal agrees with is not in a spelling of it.
theorem not_mem_of_lacks (h : List.Forall₂ (fun a c => agree a c) lit s) (hl : Lacks lit c) : c ∉ s := by
  induction h
  case nil => exact List.not_mem_nil
  case cons ha _ hi =>
    obtain ⟨hn, hl⟩ := List.forall_mem_cons.mp hl
    refine mt List.mem_cons.mp (not_or.mpr ⟨?_, hi hl⟩)
    rintro rfl
    cases hn.symm.trans ha

theorem isSolid_of_forall₂_agree (h : List.Forall₂ (fun a c => agree a c) lit s)
    (hl : ∀ n ∈ lit.map fold, n ∉ blankCodes) : IsSolid s := by
  induction h
  case nil => exact List.forall_mem_nil _
  case cons ha _ hi =>
    obtain ⟨hn, hl⟩ := List.forall_mem_cons.mp hl
    refine List.forall_mem_cons.mpr ⟨?_, hi hl⟩
    by_contra hc
    exact hn (fold_mem_blankCodes ha (by simpa using hc))

theorem afterFold?_bind (lit lit' s : Text) :
    afterFold? (lit ++ lit') s = (afterFold? lit s).bind (afterFold? lit' ·) := by
  fun_induction afterFold? lit s
  case case1            => rfl
  case case2            => rfl
  case case3 ha hi      => simpa [afterFold?, ha] using hi
  case case4 ha         => simp [afterFold?, ha]

theorem afterFold?_colon_eq_some (h : afterFold? [':'] s = some r) : s = ':' :: r := by
  cases s
  case nil => cases h
  case cons c s =>
    rw [afterFold?] at h
    split at h
    case isFalse   => cases h
    case isTrue ha =>
      cases eq_colon_of_agree ha
      cases h
      rfl

-- A literal cannot reach beyond a mark that it does not have.
theorem afterFold?_append_cons (hl : Lacks lit c) (s r : Text) :
    afterFold? lit (s ++ c :: r) = (afterFold? lit s).map (· ++ c :: r) := by
  fun_induction afterFold? lit s
  case case1 s => rfl
  case case2 a lit =>
    have ha := hl a List.mem_cons_self
    simp [afterFold?, ha]
  case case3 a lit d s ha hi =>
    simpa [afterFold?, ha] using hi (fun x hx => hl x (List.mem_cons_of_mem a hx))
  case case4 a lit d s ha => simp [afterFold?, ha]

-- A literal that ends with a mark ends where the mark stands first.
theorem afterFold?_concat (hl : Lacks lit c) (hs : ∀ x ∈ s, agree c x = false)
    (r : Text) :
    afterFold? (lit ++ [c]) (s ++ c :: r) = if afterFold? lit s = some [] then some r else none := by
  fun_induction afterFold? lit s
  case case1 s =>
    cases s
    case nil      => simp [afterFold?, agree_refl]
    case cons x s => simp [afterFold?, hs x List.mem_cons_self]
  case case2 a lit => simp [afterFold?, hl a List.mem_cons_self]
  case case3 a lit d s ha hi =>
    have hi := hi (fun x hx => hl x (List.mem_cons_of_mem a hx))
      (fun x hx => hs x (List.mem_cons_of_mem d hx))
    simpa [afterFold?, ha] using hi
  case case4 a lit d s ha => simp [afterFold?, ha]

end Reading

section Spelling

theorem fold_toLower (c : Char) : fold c.toLower = fold c := by
  by_cases hc : 65 ≤ c.toNat ∧ c.toNat < 91
  case pos =>
    exact forall_of_toNat_lt (p := fun c => 65 ≤ c.toNat → fold c.toLower = fold c) (by decide)
      hc.right hc.left
  case neg =>
    delta Char.toLower
    rw [dif_neg]
    simpa [UInt32.le_iff_toNat_le, Nat.lt_succ_iff] using hc

theorem agree_toLower (a c : Char) : agree a c.toLower = agree a c := by
  rw [agree, fold_toLower, agree]

theorem eq_colon_of_toLower (h : c.toLower = ':') : c = ':' := by
  refine eq_colon_of_agree ?_
  rw [←h, agree_comm, agree_toLower]
  exact agree_refl c

theorem toLower_of_isBlank (h : isBlank c) : c.toLower = c :=
  forall_isBlank (p := fun c => c.toLower = c) (by decide) h

-- Letters may be written in upper case.
theorem forall₂_agree_of_toLower (h : s.map Char.toLower = lit) :
    List.Forall₂ (fun a c => agree a c) lit s := by
  subst h
  refine List.forall₂_map_left_iff.mpr (List.forall₂_same.mpr fun c _ => ?_)
  rw [agree_comm, agree_toLower]
  exact agree_refl c

theorem afterFold?_of_toLower (h : s.map Char.toLower = lit) (r : Text) :
    afterFold? lit (s ++ r) = some r :=
  afterFold?_eq_some_iff.mpr ⟨s, rfl, forall₂_agree_of_toLower h⟩

end Spelling

end Transclusion.Text
