import Transclusion.Text.Basic

namespace Transclusion.Text

abbrev Ranges := List (Nat × Nat)

namespace Ranges

-- The ranges ascend, so the search ends at the first range that starts above the character.
def holds (n : Nat) : Ranges → Bool
  | [] => false
  | (low, high) :: rs => if n < low then false else n ≤ high || holds n rs

def has (rs : Ranges) (c : Char) : Bool :=
  rs.holds c.toNat

theorem mem_of_holds {n : Nat} {rs : Ranges} (h : rs.holds n) :
    ∃ r ∈ rs, r.1 ≤ n ∧ n ≤ r.2 := by
  induction rs with
  | nil => simp [holds] at h
  | cons r rs ih =>
    simp only [holds] at h
    split at h
    · cases h
    · next hl =>
      simp only [Bool.or_eq_true, decide_eq_true_eq] at h
      rcases h with hh | hh
      · exact ⟨r, by simp, by omega, hh⟩
      · obtain ⟨r', hr, hb⟩ := ih hh
        exact ⟨r', by simp [hr], hb⟩

end Ranges

end Transclusion.Text
