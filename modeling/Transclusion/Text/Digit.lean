import Transclusion.Text.Ranges

namespace Transclusion.Text

def zeros : List Nat :=
  [48, 1632, 1776, 1984, 2406, 2534, 2662, 2790, 2918, 3046, 3174, 3302, 3430, 3558, 3664, 3792,
   3872, 4160, 4240, 6112, 6160, 6470, 6608, 6784, 6800, 6992, 7088, 7232, 7248, 42528, 43216,
   43264, 43472, 43504, 43600, 44016, 65296, 66720, 68912, 69734, 69872, 69942, 70096, 70384,
   70736, 70864, 71248, 71360, 71472, 71904, 72016, 72784, 73040, 73120, 92768, 92864, 93008,
   120782, 120792, 120802, 120812, 120822, 123200, 123632, 125264, 130032]

def digitValue? (c : Char) : Option Nat :=
  zeros.findSome? fun z => if z ≤ c.toNat ∧ c.toNat < z + 10 then some (c.toNat - z) else none

def isDigit (c : Char) : Bool :=
  (digitValue? c).isSome

theorem digitValue?_lt {c : Char} {n : Nat} (h : digitValue? c = some n) : n < 10 := by
  obtain ⟨z, _, hz⟩ := List.exists_of_findSome?_eq_some h
  split at hz
  · have := Option.some.inj hz
    omega
  · cases hz

-- Characters that are no digits do not count.
def numeral (s : Text) : Nat :=
  (s.filterMap digitValue?).foldl (fun n d => 10 * n + d) 0

end Transclusion.Text
