import Transclusion.Text.Case

namespace Transclusion.Text

def families : List (List Nat) :=
  [[105, 305], [115, 383], [181, 956], [837, 953, 8126], [912, 8147], [944, 8163], [946, 976],
    [949, 1013], [952, 977], [954, 1008], [960, 982], [961, 1009], [962, 963], [966, 981],
    [1074, 7296], [1076, 7297], [1086, 7298], [1089, 7299], [1090, 7300, 7301], [1098, 7302],
    [1123, 7303], [7304, 42571], [7777, 7835], [64261, 64262]]

def fold (c : Char) : Nat :=
  if c = dottedCapitalI then 105 else (shiftBy lowerRuns c).toNat

def related (m n : Nat) : Bool :=
  m == n || families.any fun f => f.contains m && f.contains n

theorem related_refl (n : Nat) : related n n := by
  simp [related]

theorem related_comm (m n : Nat) : related m n = related n m := by
  have h (f : List Nat) : (f.contains m && f.contains n) = (f.contains n && f.contains m) :=
    Bool.and_comm ..
  simp only [related, h, Bool.beq_comm (a := m)]

def agree (a c : Char) : Bool :=
  related (fold a) (fold c)

theorem agree_refl (c : Char) : agree c c :=
  related_refl _

theorem agree_comm (a c : Char) : agree a c = agree c a :=
  related_comm ..

-- What follows a spelling of `lit` at the front of `s`.
def afterFold? : (lit s : Text) → Option Text
  | [], s => some s
  | _ :: _, [] => none
  | a :: lit, c :: s => if agree a c then afterFold? lit s else none

theorem afterFold?_append (lit r : Text) : afterFold? lit (lit ++ r) = some r := by
  induction lit with
  | nil => rfl
  | cons a lit ih => simp [afterFold?, agree_refl, ih]

theorem afterFold?_length {lit s r : Text} (h : afterFold? lit s = some r) :
    s.length = lit.length + r.length := by
  induction lit generalizing s with
  | nil =>
    cases h
    simp
  | cons a lit ih =>
    cases s with
    | nil => simp [afterFold?] at h
    | cons c s =>
      simp only [afterFold?] at h
      split at h
      · simp [ih h]
        omega
      · cases h

end Transclusion.Text
