import Transclusion.Text.Ranges

namespace Transclusion.Text

def blankRanges : Ranges :=
  [(9, 13), (28, 32), (133, 133), (160, 160), (5760, 5760), (8192, 8202), (8232, 8233),
    (8239, 8239), (8287, 8287), (12288, 12288)]

def isBlank (c : Char) : Bool :=
  blankRanges.has c

def trimStart (s : Text) : Text :=
  s.dropWhile isBlank

def trimEnd (s : Text) : Text :=
  (s.reverse.dropWhile isBlank).reverse

def trim (s : Text) : Text :=
  trimEnd (trimStart s)

def isAllBlank (s : Text) : Bool :=
  s.all isBlank

@[simp] theorem trimStart_nil : trimStart [] = [] := rfl

@[simp] theorem trimEnd_nil : trimEnd [] = [] := rfl

@[simp] theorem trim_nil : trim [] = [] := rfl

theorem trimStart_length_le (s : Text) : (trimStart s).length ≤ s.length :=
  (List.dropWhile_sublist _).length_le

-- The maximal runs of characters that are not blank.
def words (s : Text) : List Text :=
  match _h : trimStart s with
  | [] => []
  | c :: r => (c :: r).takeWhile (!isBlank ·) :: words ((c :: r).dropWhile (!isBlank ·))
termination_by s.length
decreasing_by
  have hs := trimStart_length_le s
  have hc : isBlank c = false := by
    have := List.head?_dropWhile_not isBlank s
    rw [trimStart] at _h
    simpa [_h] using this
  have hr := (List.dropWhile_sublist (l := r) (!isBlank ·)).length_le
  rw [_h] at hs
  simp only [List.dropWhile_cons, hc, Bool.not_false, ite_true]
  simp only [List.length_cons] at hs
  omega

end Transclusion.Text
