import Transclusion.Text.Blank
import Transclusion.Text.Fold

namespace Transclusion.IdLine

open Text

-- The id of the id line at the front of `s`, and what follows the blanks after it. An id line has `:ID:`
-- as its first word and one more word, with blanks behind it up to a line end or the end of the text.
-- Before and between the words line feeds are blanks too.
def read? (s : Text) : Option (Text × Text) := do
  let s ← afterFold? ":ID:".toList (trimStart s)
  let id ← given (if s.head?.any isBlank then some ((trimStart s).takeWhile (!isBlank ·)) else none)
  let rest := (trimStart s).dropWhile (!isBlank ·)
  if (rest.takeWhile isBlank).contains '\n' || isAllBlank rest then some (id, trimStart rest) else none

def nextLine (s : Text) : Text :=
  (s.dropWhile (· != '\n')).tail

theorem read?_length {s id r : Text} (h : read? s = some (id, r)) : r.length < s.length := by
  simp only [read?, Option.bind_eq_bind, Option.bind_eq_some_iff] at h
  obtain ⟨t, ht, id', hid, h⟩ := h
  have hs := trimStart_length_le s
  have ht := afterFold?_length ht
  have hd := (List.dropWhile_sublist (l := trimStart t) (!isBlank ·)).length_le
  have hr := trimStart_length_le ((trimStart t).dropWhile (!isBlank ·))
  have hu := trimStart_length_le t
  split at h
  · cases h
    simp only [String.reduceToList, List.length_cons, List.length_nil] at ht
    omega
  · cases h

theorem nextLine_length {s : Text} (h : s ≠ []) : (nextLine s).length < s.length := by
  have hd := (List.dropWhile_sublist (l := s) (· != '\n')).length_le
  have hs := List.length_pos_iff.2 h
  simp only [nextLine, List.length_tail]
  omega

-- All ids on id lines. What an id line has taken is not looked at again.
def ids (s : Text) : List Text :=
  if hs : s = [] then []
  else
    match h : read? s with
    | some (id, r) =>
      have := read?_length h
      id :: ids r
    | none =>
      have := nextLine_length hs
      ids (nextLine s)
termination_by s.length

end Transclusion.IdLine
