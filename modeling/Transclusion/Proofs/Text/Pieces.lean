import Mathlib.Data.List.Basic
import Transclusion.Text.Basic

namespace Transclusion.Text

variable {a c : Char} {p s t : Text} {ps : List Text}

section Spans

variable {f : Char → Bool}

theorem takeWhile_append_of_head? (hs : ∀ c ∈ s, f c) (ht : ∀ c ∈ t.head?, f c = false) :
    (s ++ t).takeWhile f = s := by
  rw [List.takeWhile_append_of_pos hs]
  cases t
  case nil      => simp
  case cons c t => simp [ht c rfl]

theorem dropWhile_append_of_head? (hs : ∀ c ∈ s, f c) (ht : ∀ c ∈ t.head?, f c = false) :
    (s ++ t).dropWhile f = t := by
  rw [List.dropWhile_append_of_pos hs]
  cases t
  case nil      => rfl
  case cons c t => simp [ht c rfl]

end Spans

theorem mem_of_mem_pieces (hp : p ∈ pieces c s) (ha : a ∈ p) : a ∈ s := by
  fun_induction pieces c s generalizing p <;> grind

theorem not_mem_of_mem_pieces (h : p ∈ pieces c s) : c ∉ p := by
  fun_induction pieces c s generalizing p <;> grind

theorem pieces_of_not_mem (h : c ∉ s) : pieces c s = [s] := by
  induction s
  case nil => rfl
  case cons a s hi =>
    have ⟨ha, hs⟩ := not_or.mp (mt List.mem_cons.mpr h)
    rw [pieces, if_neg (Ne.symm ha), hi hs]

theorem pieces_append (h : c ∉ s) (r : Text) : pieces c (s ++ c :: r) = s :: pieces c r := by
  induction s
  case nil => simp [pieces]
  case cons a s hi =>
    obtain ⟨ha, hs⟩ := not_or.mp (mt List.mem_cons.mpr h)
    rw [List.cons_append, pieces, if_neg (Ne.symm ha), hi hs]

theorem pieces_intercalate (h : ∀ p ∈ ps, c ∉ p) (hn : ps ≠ []) :
    pieces c (List.intercalate [c] ps) = ps := by
  induction ps
  case nil => cases hn rfl
  case cons p ps hi =>
    have ⟨hp, hs⟩ := List.forall_mem_cons.mp h
    cases ps
    case nil => rw [List.intercalate_singleton, pieces_of_not_mem hp]
    case cons q qs =>
      rw [List.intercalate_cons_cons, List.append_assoc, List.singleton_append, pieces_append hp,
        hi hs (List.cons_ne_nil q qs)]

theorem pieces_concat (c : Char) (s : Text) : pieces c (s ++ [c]) = pieces c s ++ [[]] := by
  fun_induction pieces c s
  case case1             => simp [pieces]
  case case2 s hi        => simp [pieces, hi]
  case case3 a s ha hp _ => exact absurd hp (pieces_ne_nil c s)
  case case4 a s ha p ps hp hi => simp [pieces, ha, hi, hp]

end Transclusion.Text
