import Transclusion.Files.Path

namespace Transclusion

theorem Path.isRelative_join {p : Path} (h : p.isRelative = false) (q : Path) :
    (p.join q).isRelative = false := by
  rw [join]
  split
  case isTrue    => exact h
  case isFalse h => simpa using h

namespace Location

variable {l top : Location} {p : Path} {ps : List Text}

theorem isUnder_iff_prefix : l.isUnder top ↔ top.parts <+: l.parts :=
  List.isPrefixOf_iff_prefix

theorem walk_of_anchored (h : p.isRelative = false) (l l' : Location) : l.walk p = l'.walk p := by
  simp [walk, h]

theorem not_mem_follow (h : "..".toList ∉ l.parts) (part : Text) :
    "..".toList ∉ (l.follow part).parts := by
  rw [follow]
  split
  case isTrue     => exact fun hm => h (List.dropLast_subset _ hm)
  case isFalse hp =>
    rw [child, List.mem_append, List.mem_singleton]
    exact fun hm => hm.elim h (hp ·.symm)

theorem not_mem_foldl_follow (h : "..".toList ∉ l.parts) (ps : List Text) :
    "..".toList ∉ (ps.foldl follow l).parts := by
  induction ps generalizing l
  case nil          => exact h
  case cons p ps hi => exact hi (not_mem_follow h p)

theorem not_mem_walk (p : Path) : "..".toList ∉ (({} : Location).walk p).parts := by
  rw [walk, ite_self]
  exact not_mem_foldl_follow List.not_mem_nil p.parts

theorem foldl_follow (h : "..".toList ∉ ps) (l : Location) : ps.foldl follow l = ⟨l.parts ++ ps⟩ := by
  induction ps generalizing l
  case nil => simp
  case cons p ps hi =>
    have ⟨hp, hs⟩ := not_or.mp (mt List.mem_cons.mpr h)
    rw [List.foldl_cons, follow, if_neg (Ne.symm hp), hi hs, child, List.append_assoc]
    rfl

theorem walk_path (h : "..".toList ∉ l.parts) (l' : Location) : l'.walk l.path = l := by
  rw [walk_of_anchored rfl l' {}, walk, ite_self]
  exact foldl_follow h {}

end Location

end Transclusion
