import Transclusion.Directive
import Transclusion.Proofs.Text.Fold

namespace Transclusion.Directive

open Text

variable {α : Type} {f : Text → Option α} {x : α} {lit name s t r : Text}

section Searching

theorem search_cons (f : Text → Option α) (c : Char) (s : Text) :
    search f (c :: s) = (f (c :: s)).or (search f s) := rfl

-- The search ends at the first place that is accepted.
theorem search_eq_some_iff (hn : f [] = none) :
    search f s = some x ↔ ∃ before after, s = before ++ after ∧ f after = some x ∧
      ∀ b a y, s = b ++ a → f a = some y → before.length ≤ b.length := by
  induction s
  case nil =>
    simp only [search, reduceCtorEq, List.nil_eq, List.append_eq_nil_iff, false_iff]
    rintro ⟨_, _, ⟨rfl, rfl⟩, h, _⟩
    cases hn.symm.trans h
  case cons c s hi =>
    rw [search_cons]
    cases hf : f (c :: s)
    case some y =>
      rw [Option.some_or, Option.some.injEq]
      constructor
      case mp =>
        rintro rfl
        exact ⟨[], c :: s, rfl, hf, by simp⟩
      case mpr =>
        rintro ⟨before, after, he, ha, hm⟩
        obtain rfl := List.length_eq_zero_iff.mp (Nat.le_zero.mp (hm [] (c :: s) y rfl hf))
        rw [List.nil_append] at he
        exact Option.some.inj (hf.symm.trans (he ▸ ha))
    case none =>
      rw [Option.none_or, hi]
      constructor
      case mp =>
        rintro ⟨before, after, rfl, ha, hm⟩
        refine ⟨c :: before, after, rfl, ha, fun b a y he hy => ?_⟩
        cases b with
        | nil =>
          obtain rfl : _ = a := he
          cases hf.symm.trans hy
        | cons d b => exact Nat.succ_le_succ (hm b a y (List.cons.inj he).right hy)
      case mpr =>
        rintro ⟨before, after, he, ha, hm⟩
        cases before with
        | nil =>
          obtain rfl : _ = after := he
          cases hf.symm.trans ha
        | cons d before =>
          refine ⟨before, after, (List.cons.inj he).right, ha, fun b a y hb hy => ?_⟩
          exact Nat.le_of_succ_le_succ (hm (c :: b) a y (by rw [hb]; rfl) hy)

-- What is searched for starts with a colon.
def AtColon (f : Text → Option α) : Prop :=
  ∀ s, s.head? ≠ some ':' → f s = none

namespace AtColon

theorem search_append (h : AtColon f) (hs : ':' ∉ s) (t : Text) : search f (s ++ t) = search f t := by
  induction s
  case nil => rfl
  case cons c s hi =>
    rw [List.mem_cons, not_or] at hs
    rw [List.cons_append, search_cons, h _ (by simpa using Ne.symm hs.left), Option.none_or, hi hs.right]

theorem search_of_isAllBlank (h : AtColon f) (hs : isAllBlank s) (t : Text) :
    search f (s ++ t) = search f t := by
  refine h.search_append (fun hc => ?_) t
  cases List.all_eq_true.mp hs ':' hc

-- The blanks around a text do not matter, if those behind it do not matter for what is accepted.
theorem search_trim (h : AtColon f) (hf : ∀ s t, isAllBlank t → f (s ++ t) = f s) (s : Text) :
    search f (trim s) = search f s := by
  obtain ⟨lead, trail, hl, ht, he⟩ := exists_trim s
  have hm (m : Text) : search f (m ++ trail) = search f m := by
    induction m
    case nil =>
      have hb := h.search_of_isAllBlank ht []
      rwa [List.append_nil] at hb
    case cons c m hi =>
      have hc := hf (c :: m) trail ht
      rw [List.cons_append] at hc ⊢
      rw [search_cons, search_cons, hc, hi]
  calc search f (trim s)
    _ = search f (trim s ++ trail) := (hm _).symm
    _ = search f (lead ++ (trim s ++ trail)) := (h.search_of_isAllBlank hl _).symm
    _ = search f s := by rw [←List.append_assoc, ←he]

end AtColon

end Searching

section Readers

def flagAt? (flag s : Text) : Option Text :=
  (afterFold? flag s).filter fun r => !r.head?.any isWord

def levelAt? (s : Text) : Option Text :=
  (argument? ":level".toList s).bind fun r => given (some (r.takeWhile isDigit))

def excludedAt? (s : Text) : Option Text := do
  let r ← argument? ":exclude-elements".toList s
  let r ← after? "(".toList (if r.head? = some '"' then r.tail else r)
  let inner ← given (some (r.takeWhile (· != ')')))
  if (r.dropWhile (· != ')')).isEmpty then none else some inner

theorem hasFlag_eq_search (flag s : Text) : hasFlag flag s = (search (flagAt? flag) s).isSome := rfl

theorem levelDigits?_eq_search (s : Text) : levelDigits? s = search levelAt? s := rfl

theorem excludedText?_eq_search (s : Text) : excludedText? s = search excludedAt? s := rfl

-- At least one blank and nothing else.
def IsGap (s : Text) : Prop :=
  s ≠ [] ∧ isAllBlank s

instance (s : Text) : Decidable (IsGap s) :=
  inferInstanceAs (Decidable (_ ∧ _))

theorem argument?_eq_some_iff :
    argument? name s = some r ↔ ∃ u gap, s = u ++ (gap ++ r) ∧
      List.Forall₂ (fun a c => agree a c) name u ∧ IsGap gap ∧ ∀ c ∈ r.head?, isBlank c = false := by
  simp only [argument?, Option.map_eq_some_iff, Option.filter_eq_some_iff, afterFold?_eq_some_iff]
  constructor
  case mp =>
    rintro ⟨t, ⟨⟨u, rfl, hu⟩, ht⟩, rfl⟩
    refine ⟨u, t.takeWhile isBlank, ?_, hu, ⟨?_, ?_⟩, head?_trimStart t⟩
    · rw [trimStart, List.takeWhile_append_dropWhile]
    · cases t
      case nil      => cases ht
      case cons c t => simp [show isBlank c from ht]
    · exact List.all_eq_true.mpr fun _ => List.mem_takeWhile_imp
  case mpr =>
    rintro ⟨u, gap, rfl, hu, ⟨hn, hb⟩, hr⟩
    refine ⟨gap ++ r, ⟨⟨u, rfl, hu⟩, ?_⟩, ?_⟩
    · obtain ⟨c, gap, rfl⟩ := List.exists_cons_of_ne_nil hn
      exact List.all_eq_true.mp hb c List.mem_cons_self
    · rw [trimStart, List.dropWhile_append_of_pos (List.all_eq_true.mp hb)]
      exact trimStart_of_head? hr

theorem afterFold?_colon (h : s.head? ≠ some ':') : afterFold? (':' :: lit) s = none := by
  cases s
  case nil => rfl
  case cons c s =>
    rw [afterFold?, if_neg]
    intro ha
    exact h (congrArg some (eq_colon_of_agree ha))

theorem atColon_flagAt? (lit : Text) : AtColon (flagAt? (':' :: lit)) := by
  intro s hs
  rw [flagAt?, afterFold?_colon hs, Option.filter_none]

theorem argument?_colon (h : s.head? ≠ some ':') : argument? (':' :: lit) s = none := by
  rw [argument?, afterFold?_colon h, Option.filter_none, Option.map_none]

theorem atColon_levelAt? : AtColon levelAt? := by
  intro s hs
  rw [levelAt?, show ":level".toList = ':' :: "level".toList from rfl, argument?_colon hs,
    Option.bind_none]

theorem atColon_excludedAt? : AtColon excludedAt? := by
  intro s hs
  rw [excludedAt?, show ":exclude-elements".toList = ':' :: "exclude-elements".toList from rfl,
    argument?_colon hs]
  rfl

end Readers

end Transclusion.Directive
