import Transclusion.Outline.Heading
import Transclusion.Proofs.Text.Blank

namespace Transclusion.Headline

open Text

variable {l r s t w front : Text} {ts : List Text} {c : Char} {h : Headline}

section Todo

-- A TODO word, and behind it a blank or nothing.
def StartsTodo (s : Text) : Prop :=
  ∃ w ∈ todoWords, ∃ t, s = w ++ t ∧ t.head?.all isBlank

-- No TODO word starts like the other.
theorem findTodo_iff :
    (todoWords.findSome? fun w => (after? w s).map (w, ·)) = some (w, t) ↔
      w ∈ todoWords ∧ s = w ++ t := by
  constructor
  case mp =>
    intro h
    obtain ⟨v, hv, hr⟩ := List.exists_of_findSome?_eq_some h
    obtain ⟨u, hu, he⟩ := Option.map_eq_some_iff.mp hr
    cases he
    exact ⟨hv, after?_eq_some_iff.mp hu⟩
  case mpr =>
    rintro ⟨hw, rfl⟩
    simp only [todoWords, List.mem_cons, List.not_mem_nil, or_false] at hw
    rcases hw with rfl | rfl <;> simp [todoWords, after?]

theorem takeTodo_append (hw : w ∈ todoWords) (ht : t.head?.all isBlank) :
    takeTodo (w ++ t) = (some w, trimStart t) := by
  rw [takeTodo, findTodo_iff.mpr ⟨hw, rfl⟩]
  exact if_pos ht

theorem takeTodo_of_not (h : ¬StartsTodo s) : takeTodo s = (none, s) := by
  rw [takeTodo]
  split
  case h_2 => rfl
  case h_1 w t hf =>
    obtain ⟨hw, hs⟩ := findTodo_iff.mp hf
    exact if_neg fun ht => h ⟨w, hw, t, hs, ht⟩

theorem takeTodo_cases (s : Text) :
    takeTodo s = (none, s) ∧ ¬StartsTodo s ∨
      ∃ w ∈ todoWords, ∃ t, s = w ++ t ∧ takeTodo s = (some w, trimStart t) := by
  by_cases h : StartsTodo s
  case neg => exact .inl ⟨takeTodo_of_not h, h⟩
  case pos =>
    obtain ⟨w, hw, t, rfl, ht⟩ := h
    exact .inr ⟨w, hw, t, rfl, takeTodo_append hw ht⟩

-- What is left is the end of the text.
theorem takeTodo_suffix (s : Text) : (takeTodo s).2 <:+ s := by
  obtain ⟨he, _⟩ | ⟨w, _, t, rfl, he⟩ := takeTodo_cases s
  · exact he ▸ List.suffix_refl s
  · rw [he]
    exact (List.dropWhile_suffix _).trans (List.suffix_append w t)

theorem mem_todoWords_of_mem_takeTodo (s : Text) : ∀ w ∈ (takeTodo s).1, w ∈ todoWords := by
  obtain ⟨he, _⟩ | ⟨w, hw, _, _, he⟩ := takeTodo_cases s <;> rw [he]
  case inl => simp
  case inr => simpa using hw

theorem trimStart_takeTodo (h : (takeTodo s).1 ≠ none) : trimStart (takeTodo s).2 = (takeTodo s).2 := by
  obtain ⟨he, _⟩ | ⟨_, _, t, _, he⟩ := takeTodo_cases s <;> rw [he] at h ⊢
  case inl => cases h rfl
  case inr => exact trimStart_of_head? (head?_trimStart t)

end Todo

section Priority

-- A letter or digit in its brackets, whatever follows.
def StartsPriority (s : Text) : Prop :=
  ∃ c t, s = '[' :: '#' :: c :: ']' :: t ∧ c.isAlphanum

theorem takePriority_cons (hc : c.isAlphanum) (t : Text) :
    takePriority ('[' :: '#' :: c :: ']' :: t) = (some [c], trimStart t) := by
  rw [takePriority, if_pos hc]

theorem takePriority_of_not (h : ¬StartsPriority s) : takePriority s = (none, s) := by
  rw [takePriority.eq_def]
  split
  case h_2     => rfl
  case h_1 c t => exact if_neg fun hc => h ⟨c, t, rfl, hc⟩

theorem takePriority_cases (s : Text) :
    takePriority s = (none, s) ∧ ¬StartsPriority s ∨
      ∃ c t, c.isAlphanum ∧ s = '[' :: '#' :: c :: ']' :: t ∧
        takePriority s = (some [c], trimStart t) := by
  by_cases h : StartsPriority s
  case neg => exact .inl ⟨takePriority_of_not h, h⟩
  case pos =>
    obtain ⟨c, t, rfl, hc⟩ := h
    exact .inr ⟨c, t, hc, rfl, takePriority_cons hc t⟩

theorem takePriority_suffix (s : Text) : (takePriority s).2 <:+ s := by
  obtain ⟨he, _⟩ | ⟨c, t, _, rfl, he⟩ := takePriority_cases s
  · exact he ▸ List.suffix_refl s
  · rw [he]
    exact (List.dropWhile_suffix _).trans (List.suffix_append ['[', '#', c, ']'] t)

theorem isAlphanum_of_mem_takePriority (s : Text) :
    ∀ p ∈ (takePriority s).1, ∃ c, p = [c] ∧ c.isAlphanum := by
  obtain ⟨he, _⟩ | ⟨c, _, hc, _, he⟩ := takePriority_cases s <;> rw [he]
  case inl => simp
  case inr => simpa using hc

theorem takePriority_of_eq_none (h : (takePriority s).1 = none) :
    (takePriority s).2 = s ∧ ¬StartsPriority s := by
  obtain ⟨he, hn⟩ | ⟨_, _, _, _, he⟩ := takePriority_cases s <;> rw [he] at h ⊢
  case inl => exact ⟨rfl, hn⟩
  case inr => cases h

end Priority

section Tags

-- Tags as one word.
def tagWord (ts : List Text) : Text :=
  ':' :: (List.intercalate [':'] ts ++ [':'])

theorem not_isBlank_of_isTagChar (h : isTagChar c) : isBlank c = false := by
  simp only [isTagChar, Bool.or_eq_true, beq_iff_eq] at h
  rcases h with ((h | rfl) | rfl) | rfl
  · exact not_isBlank_of_isWord h
  all_goals decide

theorem isTagChar_of_mem (h : isTag t) : ∀ c ∈ t, isTagChar c := by
  rw [isTag, Bool.and_eq_true, List.all_eq_true] at h
  exact h.right

theorem isSolid_tagWord (h : ∀ t ∈ ts, isTag t) : IsSolid (tagWord ts) := by
  have hc : isBlank ':' = false := by decide
  refine List.forall_mem_cons.mpr ⟨hc, List.forall_mem_append.mpr ⟨?_, by simpa using hc⟩⟩
  exact forall_mem_intercalate (by simpa using hc) fun t ht c hm =>
    not_isBlank_of_isTagChar (isTagChar_of_mem (h t ht) c hm)

theorem tags?_tagWord (hn : ts ≠ []) (h : ∀ t ∈ ts, isTag t) : tags? (tagWord ts) = some ts := by
  have hc : ∀ t ∈ ts, ':' ∉ t := fun t ht hm =>
    absurd (isTagChar_of_mem (h t ht) _ hm) (by decide)
  have hp : pieces ':' (tagWord ts) = [] :: (ts ++ [[]]) := by
    rw [tagWord, pieces, if_pos rfl, pieces_concat, pieces_intercalate hc hn]
  rw [tags?, hp]
  simpa [hn] using h

theorem spec_of_tags? (h : tags? s = some ts) : ts ≠ [] ∧ ∀ t ∈ ts, isTag t := by
  rw [tags?] at h
  split at h
  case h_2 => cases h
  case h_1 =>
    split at h
    case isFalse => cases h
    case isTrue hu =>
      cases h
      exact ⟨hu.right.left, List.all_eq_true.mp hu.right.right⟩

-- Only the last word can be tags.
theorem takeTags_append (hw : IsSolid w) (hf : ∀ c ∈ front.getLast?, isBlank c) :
    takeTags (front ++ w) = (tags? w).elim (front ++ w, []) (front, ·) := by
  have hp : ∀ c ∈ w.reverse, (!isBlank c) = true := by simpa [IsSolid] using hw
  have hr : ∀ c ∈ front.reverse.head?, (!isBlank c) = false := by simpa using hf
  rw [takeTags, List.reverse_append, takeWhile_append_of_head? hp hr, dropWhile_append_of_head? hp hr,
    List.reverse_reverse, List.reverse_reverse]
  cases tags? w <;> rfl

theorem takeTags_append_tagWord (hn : ts ≠ []) (h : ∀ t ∈ ts, isTag t) (hf : ∀ c ∈ front.getLast?, isBlank c) :
    takeTags (front ++ tagWord ts) = (front, ts) := by
  rw [takeTags_append (isSolid_tagWord h) hf, tags?_tagWord hn h]
  rfl

theorem exists_lastWord (s : Text) :
    ∃ front w, s = front ++ w ∧ IsSolid w ∧ ∀ c ∈ front.getLast?, isBlank c := by
  refine ⟨s.rdropWhile (!isBlank ·), s.rtakeWhile (!isBlank ·), List.rdropWhile_append_rtakeWhile.symm,
    fun c hc => ?_, fun c hc => ?_⟩
  · simpa using List.mem_rtakeWhile_imp hc
  · obtain ⟨hn, rfl⟩ := List.mem_getLast?_eq_getLast hc
    simpa using List.rdropWhile_last_not _ _ hn

theorem takeTags_prefix (s : Text) : (takeTags s).1 <+: s := by
  rw [takeTags]
  split
  case h_1 => exact List.rdropWhile_prefix _ s
  case h_2 => exact List.prefix_rfl

theorem isTag_of_mem_takeTags (s : Text) : ∀ t ∈ (takeTags s).2, isTag t := by
  rw [takeTags]
  split
  case h_1 ht => exact (spec_of_tags? ht).right
  case h_2    => simp

end Tags

section Lines

def isMarginChar (c : Char) : Bool :=
  c == ' ' || c == '\t'

theorem isBlank_of_isMarginChar (h : isMarginChar c) : isBlank c := by
  simp only [isMarginChar, Bool.or_eq_true, beq_iff_eq] at h
  rcases h with rfl | rfl <;> rfl

-- Spaces and tabs, at least one.
def IsMargin (s : Text) : Prop :=
  s ≠ [] ∧ ∀ c ∈ s, isMarginChar c

theorem ofLine?_eq (l : Text) :
    ofLine? l =
      if (l.takeWhile (· == '*')).isEmpty || !(l.dropWhile (· == '*')).head?.any isMarginChar then none
      else if (trimEnd ((l.dropWhile (· == '*')).dropWhile isMarginChar)).contains '\n' then none
      else some (ofBody (l.takeWhile (· == '*')).length
        (trimEnd ((l.dropWhile (· == '*')).dropWhile isMarginChar))) := rfl

theorem ofBody_eq (n : Nat) (s : Text) :
    ofBody n s =
      { stars    := n
        todo     := (takeTodo s).1
        priority := (takePriority (takeTodo s).2).1
        title    := given (some (trim (takeTags (takePriority (takeTodo s).2).2).1))
        tags     := (takeTags (takePriority (takeTodo s).2).2).2 } := rfl

theorem not_star_of_isMargin (hm : IsMargin s) (t : Text) : ∀ c ∈ (s ++ t).head?, (c == '*') = false := by
  obtain ⟨c, s, rfl⟩ := List.exists_cons_of_ne_nil hm.left
  rintro _ ⟨⟩
  have hc := hm.right c List.mem_cons_self
  simp only [isMarginChar, Bool.or_eq_true, beq_iff_eq] at hc
  rcases hc with rfl | rfl <;> rfl

-- How a headline comes of its line.
theorem exists_parts_of_ofLine? (hl : ofLine? l = some h) :
    ∃ n margin r, 0 < n ∧ l = List.replicate n '*' ++ (margin ++ r) ∧ IsMargin margin ∧
      (∀ c ∈ r.head?, isMarginChar c = false) ∧ '\n' ∉ trimEnd r ∧ h = ofBody n (trimEnd r) := by
  rw [ofLine?_eq] at hl
  split at hl
  case isTrue => cases hl
  case isFalse hn =>
    simp only [Bool.or_eq_true, not_or, List.isEmpty_iff, Bool.not_eq_true', Bool.not_eq_false] at hn
    obtain ⟨hs, hm⟩ := hn
    split at hl
    case isTrue => cases hl
    case isFalse hb =>
      refine ⟨_, (l.dropWhile (· == '*')).takeWhile isMarginChar, _, List.length_pos_of_ne_nil hs,
        ?line, ⟨?ne, fun _ => List.mem_takeWhile_imp⟩, ?rest, by simpa using hb,
        (Option.some.inj hl).symm⟩
      case line =>
        rw [List.takeWhile_append_dropWhile, ←List.eq_replicate_of_mem, List.takeWhile_append_dropWhile]
        intro c hc
        simpa using List.mem_takeWhile_imp hc
      case ne =>
        obtain ⟨c, hc, hp⟩ := (Option.any_eq_true _ _).mp hm
        obtain ⟨r, hr⟩ := List.head?_eq_some_iff.mp hc
        rw [hr, List.takeWhile_cons_of_pos hp]
        exact List.cons_ne_nil _ _
      case rest =>
        intro c hc
        have hd := List.head?_dropWhile_not isMarginChar (l.dropWhile (· == '*'))
        rw [Option.mem_def.mp hc] at hd
        simpa using hd

theorem ofLine?_append {n : Nat} {margin : Text} (hn : 0 < n) (hm : IsMargin margin)
    (hr : ∀ c ∈ r.head?, isMarginChar c = false) (hb : '\n' ∉ trimEnd r) :
    ofLine? (List.replicate n '*' ++ (margin ++ r)) = some (ofBody n (trimEnd r)) := by
  have hs : ∀ c ∈ List.replicate n '*', (c == '*') = true := by simp
  have hh := not_star_of_isMargin hm r
  have ha : (margin ++ r).head?.any isMarginChar := by
    obtain ⟨c, s, rfl⟩ := List.exists_cons_of_ne_nil hm.left
    exact hm.right c List.mem_cons_self
  have hz : (List.replicate n '*').isEmpty = false := by
    rw [List.isEmpty_eq_false_iff]
    exact List.ne_nil_of_length_pos (by simpa using hn)
  simp only [ofLine?_eq, takeWhile_append_of_head? hs hh, dropWhile_append_of_head? hs hh, ha, hz,
    dropWhile_append_of_head? hm.right hr, List.length_replicate]
  simpa using hb

end Lines

end Transclusion.Headline
