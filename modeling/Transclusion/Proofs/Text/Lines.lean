import Mathlib.Data.List.Forall2
import Mathlib.Data.List.DropRight
import Transclusion.Text.Blank
import Transclusion.Text.Lines

namespace Transclusion.Text

-- A line with its end.
inductive IsLine : Text → Prop
  | crlf : IsLine ['\r', '\n']
  | ending {c} (hc : isLineEnd c) : IsLine [c]
  | cons {c l} (hc : isLineEnd c = false) (hl : IsLine l) : IsLine (c :: l)

-- No line ends in the text.
def IsFlat (s : Text) : Prop :=
  ∀ c ∈ s, isLineEnd c = false

-- The lines of any text. Only the last one may have no end.
inductive Lined : List Text → Prop
  | nil : Lined []
  | unended {l} (hn : l ≠ []) (hf : IsFlat l) : Lined [l]
  | cons {l ls} (hl : IsLine l) (hs : l.getLast? = some '\r' → ∀ m ∈ ls.head?, m.head? ≠ some '\n')
    (h : Lined ls) : Lined (l :: ls)

-- Lines of which the last ends with a line feed, perhaps after an end of another kind.
inductive Finished : List Text → Prop
  | nil : Finished []
  | last {l} (hl : IsLine l) (he : l.getLast? = some '\n') : Finished [l]
  | doubled {l} (hl : IsLine l) (hr : l.getLast? ≠ some '\r') (hn : l.getLast? ≠ some '\n') :
    Finished [l ++ ['\n']]
  | cons {l m ls} (hl : IsLine l) (hs : l.getLast? = some '\r' → m.head? ≠ some '\n')
    (h : Finished (m :: ls)) : Finished (l :: m :: ls)

variable {l s : Text} {ls ps : List Text}

namespace IsLine

theorem ne_nil (h : IsLine l) : l ≠ [] := by
  cases h <;> exact List.cons_ne_nil _ _

theorem isLineEnd_getLast (h : IsLine l) : ∃ c, l.getLast? = some c ∧ isLineEnd c := by
  induction h
  case crlf         => exact ⟨'\n', rfl, rfl⟩
  case ending c hc  => exact ⟨c, rfl, hc⟩
  case cons c l _ hl hi =>
    have ⟨e, he, hc⟩ := hi
    exact ⟨e, by simp [List.getLast?_cons, he], hc⟩

theorem getLast?_cons (h : IsLine l) (c : Char) : (c :: l).getLast? = l.getLast? := by
  have ⟨e, he, _⟩ := h.isLineEnd_getLast
  simp [List.getLast?_cons, he]

-- A line feed after a carriage return belongs to the same end.
theorem append_newline (h : IsLine l) (hr : l.getLast? = some '\r') : IsLine (l ++ ['\n']) := by
  induction h
  case crlf => cases hr
  case ending c hc =>
    cases hr
    exact .crlf
  case cons c l hc hl hi => exact .cons hc (hi (hl.getLast?_cons c ▸ hr))

end IsLine

section Flat

instance (s : Text) : Decidable (IsFlat s) :=
  List.decidableBAll (fun c => isLineEnd c = false) s

theorem IsFlat.subset {t : Text} (h : IsFlat s) (ht : t ⊆ s) : IsFlat t :=
  fun c hc => h c (ht hc)

theorem isFlat_append {t : Text} : IsFlat (s ++ t) ↔ IsFlat s ∧ IsFlat t :=
  List.forall_mem_append

theorem IsFlat.append_isLine (h : IsFlat s) (hl : IsLine l) : IsLine (s ++ l) := by
  induction s
  case nil         => exact hl
  case cons c s hi =>
    have ⟨hc, hs⟩ := List.forall_mem_cons.mp h
    exact .cons hc (hi hs)

theorem IsFlat.isLine (h : IsFlat s) : IsLine (s ++ ['\n']) :=
  h.append_isLine (.ending rfl)

theorem IsFlat.bare_eq (h : IsFlat s) : bare s = s := by
  refine List.rdropWhile_eq_self_iff.mpr fun hn he => ?_
  have hl := h _ (List.getLast_mem hn)
  simp only [Bool.or_eq_true, beq_iff_eq] at he
  rcases he with he | he <;> rw [he] at hl <;> cases hl

theorem IsFlat.bare_append_newline (h : IsFlat s) : bare (s ++ ['\n']) = s :=
  (List.rdropWhile_concat_pos _ s '\n' rfl).trans h.bare_eq

theorem exists_flat_front (s : Text) :
    ∃ front back, s = front ++ back ∧ IsFlat front ∧ ∀ c ∈ back.head?, isLineEnd c := by
  refine ⟨_, _, (List.takeWhile_append_dropWhile (p := (!isLineEnd ·))).symm, fun c hc => ?_, fun c hc => ?_⟩
  · simpa using List.mem_takeWhile_imp hc
  · have hn := List.head?_dropWhile_not (!isLineEnd ·) s
    rw [Option.mem_def.mp hc] at hn
    simpa using hn

theorem exists_flat_back (s : Text) :
    ∃ front back, s = front ++ back ∧ (∀ c ∈ front.getLast?, isLineEnd c) ∧ IsFlat back := by
  obtain ⟨back, front, hs, hf, he⟩ := exists_flat_front s.reverse
  refine ⟨front.reverse, back.reverse, ?_, by simpa using he, fun c hc => hf c (List.mem_reverse.mp hc)⟩
  rw [←List.reverse_append, ←hs, List.reverse_reverse]

-- Ends of lines that `bare` leaves stay at the end.
theorem IsFlat.exists_bare_append {e : Text} (h : IsFlat s) (he : ∀ c ∈ e, isLineEnd c) :
    ∃ e', bare (s ++ e) = s ++ e' ∧ ∀ c ∈ e', isLineEnd c := by
  rw [bare, List.reverse_append, List.dropWhile_append]
  split
  case isTrue  => exact ⟨[], by rw [List.append_nil]; exact h.bare_eq, List.forall_mem_nil _⟩
  case isFalse =>
    refine ⟨bare e, by rw [List.reverse_append, List.reverse_reverse, bare], fun c hc => ?_⟩
    exact he c ((List.rdropWhile_prefix _ e).subset hc)

end Flat

section Splitting

theorem lines_append (h : IsLine l) (hs : l.getLast? = some '\r' → s.head? ≠ some '\n') :
    lines (l ++ s) = l :: lines s := by
  induction h
  case crlf => simp [lines]
  case ending c hc =>
    rw [List.singleton_append, lines.eq_3, if_pos hc]
    rintro t rfl rfl
    exact hs rfl rfl
  case cons c l hc hl hi =>
    rw [hl.getLast?_cons] at hs
    rw [List.cons_append, lines.eq_3]
    · simp [hc, hi hs]
    · rintro t rfl
      cases hc

theorem lines_of_isLine (h : IsLine l) : lines l = [l] := by
  have hl := lines_append h (s := []) (by simp)
  rwa [List.append_nil] at hl

theorem ne_nil_of_mem_lines {m : Text} (h : m ∈ lines s) : m ≠ [] := by
  fun_induction lines s generalizing m <;> grind

theorem head?_of_head?_lines {m : Text} (h : m ∈ (lines s).head?) : m.head? = s.head? := by
  have hm := ne_nil_of_mem_lines (List.mem_of_mem_head? h)
  have hf := congrArg List.head? (flatten_lines s)
  cases hl : lines s
  case nil => simp [hl] at h
  case cons l ls =>
    simp only [hl, List.head?_cons, Option.mem_some_iff] at h
    subst h
    rwa [hl, List.flatten_cons, List.head?_append_of_ne_nil _ hm] at hf

theorem lined_lines (s : Text) : Lined (lines s) := by
  fun_induction lines s
  case case1 => exact .nil
  case case2 s hi => exact .cons .crlf (by simp) hi
  case case3 c s hn hc hi =>
    refine .cons (.ending hc) (fun hr m hm he => ?_) hi
    rw [head?_of_head?_lines hm] at he
    obtain ⟨t, rfl⟩ := List.head?_eq_some_iff.mp he
    exact hn t (Option.some.inj hr) rfl
  case case4 c s hn hc hl hi =>
    exact .unended (List.cons_ne_nil c []) (by simpa [IsFlat] using hc)
  case case5 c s hn hc m ms hl hi =>
    have hc : isLineEnd c = false := by simpa using hc
    rw [hl] at hi
    cases hi with
    | unended hm hf => exact .unended (List.cons_ne_nil c m) (List.forall_mem_cons.mpr ⟨hc, hf⟩)
    | cons hm hs h  => exact .cons (.cons hc hm) (hm.getLast?_cons c ▸ hs) h

-- Behind the end of a line the text is split as if nothing stood before.
theorem Lined.lines_flatten_append (h : Lined ls) (he : ∀ c ∈ ls.flatten.getLast?, isLineEnd c)
    (hs : ls.flatten.getLast? = some '\r' → s.head? ≠ some '\n') :
    lines (ls.flatten ++ s) = ls ++ lines s := by
  induction h
  case nil => rfl
  case unended l hn hf =>
    rw [List.flatten_singleton, List.getLast?_eq_some_getLast hn] at he
    cases (hf _ (List.getLast_mem hn)).symm.trans (he _ rfl)
  case cons l ls hl hm h hi =>
    cases ls
    case nil =>
      rw [List.flatten_singleton] at hs ⊢
      exact lines_append hl hs
    case cons m ms =>
      have hn : m ≠ [] := by
        cases h with
        | unended hn _ => exact hn
        | cons hl _ _  => exact hl.ne_nil
      have hf : (m :: ms).flatten ≠ [] := List.append_ne_nil_of_left_ne_nil hn _
      rw [List.flatten_cons, List.getLast?_append_of_ne_nil _ hf] at he hs
      rw [List.flatten_cons, List.append_assoc, lines_append hl, hi he hs]
      · rfl
      · rw [List.flatten_cons, List.append_assoc, List.head?_append_of_ne_nil _ hn]
        exact fun hr => hm hr m rfl

theorem lines_append_of_getLast? (he : ∀ c ∈ l.getLast?, isLineEnd c)
    (hs : l.getLast? = some '\r' → s.head? ≠ some '\n') : lines (l ++ s) = lines l ++ lines s := by
  have h := (lined_lines l).lines_flatten_append (s := s)
  rw [flatten_lines] at h
  exact h he hs

theorem lines_of_isFlat (hn : l ≠ []) (hl : IsFlat l) : lines l = [l] := by
  induction l
  case nil => exact absurd rfl hn
  case cons c l hi =>
    have ⟨hc, hs⟩ := List.forall_mem_cons.mp hl
    cases l
    case nil      => simp [lines, hc]
    case cons d l =>
      rw [lines.eq_3, hi (List.cons_ne_nil d l) hs]
      · simp [hc]
      · rintro t rfl
        cases hc

-- A flat text is on one line with the end of line that follows it.
theorem exists_lines_append (hn : l ≠ []) (hl : IsFlat l) (hs : ∀ c ∈ s.head?, isLineEnd c) :
    ∃ e ls, lines (l ++ s) = (l ++ e) :: ls ∧ ∀ c ∈ e, isLineEnd c := by
  cases s
  case nil => exact ⟨[], [], by simp [lines_of_isFlat hn hl], List.forall_mem_nil _⟩
  case cons c s =>
    have hc := hs c rfl
    by_cases hr : c = '\r' ∧ s.head? = some '\n'
    case pos =>
      obtain ⟨rfl, hn⟩ := hr
      obtain ⟨s, rfl⟩ := List.head?_eq_some_iff.mp hn
      refine ⟨['\r', '\n'], lines s, ?_, List.all_eq_true.mp rfl⟩
      rw [show l ++ '\r' :: '\n' :: s = l ++ ['\r', '\n'] ++ s by simp]
      exact lines_append (hl.append_isLine .crlf) (by simp)
    case neg =>
      refine ⟨[c], lines s, ?_, List.forall_mem_singleton.mpr hc⟩
      rw [show l ++ c :: s = l ++ [c] ++ s by simp]
      refine lines_append (hl.append_isLine (.ending hc)) fun he hn => hr ⟨?_, hn⟩
      rw [List.getLast?_concat] at he
      exact Option.some.inj he

-- Between two ends of lines a flat text is a whole line but for its end.
theorem exists_mem_lines {above below : Text} (hn : l ≠ []) (hl : IsFlat l)
    (ha : ∀ c ∈ above.getLast?, isLineEnd c) (hb : ∀ c ∈ below.head?, isLineEnd c) :
    ∃ e, l ++ e ∈ lines (above ++ (l ++ below)) ∧ ∀ c ∈ e, isLineEnd c := by
  obtain ⟨e, ls, hls, he⟩ := exists_lines_append hn hl hb
  have hh : (l ++ below).head? ≠ some '\n' := by
    intro h
    rw [List.head?_append_of_ne_nil _ hn] at h
    cases hl _ (List.mem_of_head? h)
  refine ⟨e, ?_, he⟩
  rw [lines_append_of_getLast? ha fun _ => hh, hls]
  exact List.mem_append_right _ List.mem_cons_self

end Splitting

section LineFeeds

theorem forall_getLast?_append {p : Char → Prop} {t : Text} (hs : ∀ c ∈ s.getLast?, p c)
    (ht : ∀ c ∈ t.getLast?, p c) : ∀ c ∈ (s ++ t).getLast?, p c := by
  intro c hc
  rw [List.getLast?_append, Option.mem_def, Option.or_eq_some_iff] at hc
  rcases hc with hc | ⟨_, hc⟩
  · exact ht c hc
  · exact hs c hc

theorem IsLine.exists_flat (h : IsLine l) (hn : ∀ c ∈ l, isLineEnd c → c = '\n') :
    ∃ s, IsFlat s ∧ l = s ++ ['\n'] := by
  induction h
  case crlf => cases hn '\r' (by simp) rfl
  case ending c hc =>
    cases hn c (by simp) hc
    exact ⟨[], List.forall_mem_nil _, rfl⟩
  case cons c l hc _ hi =>
    obtain ⟨s, hs, rfl⟩ := hi (List.forall_mem_cons.mp hn).right
    exact ⟨c :: s, List.forall_mem_cons.mpr ⟨hc, hs⟩, rfl⟩

-- Where lines end with line feeds only, each stands between two of them.
theorem Lined.exists_flat (h : Lined ls) (hn : ∀ c ∈ ls.flatten, isLineEnd c → c = '\n') (hl : l ∈ ls) :
    ∃ front back, ls.flatten = front ++ bare l ++ back ∧ (∀ c ∈ front.getLast?, c = '\n') ∧
      IsFlat (bare l) ∧ ∀ c ∈ back.head?, c = '\n' := by
  induction h
  case nil => cases hl
  case unended k _ hf =>
    cases List.mem_singleton.mp hl
    rw [hf.bare_eq]
    exact ⟨[], [], by simp, by simp, hf, by simp⟩
  case cons k ks hk _ _ hi =>
    rw [List.flatten_cons] at hn
    have ⟨hnk, hns⟩ := List.forall_mem_append.mp hn
    obtain ⟨s, hs, rfl⟩ := hk.exists_flat hnk
    rcases List.mem_cons.mp hl with rfl | hl
    case inl =>
      refine ⟨[], '\n' :: ks.flatten, ?_, by simp, ?_, by simp⟩
      · simp [hs.bare_append_newline]
      · rwa [hs.bare_append_newline]
    case inr =>
      obtain ⟨front, back, he, hf, hb⟩ := hi hns hl
      exact ⟨s ++ ['\n'] ++ front, back, by simp [he], forall_getLast?_append (by simp) hf, hb⟩

end LineFeeds

section Completing

theorem exists_completed_cons (hl : l ≠ []) (ls : List Text) :
    ∃ m ms, completed (l :: ls) = m :: ms ∧ m.head? = l.head? := by
  cases ls
  case cons k ks => exact ⟨l, completed (k :: ks), rfl, rfl⟩
  case nil =>
    rw [completed]
    split
    · exact ⟨l, [], rfl, rfl⟩
    · exact ⟨l ++ ['\n'], [], rfl, List.head?_append_of_ne_nil _ hl⟩

theorem completed_of_getLast? (h : ∀ l ∈ ls.getLast?, l.getLast? = some '\n') :
    completed ls = ls := by
  fun_induction completed ls
  case case1    => rfl
  case case2    => rfl
  case case3 hl => exact absurd (h _ rfl) hl
  case case4 l ls hn hi =>
    rw [hi]
    cases ls
    case nil  => exact absurd rfl hn
    case cons => exact h

-- Nothing is missing at the end of a text that is empty or ends with a line feed.
theorem completed_lines (h : ∀ c ∈ s.getLast?, c = '\n') : completed (lines s) = lines s := by
  refine completed_of_getLast? fun l hl => ?_
  have hn : l ≠ [] := ne_nil_of_mem_lines (List.mem_of_getLast? hl)
  have ⟨front, hf⟩ := List.getLast?_eq_some_iff.mp hl
  have hs : s.getLast? = l.getLast? := by
    rw [←flatten_lines s, hf, List.flatten_append, List.flatten_singleton,
      List.getLast?_append_of_ne_nil _ hn]
  rw [hs, List.getLast?_eq_some_getLast hn] at h
  rw [List.getLast?_eq_some_getLast hn, h _ rfl]

theorem Lined.finished (h : Lined ls) : Finished (completed ls) := by
  induction h
  case nil => exact .nil
  case unended l hn hf =>
    have hl : l.getLast? ≠ some '\n' := by
      intro he
      cases hf _ (List.mem_of_getLast? he)
    simp only [completed, if_neg hl]
    exact .last hf.isLine (by simp)
  case cons l ls hl hs h hi =>
    cases ls
    case nil =>
      by_cases hn : l.getLast? = some '\n'
      case pos =>
        simp only [completed, if_pos hn]
        exact .last hl hn
      case neg =>
        simp only [completed, if_neg hn]
        by_cases hr : l.getLast? = some '\r'
        case pos => exact .last (hl.append_newline hr) (by simp)
        case neg => exact .doubled hl hr hn
    case cons m ls =>
      have hm : m ≠ [] := by
        cases h with
        | unended hn _  => exact hn
        | cons hl _ _ => exact hl.ne_nil
      have ⟨k, ks, he, hk⟩ := exists_completed_cons hm ls
      rw [completed, he]
      · exact .cons hl (fun hr => hk ▸ hs hr m rfl) (he ▸ hi)
      · simp

end Completing

-- A line that is flat but for its line feed, and has something in it.
def IsFlatLine (p : Text) : Prop :=
  ∃ s, s ≠ [] ∧ IsFlat s ∧ p = s ++ ['\n']

-- A line stays as it is, or a flat one comes in its place.
def IsPiece (l p : Text) : Prop :=
  p = l ∨ IsFlatLine p

-- A flat line has no second end before its line feed.
theorem IsFlatLine.not_doubled {p k s u : Text} (hp : IsFlatLine p) (hk : IsLine k) :
    s ++ p ≠ u ++ (k ++ ['\n']) := by
  obtain ⟨t, hn, hf, rfl⟩ := hp
  intro h
  rw [←List.append_assoc, ←List.append_assoc, List.append_left_inj] at h
  have hg := congrArg List.getLast? h
  have ⟨c, hc, he⟩ := hk.isLineEnd_getLast
  rw [List.getLast?_append_of_ne_nil _ hn, List.getLast?_append_of_ne_nil _ hk.ne_nil, hc] at hg
  cases he.symm.trans (hf c (List.mem_of_getLast? hg))

-- What becomes of lines that are split anew: a last line that ended twice is two lines then.
inductive Resplits : List Text → List Text → Prop
  | same {ks} : Resplits ks ks
  | apart {k} (front : List Text) (hk : IsLine k) (hr : k.getLast? ≠ some '\r')
    (hn : k.getLast? ≠ some '\n') : Resplits (front ++ [k ++ ['\n']]) (front ++ [k, ['\n']])

theorem Resplits.cons (h : Resplits ls ps) (l : Text) : Resplits (l :: ls) (l :: ps) := by
  cases h
  case same                   => exact .same
  case apart k front hk hr hn => exact .apart (l :: front) hk hr hn

namespace Finished

theorem ne_nil (h : Finished (l :: ls)) : l ≠ [] := by
  cases h with
  | last hl _      => exact hl.ne_nil
  | doubled hl _ _ => exact List.append_ne_nil_of_left_ne_nil hl.ne_nil _
  | cons hl _ _    => exact hl.ne_nil

theorem of_pieces (h : Finished ls) (hp : List.Forall₂ IsPiece ls ps) : Finished ps := by
  induction h generalizing ps
  case nil =>
    cases hp
    exact .nil
  case last l hl he =>
    obtain ⟨p, _, h, ⟨⟩, rfl⟩ := List.forall₂_cons_left_iff.mp hp
    rcases h with rfl | ⟨s, _, hf, rfl⟩
    · exact .last hl he
    · exact .last hf.isLine (by simp)
  case doubled l hl hr hn =>
    obtain ⟨p, _, h, ⟨⟩, rfl⟩ := List.forall₂_cons_left_iff.mp hp
    rcases h with rfl | ⟨s, _, hf, rfl⟩
    · exact .doubled hl hr hn
    · exact .last hf.isLine (by simp)
  case cons l m ls hl hs _ hi =>
    obtain ⟨p, ps, h, ht, rfl⟩ := List.forall₂_cons_left_iff.mp hp
    have hf := hi ht
    obtain ⟨q, qs, hq, _, rfl⟩ := List.forall₂_cons_left_iff.mp ht
    rcases h with rfl | ⟨s, _, hfs, rfl⟩
    case inr => exact .cons hfs.isLine (by simp) hf
    case inl =>
      refine .cons hl (fun hr => ?_) hf
      rcases hq with rfl | ⟨t, hn, hft, rfl⟩
      · exact hs hr
      · rw [List.head?_append_of_ne_nil _ hn]
        intro he
        cases hft _ (List.mem_of_head? he)

theorem resplits (h : Finished ls) : Resplits ls (completed (lines ls.flatten)) := by
  induction h
  case nil => exact .same
  case last l hl he =>
    rw [List.flatten_singleton, lines_of_isLine hl, completed, if_pos he]
    exact .same
  case doubled l hl hr hn =>
    rw [List.flatten_singleton, lines_append hl (fun h => absurd h hr)]
    exact .apart [] hl hr hn
  case cons l m ls hl hs h hi =>
    rw [List.flatten_cons, lines_append hl]
    · have hn : lines (m :: ls).flatten ≠ [] := by
        intro he
        have hf := congrArg List.flatten he
        rw [flatten_lines] at hf
        exact h.ne_nil (List.flatten_eq_nil_iff.mp hf m List.mem_cons_self)
      obtain ⟨k, ks, hk⟩ := List.exists_cons_of_ne_nil hn
      rw [hk] at hi ⊢
      exact hi.cons l
    · intro hr
      rw [List.flatten_cons, List.head?_append_of_ne_nil _ h.ne_nil]
      exact hs hr

section Parts

variable {k : Text} {ks : List Text}

theorem of_append (h : Finished (ls ++ ks)) : Finished ks := by
  induction ls
  case nil => exact h
  case cons l ls hi =>
    refine hi ?_
    rw [List.cons_append] at h
    generalize ls ++ ks = ms at h
    cases h with
    | last | doubled => exact .nil
    | cons _ _ h     => exact h

theorem getLast? (h : Finished ls) : ∀ c ∈ ls.flatten.getLast?, c = '\n' := by
  induction h
  case nil     => simp
  case last he => simp [he]
  case doubled => simp
  case cons h hi =>
    rwa [List.flatten_cons, List.getLast?_append_of_ne_nil]
    exact List.append_ne_nil_of_left_ne_nil h.ne_nil _

-- Lines that others follow are split off as they are.
theorem lines_flatten_append (h : Finished (ls ++ k :: ks)) (hs : ∀ c ∈ s.head?, k.head? = some c) :
    lines (ls.flatten ++ s) = ls ++ lines s := by
  induction ls
  case nil => rfl
  case cons l ls hi =>
    have hi := hi (of_append (show Finished ([l] ++ _) from h))
    rw [List.flatten_cons, List.append_assoc, lines_append, hi, List.cons_append]
    · cases ls <;> cases h <;> assumption
    · intro hr he
      cases ls with
      | nil =>
        cases h with
        | cons _ hm _ => exact hm hr (hs _ he)
      | cons m ls =>
        cases h with
        | cons _ hm h =>
          rw [List.flatten_cons, List.append_assoc, List.head?_append_of_ne_nil _ h.ne_nil] at he
          exact hm hr he

theorem lines_flatten (h : Finished (ls ++ k :: ks)) : lines ls.flatten = ls := by
  have hl := h.lines_flatten_append (s := []) (by simp)
  rwa [List.append_nil, lines, List.append_nil] at hl

-- Two parts that follow each other are split as both together.
theorem lines_parts {ms : List Text} (h : Finished (ls ++ ks ++ ms)) :
    lines (ls ++ ks).flatten = lines ls.flatten ++ lines ks.flatten := by
  cases ks
  case nil => simp [lines]
  case cons k ks =>
    rw [List.append_assoc] at h
    have hk : k ≠ [] := h.of_append.ne_nil
    rw [List.flatten_append, h.lines_flatten_append, h.lines_flatten]
    intro c hc
    rwa [List.flatten_cons, List.head?_append_of_ne_nil _ hk] at hc

theorem resplits_front (h : Finished (ls ++ ks)) : Resplits ls (lines ls.flatten) := by
  cases ks
  case nil =>
    rw [List.append_nil] at h
    exact completed_lines h.getLast? ▸ h.resplits
  case cons =>
    rw [h.lines_flatten]
    exact .same

end Parts

end Finished

end Transclusion.Text
