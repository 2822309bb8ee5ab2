import Transclusion.Text.Digit
import Transclusion.Text.Word
import Transclusion.Proofs.Text.Lines
import Transclusion.Proofs.Text.Pieces

namespace Transclusion.Text

variable {c : Char} {s t : Text}

section Codes

-- What holds of each character below a code holds of all that are below it.
theorem forall_of_toNat_lt {b : Nat} {p : Char → Prop} (hp : ∀ n < b, p (Char.ofNat n))
    (h : c.toNat < b) : p c := by
  have hc := hp c.toNat h
  rwa [Char.ofNat_toNat] at hc

def blankCodes : List Nat :=
  blankRanges.flatMap fun r => List.range' r.1 (r.2 - r.1 + 1)

theorem mem_blankCodes (h : isBlank c) : c.toNat ∈ blankCodes := by
  have ⟨r, hr, hl, hu⟩ := Ranges.mem_of_holds h
  exact List.mem_flatMap.mpr ⟨r, hr, List.mem_range'_1.mpr (by omega)⟩

-- What holds of each of the few blanks holds of all.
theorem forall_isBlank {p : Char → Prop} (hp : ∀ n ∈ blankCodes, p (Char.ofNat n)) (h : isBlank c) :
    p c := by
  have hc := hp _ (mem_blankCodes h)
  rwa [Char.ofNat_toNat] at hc

-- A class of characters that has no blank.
theorem not_isBlank_of {f : Char → Bool} (hf : ∀ c, isBlank c → f c = false) (h : f c) :
    isBlank c = false := by
  cases hb : isBlank c
  case false => rfl
  case true  => cases h.symm.trans (hf c hb)

theorem isDigit_of_isBlank (h : isBlank c) : isDigit c = false :=
  forall_isBlank (p := (isDigit · = false)) (by decide) h

theorem not_isBlank_of_isDigit (h : isDigit c) : isBlank c = false :=
  not_isBlank_of (fun _ => isDigit_of_isBlank) h

theorem isWord_of_isBlank (h : isBlank c) : isWord c = false :=
  forall_isBlank (p := (isWord · = false)) (by decide +kernel) h

theorem not_isBlank_of_isWord (h : isWord c) : isBlank c = false :=
  not_isBlank_of (fun _ => isWord_of_isBlank) h

end Codes

-- No blank is in it.
def IsSolid (s : Text) : Prop :=
  ∀ c ∈ s, isBlank c = false

-- Only the text is gone through, not all characters that there are.
instance (s : Text) : Decidable (IsSolid s) :=
  List.decidableBAll (fun c => isBlank c = false) s

theorem isBlank_of_isLineEnd (h : isLineEnd c) : isBlank c := by
  simp only [isLineEnd, Bool.or_eq_true, Bool.and_eq_true, decide_eq_true_eq, beq_iff_eq] at h
  simp only [isBlank, Ranges.has, blankRanges, Ranges.holds]
  grind

theorem IsSolid.isFlat (h : IsSolid s) : IsFlat s := by
  intro c hc
  cases he : isLineEnd c
  case false => rfl
  case true  => cases (isBlank_of_isLineEnd he).symm.trans (h c hc)

section Trimming

theorem trimStart_cons_of_not_isBlank (h : isBlank c = false) (s : Text) : trimStart (c :: s) = c :: s :=
  List.dropWhile_cons_of_neg (by simp [h])

theorem trimStart_cons_of_isBlank (h : isBlank c) (s : Text) : trimStart (c :: s) = trimStart s :=
  List.dropWhile_cons_of_pos h

theorem trim_cons_of_isBlank (h : isBlank c) (s : Text) : trim (c :: s) = trim s := by
  rw [trim, trimStart_cons_of_isBlank h, trim]

theorem head?_trimStart (s : Text) : ∀ c ∈ (trimStart s).head?, isBlank c = false := by
  intro c hc
  have hb := List.head?_dropWhile_not isBlank s
  rw [show (s.dropWhile isBlank).head? = some c from hc] at hb
  simpa using hb

theorem getLast?_trimEnd (s : Text) : ∀ c ∈ (trimEnd s).getLast?, isBlank c = false := by
  intro c hc
  rw [trimEnd, List.getLast?_reverse] at hc
  exact head?_trimStart s.reverse c hc

theorem trimStart_of_head? (h : ∀ c ∈ s.head?, isBlank c = false) : trimStart s = s := by
  cases s
  case nil      => rfl
  case cons c s => exact trimStart_cons_of_not_isBlank (h c rfl) s

theorem trimEnd_of_getLast? (h : ∀ c ∈ s.getLast?, isBlank c = false) : trimEnd s = s := by
  refine List.rdropWhile_eq_self_iff.mpr fun hn => ?_
  simp [h _ (List.getLast?_eq_some_getLast hn)]

theorem trim_isInfix (s : Text) : trim s <:+: s :=
  (List.rdropWhile_prefix _ _).isInfix.trans (List.dropWhile_suffix _).isInfix

theorem trim_sublist (s : Text) : (trim s).Sublist s :=
  (trim_isInfix s).sublist

theorem trimStart_trim (s : Text) : trimStart (trim s) = trim s := by
  refine trimStart_of_head? fun c hc => ?_
  -- The first character is the first that is left when the start is trimmed.
  have ⟨q, hq⟩ := List.rdropWhile_prefix isBlank (trimStart s)
  refine head?_trimStart s c ?_
  rw [←hq, List.head?_append, show (List.rdropWhile isBlank (trimStart s)).head? = some c from hc]
  rfl

theorem trim_trim (s : Text) : trim (trim s) = trim s := by
  rw [trim, trimStart_trim]
  exact List.rdropWhile_idempotent ..

-- Nothing is trimmed iff no blank is at either end.
theorem trim_eq_self_iff :
    trim s = s ↔ (∀ c ∈ s.head?, isBlank c = false) ∧ ∀ c ∈ s.getLast?, isBlank c = false := by
  constructor
  case mp =>
    intro h
    refine ⟨fun c hc => ?_, fun c hc => ?_⟩
    · rw [←h, ←trimStart_trim] at hc
      exact head?_trimStart _ c hc
    · rw [←h] at hc
      exact getLast?_trimEnd _ c hc
  case mpr =>
    rintro ⟨hh, hl⟩
    rw [trim, trimStart_of_head? hh, trimEnd_of_getLast? hl]

-- What starts with no blank is trimmed at its end only.
theorem trim_prefix (hs : trimStart s = s) (ht : t <+: s) : trim t <+: t := by
  have hh : ∀ c ∈ t.head?, isBlank c = false := by
    intro c hc
    obtain ⟨r, rfl⟩ := ht
    refine head?_trimStart (t ++ r) c ?_
    rw [hs, List.head?_append, show t.head? = some c from hc]
    rfl
  rw [trim, trimStart_of_head? hh]
  exact List.rdropWhile_prefix isBlank t

theorem trimEnd_append (h : isAllBlank t) : trimEnd (s ++ t) = trimEnd s := by
  simp only [isAllBlank, List.all_eq_true] at h
  rw [trimEnd, List.reverse_append, List.dropWhile_append_of_pos (by simpa using h), trimEnd]

-- Blanks around a text are trimmed with its own.
theorem trim_append (hs : isAllBlank s) (ht : isAllBlank t) (m : Text) :
    trim (s ++ m ++ t) = trim m := by
  simp only [isAllBlank, List.all_eq_true] at hs ht
  have hm : trimStart (s ++ m ++ t) = if (trimStart m).isEmpty then [] else trimStart m ++ t := by
    rw [trimStart, List.append_assoc, List.dropWhile_append_of_pos hs, List.dropWhile_append,
      List.dropWhile_eq_nil_iff.mpr ht, trimStart]
  rw [trim, hm, trim]
  split
  case isTrue h  => rw [List.isEmpty_iff.mp h]
  case isFalse h => rw [trimEnd_append (by simpa [isAllBlank] using ht)]

theorem trim_eq_nil_iff : trim s = [] ↔ isAllBlank s := by
  simp only [isAllBlank, List.all_eq_true]
  constructor
  case mpr =>
    intro h
    rw [trim, trimStart, List.dropWhile_eq_nil_iff.mpr h, trimEnd_nil]
  case mp =>
    intro h
    have hs := List.rdropWhile_eq_nil_iff.mp h
    cases hd : trimStart s
    case nil => exact List.dropWhile_eq_nil_iff.mp hd
    case cons c r =>
      have hb := head?_trimStart s c (by rw [hd]; rfl)
      cases (hs c (hd ▸ List.mem_cons_self)).symm.trans hb

theorem trim_trimEnd (s : Text) : trim (trimEnd s) = trim s := by
  have hs : trimEnd s ++ s.rtakeWhile isBlank = s := List.rdropWhile_append_rtakeWhile
  have ht : isAllBlank (s.rtakeWhile isBlank) := List.all_eq_true.mpr fun _ => List.mem_rtakeWhile_imp
  have ha := trim_append (s := []) rfl ht (trimEnd s)
  rw [List.nil_append, hs] at ha
  exact ha.symm

theorem forall_getLast?_of_suffix {p : Char → Prop} (hs : ∀ c ∈ s.getLast?, p c) (ht : t <:+ s) :
    ∀ c ∈ t.getLast?, p c := by
  obtain ⟨r, rfl⟩ := ht
  intro c hc
  refine hs c ?_
  rw [List.getLast?_append, Option.mem_def.mp hc]
  rfl

theorem exists_trimStart (s : Text) : ∃ lead, isAllBlank lead ∧ s = lead ++ trimStart s :=
  ⟨s.takeWhile isBlank, List.all_eq_true.mpr fun _ => List.mem_takeWhile_imp,
    List.takeWhile_append_dropWhile.symm⟩

theorem exists_trim (s : Text) :
    ∃ lead trail, isAllBlank lead ∧ isAllBlank trail ∧ s = lead ++ trim s ++ trail := by
  refine ⟨s.takeWhile isBlank, (trimStart s).rtakeWhile isBlank, ?_, ?_, ?_⟩
  · exact List.all_eq_true.mpr fun _ => List.mem_takeWhile_imp
  · exact List.all_eq_true.mpr fun _ => List.mem_rtakeWhile_imp
  · have he : trim s ++ (trimStart s).rtakeWhile isBlank = trimStart s :=
      List.rdropWhile_append_rtakeWhile
    rw [List.append_assoc, he]
    exact List.takeWhile_append_dropWhile.symm

end Trimming

section Words

-- A word is read up to its end, and not over it.
theorem exists_of_append_eq_append {p u : Text} (hp : IsSolid p) (hs : s.head?.all isBlank)
    (h : t ++ s = p ++ u) : ∃ r, t = p ++ r ∧ u = r ++ s := by
  obtain ⟨r, rfl, rfl⟩ | ⟨r, rfl, rfl⟩ := List.append_eq_append_iff.mp h
  case inr => exact ⟨r, rfl, rfl⟩
  case inl =>
    cases r
    case nil      => exact ⟨[], by simp, rfl⟩
    case cons c r => cases (hp c (by simp)).symm.trans hs

theorem exists_of_append_eq_word {p u : Text} (hp : IsSolid p) (hn : t ≠ []) (ht : ∀ c ∈ t.getLast?, isBlank c)
    (h : t ++ s = p ++ u) : ∃ r, t = p ++ r ∧ r ≠ [] ∧ u = r ++ s := by
  obtain ⟨q, b, rfl⟩ := List.eq_nil_or_concat' t |>.resolve_left hn
  have hb : isBlank b := ht b List.getLast?_concat
  rw [List.append_assoc, List.singleton_append] at h
  obtain ⟨r, rfl, rfl⟩ := exists_of_append_eq_append (s := b :: s) hp hb h
  exact ⟨r ++ [b], by simp, by simp, by simp⟩

-- Blanks are read up to what is no blank, and not over it.
theorem exists_of_append_eq_blanks {p u : Text} (hp : isAllBlank p) (hs : ∀ c ∈ s.head?, isBlank c = false)
    (h : t ++ s = p ++ u) : ∃ r, t = p ++ r ∧ u = r ++ s := by
  obtain ⟨r, rfl, rfl⟩ | ⟨r, rfl, rfl⟩ := List.append_eq_append_iff.mp h
  case inr => exact ⟨r, rfl, rfl⟩
  case inl =>
    cases r
    case nil      => exact ⟨[], by simp, rfl⟩
    case cons c r =>
      have hc : isBlank c := List.all_eq_true.mp hp c (by simp)
      cases (hs c rfl).symm.trans hc

theorem trimStart_append_of_isSolid (ht : IsSolid t) (s : Text) : trimStart (s ++ t) = trimStart s ++ t := by
  have hh : trimStart t = t := trimStart_of_head? fun c hc => ht c (List.mem_of_mem_head? hc)
  rw [trimStart, List.dropWhile_append]
  split
  case isTrue he  => rw [trimStart, List.isEmpty_iff.mp he]; exact hh
  case isFalse he => rfl

theorem forall_mem_intercalate {p : Char → Prop} {sep : Text} {ws : List Text} (hs : ∀ c ∈ sep, p c)
    (h : ∀ w ∈ ws, ∀ c ∈ w, p c) : ∀ c ∈ List.intercalate sep ws, p c := by
  induction ws
  case nil => simp
  case cons w ws hi =>
    obtain ⟨hw, hws⟩ := List.forall_mem_cons.mp h
    cases ws
    case nil => simpa using hw
    case cons v vs =>
      rw [List.intercalate_cons_cons]
      exact List.forall_mem_append.mpr ⟨List.forall_mem_append.mpr ⟨hw, hs⟩, hi hws⟩

theorem not_mem_intercalate {sep : Text} {ws : List Text} (hs : c ∉ sep) (h : ∀ w ∈ ws, c ∉ w) :
    c ∉ List.intercalate sep ws := by
  have hc : ∀ a ∈ List.intercalate sep ws, a ≠ c :=
    forall_mem_intercalate (fun _ ha he => hs (he ▸ ha)) fun w hw _ ha he => h w hw (he ▸ ha)
  exact fun hm => hc c hm rfl

theorem words_nil : words [] = [] := by
  rw [words.eq_def]
  rfl

theorem words_cons_of_isBlank (h : isBlank c) (s : Text) : words (c :: s) = words s := by
  rw [words.eq_def, words.eq_def, trimStart_cons_of_isBlank h]

-- A word ends where a blank stands.
theorem words_append (hs : s ≠ []) (hb : IsSolid s) (ht : ∀ c ∈ t.head?, isBlank c) :
    words (s ++ t) = s :: words t := by
  have hp : ∀ c ∈ s, (!isBlank c) = true := by simpa [IsSolid] using hb
  have hr : trimStart (s ++ t) = s ++ t := by
    obtain ⟨c, s, rfl⟩ := List.exists_cons_of_ne_nil hs
    exact trimStart_cons_of_not_isBlank (hb c List.mem_cons_self) _
  have ht' : ∀ c ∈ t.head?, (!isBlank c) = false := by simpa using ht
  rw [words.eq_def]
  split
  case h_1 h =>
    rw [hr] at h
    exact absurd (List.append_eq_nil_iff.mp h).left hs
  case h_2 c r h =>
    rw [hr] at h
    rw [←h, takeWhile_append_of_head? hp ht', dropWhile_append_of_head? hp ht']

theorem words_intercalate {ws : List Text} (h : ∀ w ∈ ws, w ≠ [] ∧ IsSolid w) :
    words (List.intercalate [' '] ws) = ws := by
  induction ws
  case nil => exact words_nil
  case cons w ws hi =>
    have ⟨⟨hn, hb⟩, hs⟩ := List.forall_mem_cons.mp h
    cases ws
    case nil =>
      have hw := words_append (t := []) hn hb (by simp)
      rw [List.append_nil, words_nil] at hw
      rwa [List.intercalate_singleton]
    case cons v ws =>
      have hc : isBlank ' ' := by decide
      rw [List.intercalate_cons_cons, List.append_assoc, words_append hn hb (by simpa using hc),
        List.singleton_append, words_cons_of_isBlank hc, hi hs]

end Words

-- The ends of lines in it are among blanks at its own end.
def IsSmooth (s : Text) : Prop :=
  ∃ front rest, s = front ++ rest ∧ IsFlat front ∧ isAllBlank rest

namespace IsSmooth

theorem sublist (h : IsSmooth s) (ht : t.Sublist s) : IsSmooth t := by
  obtain ⟨front, rest, rfl, hf, hr⟩ := h
  obtain ⟨a, b, rfl, ha, hb⟩ := List.sublist_append_iff.mp ht
  simp only [isAllBlank, List.all_eq_true] at hr
  refine ⟨a, b, rfl, hf.subset ha.subset, ?_⟩
  simp only [isAllBlank, List.all_eq_true]
  exact fun c hc => hr c (hb.subset hc)

theorem bare (h : IsSmooth s) : IsSmooth (bare s) :=
  h.sublist (List.rdropWhile_prefix _ s).sublist

theorem isFlat_trimEnd (h : IsSmooth s) : IsFlat (trimEnd s) := by
  obtain ⟨front, rest, rfl, hf, hr⟩ := h
  rw [trimEnd_append hr]
  exact hf.subset (List.rdropWhile_prefix isBlank front).subset

theorem append_newline (h : IsSmooth s) : IsSmooth (s ++ ['\n']) := by
  obtain ⟨front, rest, rfl, hf, hr⟩ := h
  refine ⟨front, rest ++ ['\n'], List.append_assoc .., hf, ?_⟩
  simp only [isAllBlank, List.all_append, Bool.and_eq_true] at hr ⊢
  exact ⟨hr, rfl⟩

theorem of_isLine (h : IsLine s) : IsSmooth s := by
  induction h
  case crlf => exact ⟨[], _, rfl, by simp [IsFlat], by decide⟩
  case ending c hc =>
    exact ⟨[], _, rfl, by simp [IsFlat], by simpa [isAllBlank] using isBlank_of_isLineEnd hc⟩
  case cons c l hc hl hi =>
    obtain ⟨front, rest, rfl, hf, hr⟩ := hi
    exact ⟨c :: front, rest, rfl, List.forall_mem_cons.mpr ⟨hc, hf⟩, hr⟩

end IsSmooth

theorem Finished.isSmooth {ls : List Text} (h : Finished ls) : ∀ l ∈ ls, IsSmooth l := by
  induction h
  case nil              => simp
  case last hl _        => exact List.forall_mem_singleton.mpr (.of_isLine hl)
  case doubled hl _ _   => exact List.forall_mem_singleton.mpr (IsSmooth.of_isLine hl).append_newline
  case cons hl _ _ hi   => exact List.forall_mem_cons.mpr ⟨.of_isLine hl, hi⟩

end Transclusion.Text
