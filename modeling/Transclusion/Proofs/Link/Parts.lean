import Mathlib.Data.List.Infix
import Transclusion.Link
import Transclusion.Proofs.Text.Blank

namespace Transclusion

open Text

section Cutting

variable {sep s before after : Text}

theorem after?_eq_none_of_cut? (h : after? sep s = none) : ¬sep <+: s := by
  rintro ⟨r, hr⟩
  cases h.symm.trans (after?_eq_some_iff.mpr hr.symm)

theorem not_infix_of_cut?_eq_none (h : cut? sep s = none) : ¬sep <:+: s := by
  induction s with
  | nil =>
    rw [cut?, Option.map_eq_none_iff] at h
    exact fun hi => after?_eq_none_of_cut? h (List.infix_nil.mp hi ▸ List.prefix_rfl)
  | cons c s hi =>
    rw [cut?] at h
    split at h
    case h_1 => cases h
    case h_2 ha =>
      rw [List.infix_cons_iff, not_or]
      exact ⟨after?_eq_none_of_cut? ha, hi (Option.map_eq_none_iff.mp h)⟩

theorem cut?_eq_none_iff : cut? sep s = none ↔ ¬sep <:+: s := by
  refine ⟨not_infix_of_cut?_eq_none, fun h => ?_⟩
  rw [Option.eq_none_iff_forall_ne_some]
  rintro ⟨b, a⟩ hc
  exact h ⟨b, a, (eq_of_cut? hc).symm⟩

-- The cut is at the first place of the separator.
theorem length_le_of_cut? (h : cut? sep s = some (before, after)) {b a : Text}
    (hs : s = b ++ sep ++ a) : before.length ≤ b.length := by
  induction s generalizing before b with
  | nil =>
    obtain ⟨_, _, he⟩ := Option.map_eq_some_iff.mp h
    cases he
    exact Nat.zero_le _
  | cons c s hi =>
    rw [cut?] at h
    split at h
    case h_1 =>
      cases h
      exact Nat.zero_le _
    case h_2 ha =>
      obtain ⟨⟨_, _⟩, hc, hb⟩ := Option.map_eq_some_iff.mp h
      cases hb
      cases b with
      | nil      => exact (after?_eq_none_of_cut? ha ⟨a, by simpa using hs.symm⟩).elim
      | cons x b => exact Nat.succ_le_succ (hi hc (List.cons.inj hs).right)

theorem cut?_eq_some_iff :
    cut? sep s = some (before, after) ↔
      s = before ++ sep ++ after ∧ ∀ b a, s = b ++ sep ++ a → before.length ≤ b.length := by
  refine ⟨fun h => ⟨eq_of_cut? h, fun _ _ => length_le_of_cut? h⟩, ?_⟩
  rintro ⟨rfl, hf⟩
  cases h : cut? sep (before ++ sep ++ after)
  case none => exact (not_infix_of_cut?_eq_none h (List.infix_append _ _ _)).elim
  case some x =>
    obtain ⟨b, a⟩ := x
    have he := eq_of_cut? h
    have hl := Nat.le_antisymm (hf b a he) (length_le_of_cut? h rfl)
    rw [List.append_assoc, List.append_assoc b] at he
    obtain ⟨rfl, ht⟩ := List.append_inj he hl
    rw [List.append_cancel_left ht]

-- No separator lies before the first place of one.
theorem not_infix_of_cut? (hs : sep ≠ []) (h : cut? sep s = some (before, after)) :
    ¬sep <:+: before := by
  rintro ⟨b, a, rfl⟩
  have hl := length_le_of_cut? h (b := b) (a := a ++ sep ++ after) (by simp [eq_of_cut? h])
  have hp := List.length_pos_of_ne_nil hs
  simp only [List.length_append] at hl
  omega

-- What stands in front of the first separator, or all if there is none.
inductive UpTo (sep : Text) : Text → Text → Prop
  | cut {before after : Text}
    (hf : ∀ b a, before ++ sep ++ after = b ++ sep ++ a → before.length ≤ b.length) :
    UpTo sep (before ++ sep ++ after) before
  | whole {s : Text} (h : ¬sep <:+: s) : UpTo sep s s

end Cutting

namespace Link

variable {s t p q rest before after extra raw : Text} {l : Link}

section Schemes

-- Letters and marks, the colon at the end included.
def IsScheme (p : Text) : Prop :=
  ∃ c a as, p = c :: a :: as ++ [':'] ∧ c.isAlpha ∧ ∀ x ∈ a :: as, isSchemeChar x

theorem toNat_lt_of_isSchemeChar {c : Char} (h : isSchemeChar c) : c.toNat < 128 := by
  simp only [isSchemeChar, Char.isAlphanum, Char.isDigit] at h
  delta Char.isAlpha Char.isUpper Char.isLower at h
  simp only [UInt32.le_iff_toNat_le, Char.toNat_val, Bool.or_eq_true, Bool.and_eq_true,
    decide_eq_true_eq, beq_iff_eq] at h
  simp at h
  rcases h with ((h | rfl) | rfl) | rfl
  · omega
  all_goals decide

theorem isSchemeChar_toLower {c : Char} (h : isSchemeChar c) : isSchemeChar c.toLower :=
  forall_of_toNat_lt (p := fun c => isSchemeChar c → isSchemeChar c.toLower) (by decide)
    (toNat_lt_of_isSchemeChar h) h

theorem toNat_lt_of_isAlpha {c : Char} (h : c.isAlpha) : c.toNat < 128 :=
  toNat_lt_of_isSchemeChar (by simp [isSchemeChar, Char.isAlphanum, h])

theorem isAlpha_toLower {c : Char} (h : c.isAlpha) : c.toLower.isAlpha :=
  forall_of_toNat_lt (p := fun c => c.isAlpha → c.toLower.isAlpha) (by decide)
    (toNat_lt_of_isAlpha h) h

namespace IsScheme

theorem lower (h : IsScheme p) : IsScheme (p.map Char.toLower) := by
  obtain ⟨c, a, as, rfl, hc, hs⟩ := h
  refine ⟨c.toLower, a.toLower, as.map Char.toLower, by simp, isAlpha_toLower hc, ?_⟩
  rw [←List.map_cons, List.forall_mem_map]
  exact fun x hx => isSchemeChar_toLower (hs x hx)

theorem exists_front (h : IsScheme p) : ∃ w, p = w ++ [':'] ∧ ∀ x ∈ w, (x != ':') = true := by
  obtain ⟨c, a, as, rfl, hc, hs⟩ := h
  refine ⟨_, rfl, List.forall_mem_cons.mpr ⟨?_, fun x hx => ?_⟩⟩ <;> rw [bne_iff_ne]
  · rintro rfl
    cases hc
  · rintro rfl
    cases hs _ hx

-- The only colon is at the end.
theorem append_inj {q r : Text} (hp : IsScheme p) (hq : IsScheme q) (h : p ++ rest = q ++ r) :
    p = q ∧ rest = r := by
  obtain ⟨v, rfl, hv⟩ := hp.exists_front
  obtain ⟨w, rfl, hw⟩ := hq.exists_front
  rw [List.append_assoc, List.append_assoc] at h
  have ht := congrArg (List.takeWhile (· != ':')) h
  rw [List.takeWhile_append_of_pos hv, List.takeWhile_append_of_pos hw] at ht
  simp only [List.singleton_append, bne_self_eq_false, Bool.false_eq_true, not_false_eq_true,
    List.takeWhile_cons_of_neg, List.append_nil] at ht
  subst ht
  exact ⟨rfl, (List.cons.inj (List.append_cancel_left h)).right⟩

end IsScheme

theorem takeScheme_append (hp : IsScheme p) (hr : rest.head? ≠ some ':') :
    takeScheme (p ++ rest) = (some (p.map Char.toLower), rest) := by
  obtain ⟨c, a, as, rfl, hc, hs⟩ := hp
  have hb : isSchemeChar ':' = false := by decide
  simp only [takeScheme, List.cons_append, List.append_assoc]
  rw [←List.cons_append, List.takeWhile_append_of_pos hs, List.dropWhile_append_of_pos hs]
  simp [hb, hc, hr]

theorem takeScheme_cases (s : Text) :
    takeScheme s = (none, s) ∨
      ∃ p rest, IsScheme p ∧ s = p ++ rest ∧ rest.head? ≠ some ':' ∧
        takeScheme s = (some (p.map Char.toLower), rest) := by
  rw [takeScheme.eq_def]
  split
  case h_1 => exact .inl rfl
  case h_2 c r =>
    split
    case h_2 => exact .inl rfl
    case h_1 a as rest ha hr =>
      split
      case isFalse => exact .inl rfl
      case isTrue hc =>
        rw [Bool.and_eq_true, bne_iff_ne] at hc
        refine .inr ⟨c :: a :: as ++ [':'], rest, ⟨c, a, as, rfl, hc.left, ?_⟩, ?_, hc.right, rfl⟩
        · rw [←ha]
          exact fun x hx => List.mem_takeWhile_imp hx
        · rw [←List.takeWhile_append_dropWhile (p := isSchemeChar) (l := r), ha, hr]
          simp

theorem takeScheme_eq_some_iff :
    takeScheme s = (some q, rest) ↔
      ∃ p, IsScheme p ∧ s = p ++ rest ∧ rest.head? ≠ some ':' ∧ q = p.map Char.toLower := by
  constructor
  case mp =>
    intro h
    rcases takeScheme_cases s with hn | ⟨p, r, hp, hs, hr, ht⟩
    · cases h.symm.trans hn
    · cases h.symm.trans ht
      exact ⟨p, hp, hs, hr, rfl⟩
  case mpr =>
    rintro ⟨p, hp, rfl, hr, rfl⟩
    exact takeScheme_append hp hr

theorem takeScheme_eq_none_iff :
    takeScheme s = (none, t) ↔
      t = s ∧ ∀ p rest, IsScheme p → s = p ++ rest → rest.head? = some ':' := by
  constructor
  case mp =>
    intro h
    rcases takeScheme_cases s with hn | ⟨_, _, _, _, _, ht⟩
    case inr => cases h.symm.trans ht
    case inl =>
      cases h.symm.trans hn
      refine ⟨rfl, fun p rest hp hs => ?_⟩
      by_contra hr
      rw [hs, takeScheme_append hp hr] at h
      cases h
  case mpr =>
    rintro ⟨rfl, hn⟩
    rcases takeScheme_cases t with h | ⟨p, r, hp, hs, hr, _⟩
    · exact h
    · exact (hr (hn p r hp hs)).elim

-- What is left of a text without a scheme at its front.
inductive WithoutScheme : Text → Text → Prop
  | scheme {p rest : Text} (hp : IsScheme p) (hr : rest.head? ≠ some ':') :
    WithoutScheme (p ++ rest) rest
  | bare {s : Text} (h : ∀ p rest, IsScheme p → s = p ++ rest → rest.head? = some ':') :
    WithoutScheme s s

theorem withoutScheme_iff : WithoutScheme s t ↔ (takeScheme s).2 = t := by
  constructor
  case mp =>
    rintro (⟨hp, hr⟩ | h)
    · rw [takeScheme_append hp hr]
    · rw [takeScheme_eq_none_iff.mpr ⟨rfl, h⟩]
  case mpr =>
    rintro rfl
    rcases hs : takeScheme s with ⟨_ | q, rest⟩
    case none =>
      obtain ⟨rfl, h⟩ := takeScheme_eq_none_iff.mp hs
      exact .bare h
    case some =>
      obtain ⟨p, hp, rfl, hr, _⟩ := takeScheme_eq_some_iff.mp hs
      exact .scheme hp hr

theorem takeScheme_suffix (s : Text) : (takeScheme s).2 <:+ s := by
  rcases takeScheme_cases s with h | ⟨p, rest, _, hs, _, h⟩ <;> rw [h]
  exact ⟨p, hs.symm⟩

end Schemes

section SearchOptions

theorem takeExtra_spec (s : Text) : (takeExtra s).1 <+: s ∧ ¬"::".toList <:+: (takeExtra s).1 := by
  rw [takeExtra]
  split
  case h_1 before after h =>
    rw [eq_of_cut? h, List.append_assoc]
    exact ⟨List.prefix_append _ _, not_infix_of_cut? (by decide) h⟩
  case h_2 h => exact ⟨List.prefix_rfl, not_infix_of_cut?_eq_none h⟩

theorem takeExtra_of_cut? (h : cut? "::".toList s = some (before, after)) :
    takeExtra s = (before, some (trim after)) := by
  rw [takeExtra, h]

theorem takeExtra_of_uncut (h : ¬"::".toList <:+: s) : takeExtra s = (s, none) := by
  rw [takeExtra, cut?_eq_none_iff.mpr h]

theorem takeExtra_eq_none (h : takeExtra s = (before, none)) : before = s := by
  rw [takeExtra] at h
  split at h <;> cases h
  rfl

theorem takeExtra_eq_some (h : takeExtra s = (before, some extra)) :
    ∃ after, cut? "::".toList s = some (before, after) ∧ extra = trim after := by
  rw [takeExtra] at h
  split at h <;> cases h
  exact ⟨_, ‹_›, rfl⟩

theorem upTo_iff : UpTo "::".toList s t ↔ (takeExtra s).1 = t := by
  constructor
  case mp =>
    rintro (hf | h)
    · rw [takeExtra_of_cut? (cut?_eq_some_iff.mpr ⟨rfl, hf⟩)]
    · rw [takeExtra_of_uncut h]
  case mpr =>
    rintro rfl
    cases hc : cut? "::".toList s
    case none =>
      have h := cut?_eq_none_iff.mp hc
      rw [takeExtra_of_uncut h]
      exact .whole h
    case some x =>
      obtain ⟨rfl, hf⟩ := cut?_eq_some_iff.mp hc
      rw [takeExtra_of_cut? hc]
      exact .cut hf

end SearchOptions

-- How a link comes of its text.
theorem ofText_eq_ok_iff :
    ofText raw = .ok l ↔ '\n' ∉ trim raw ∧ ∃ t u, takeScheme (trim raw) = (l.scheme, t) ∧
      takeExtra t = (u, l.extra) ∧ l.body = trim u ∧ l.body ≠ [] := by
  constructor
  case mp =>
    intro h
    rw [ofText] at h
    split at h
    case isTrue => cases h
    case isFalse =>
      split at h
      case isTrue => cases h
      case isFalse hn =>
        dsimp only at h
        split at h
        case isTrue => cases h
        case isFalse hb =>
          cases h
          exact ⟨by simpa using hn, _, _, rfl, rfl, rfl, by simpa using hb⟩
  case mpr =>
    rintro ⟨hn, t, u, ht, hu, hb, hne⟩
    have he : trim raw ≠ [] := by
      intro he
      rw [he, takeScheme, Prod.mk.injEq] at ht
      obtain ⟨-, rfl⟩ := ht
      obtain rfl : [] = u := congrArg Prod.fst hu
      exact hne hb
    have hr : trim u ≠ [] := hb ▸ hne
    simp only [ofText, List.isEmpty_iff, he, hn, ht, hu, hr, List.contains_iff_mem, if_false]
    rw [←hb]

-- The text is one line, and something that is not blank is left of it between the scheme and the
-- search option.
def HasTarget (raw : Text) : Prop :=
  '\n' ∉ trim raw ∧ ∃ s t, WithoutScheme (trim raw) s ∧ UpTo "::".toList s t ∧
    ∃ c ∈ t, isBlank c = false

theorem exists_ofText_iff : (∃ l, ofText raw = .ok l) ↔ HasTarget raw := by
  have ht (u : Text) : trim u ≠ [] ↔ ∃ c ∈ u, isBlank c = false := by
    simp [trim_eq_nil_iff, isAllBlank]
  simp only [ofText_eq_ok_iff, HasTarget, withoutScheme_iff, upTo_iff]
  constructor
  case mp =>
    rintro ⟨l, hn, s, u, hs, hu, hb, hne⟩
    exact ⟨hn, s, u, by rw [hs], by rw [hu], (ht u).mp (hb ▸ hne)⟩
  case mpr =>
    rintro ⟨hn, _, _, rfl, rfl, hc⟩
    exact ⟨⟨_, _, _⟩, hn, _, _, rfl, rfl, rfl, (ht _).mpr hc⟩

end Link

end Transclusion
