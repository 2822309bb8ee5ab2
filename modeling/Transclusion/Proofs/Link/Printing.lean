import Transclusion.Proofs.Link.Reading

namespace Transclusion.Link

open Text

variable {raw t : Text} {l : Link}

theorem text_eq_append (l : Link) : l.text = l.scheme.getD [] ++ l.afterScheme :=
  List.append_assoc ..

-- A colon of the body stands next to the one before it or to those after it.
def HasStrayColon (l : Link) : Prop :=
  l.scheme.isSome ∧ l.body.head? = some ':' ∨ l.extra.isSome ∧ l.body.getLast? = some ':'

instance (l : Link) : Decidable l.HasStrayColon :=
  inferInstanceAs (Decidable (_ ∨ _))

namespace IsTidy

theorem trim_text (h : l.IsTidy) : trim l.text = l.text := by
  have ⟨hh, hl⟩ := trim_eq_self_iff.mp h.trim_body
  rw [trim_eq_self_iff, text]
  constructor
  case left =>
    intro c hc
    cases hs : l.scheme
    case none =>
      rw [hs, Option.getD_none, List.nil_append, List.head?_append_of_ne_nil _ h.body_ne] at hc
      exact hh c hc
    case some s =>
      have hp := (h.scheme s hs).left
      rw [hs, Option.getD_some, List.append_assoc, List.head?_append_of_ne_nil _ hp.ne_nil] at hc
      exact hp.head?_not_isBlank c hc
  case right =>
    intro c hc
    cases he : l.extra
    case none =>
      rw [he, Option.elim_none, List.append_nil, List.getLast?_append_of_ne_nil _ h.body_ne] at hc
      exact hl c hc
    case some e =>
      rw [he, Option.elim_some, List.getLast?_append_of_ne_nil _ (by simp)] at hc
      cases e with
      | nil =>
        obtain rfl : ':' = c := by simpa using hc
        decide
      | cons a e =>
        rw [List.getLast?_append_of_ne_nil _ (List.cons_ne_nil a e)] at hc
        exact (trim_eq_self_iff.mp (h.trim_extra _ he)).right c hc

theorem head?_afterScheme (h : l.IsTidy) : l.afterScheme.head? = l.body.head? :=
  List.head?_append_of_ne_nil _ h.body_ne

theorem takeScheme_text (h : l.IsTidy) (hc : ¬(l.scheme.isSome ∧ l.body.head? = some ':')) :
    takeScheme l.text = (l.scheme, l.afterScheme) := by
  rw [text_eq_append]
  cases hs : l.scheme
  case none => exact takeScheme_eq_none_iff.mpr ⟨rfl, h.bare hs⟩
  case some s =>
    have ⟨hp, hl⟩ := h.scheme s hs
    refine takeScheme_eq_some_iff.mpr ⟨s, hp, rfl, ?_, hl.symm⟩
    rw [h.head?_afterScheme]
    exact fun hh => hc ⟨by simp [hs], hh⟩

-- Whatever the link, its own scheme can be read off in one way only.
theorem of_takeScheme_text (h : l.IsTidy) (ht : takeScheme l.text = (l.scheme, t)) :
    t = l.afterScheme ∧ (l.scheme.isSome → t.head? ≠ some ':') := by
  rw [text_eq_append] at ht
  cases hs : l.scheme
  case none =>
    rw [hs, takeScheme_eq_none_iff] at ht
    exact ⟨ht.left, nofun⟩
  case some s =>
    rw [hs, takeScheme_eq_some_iff] at ht
    obtain ⟨p, hp, ha, hh, _⟩ := ht
    exact ⟨((h.scheme s hs).left.append_inj hp ha).right.symm, fun _ => hh⟩

theorem takeExtra_afterScheme (h : l.IsTidy) (hc : ¬(l.extra.isSome ∧ l.body.getLast? = some ':')) :
    takeExtra l.afterScheme = (l.body, l.extra) := by
  rw [afterScheme]
  cases he : l.extra
  case none =>
    rw [Option.elim_none, List.append_nil]
    exact takeExtra_of_uncut h.uncut
  case some e =>
    have hcut : cut? "::".toList (l.body ++ ("::".toList ++ e)) = some (l.body, e) := by
      refine cut?_eq_some_iff.mpr ⟨(List.append_assoc ..).symm, fun b a hb => ?_⟩
      rw [List.append_assoc b] at hb
      rcases List.append_eq_append_iff.mp hb with ⟨x, rfl, _⟩ | ⟨x, hx, hy⟩
      case inl => simp
      case inr =>
        -- An earlier cut would lie in the body or use up a colon at its end.
        have hy : ':' :: ':' :: a = x ++ ("::".toList ++ e) := hy
        rcases x with _ | ⟨c, _ | ⟨d, x⟩⟩
        case nil => simp [hx]
        case cons.nil =>
          obtain rfl : ':' = c := (List.cons.inj hy).left
          exact (hc ⟨by simp [he], by simp [hx]⟩).elim
        case cons.cons =>
          simp only [List.cons_append, List.cons.injEq] at hy
          obtain ⟨rfl, rfl, _⟩ := hy
          exact (h.uncut ⟨b, x, by simp [hx]⟩).elim
    rw [Option.elim_some, takeExtra_of_cut? hcut, h.trim_extra e he]

-- With a colon at its end, the body would end before it.
theorem trim_ne_body (h : takeExtra l.afterScheme = (t, l.extra))
    (hc : l.extra.isSome ∧ l.body.getLast? = some ':') : l.body ≠ trim t := by
  obtain ⟨he, hl⟩ := hc
  obtain ⟨e, he⟩ := Option.isSome_iff_exists.mp he
  obtain ⟨b, hb⟩ := List.getLast?_eq_some_iff.mp hl
  rw [he] at h
  obtain ⟨a, hcut, _⟩ := takeExtra_eq_some h
  have ht : t.length ≤ b.length :=
    length_le_of_cut? hcut (a := ':' :: e) (by simp [afterScheme, he, hb])
  have hs := (trim_sublist t).length_le
  intro hbt
  rw [←hbt, hb, List.length_append, List.length_singleton] at hs
  omega

end IsTidy

theorem ofText_text_iff (h : ofText raw = .ok l) : ofText l.text = .ok l ↔ ¬l.HasStrayColon := by
  have ht : l.IsTidy := IsRead.isTidy ⟨raw, h⟩
  rw [ofText_eq_ok_iff, ht.trim_text, HasStrayColon, not_or]
  constructor
  case mpr =>
    rintro ⟨hs, he⟩
    exact ⟨ht.one_line, _, _, ht.takeScheme_text hs, ht.takeExtra_afterScheme he, ht.trim_body.symm,
      ht.body_ne⟩
  case mp =>
    rintro ⟨_, t, u, hs, hu, hb, _⟩
    obtain ⟨rfl, hh⟩ := ht.of_takeScheme_text hs
    rw [ht.head?_afterScheme] at hh
    exact ⟨fun hc => hh hc.left hc.right, fun hc => IsTidy.trim_ne_body hu hc hb⟩

-- The blank keeps the colons apart when the link is read first, and is not printed.
theorem ofText_text_blank_before_colon :
    let l : Link := ⟨some "id:".toList, ":a".toList, some "b".toList⟩
    ofText "ID: :a::b".toList = .ok l ∧ l.text = "id::a::b".toList ∧ l.HasStrayColon ∧
      ofText l.text ≠ .ok l := by
  intro l
  have hr : ofText "ID: :a::b".toList = .ok l := by decide +kernel
  have hc : l.HasStrayColon := by decide
  exact ⟨hr, by decide +kernel, hc, fun h => (ofText_text_iff hr).mp h hc⟩

end Transclusion.Link
