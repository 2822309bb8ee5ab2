import Transclusion.Proofs.Link.Parts

namespace Transclusion.Link

open Text

variable {s p rest raw : Text} {l : Link}

def IsRead (l : Link) : Prop :=
  ∃ raw, ofText raw = .ok l

-- What a link prints behind its scheme.
def afterScheme (l : Link) : Text :=
  l.body ++ l.extra.elim [] ("::".toList ++ ·)

-- Trimmed parts on one line, where neither a scheme nor a search option hides in the body.
structure IsTidy (l : Link) : Prop where
  scheme : ∀ s ∈ l.scheme, IsScheme s ∧ s.map Char.toLower = s
  bare : l.scheme = none → ∀ p rest, IsScheme p → l.afterScheme = p ++ rest → rest.head? = some ':'
  body_ne : l.body ≠ []
  trim_body : trim l.body = l.body
  uncut : ¬"::".toList <:+: l.body
  trim_extra : ∀ e ∈ l.extra, trim e = e
  one_line : '\n' ∉ l.text

namespace IsScheme

theorem ne_nil (h : IsScheme p) : p ≠ [] := by
  obtain ⟨_, _, _, rfl, _⟩ := h
  exact List.cons_ne_nil _ _

theorem toNat_lt (h : IsScheme p) : ∀ c ∈ p, c.toNat < 128 := by
  obtain ⟨c, a, as, rfl, hc, hs⟩ := h
  intro x hx
  rw [List.mem_append, List.mem_cons, List.mem_singleton] at hx
  rcases hx with (rfl | hx) | rfl
  · exact toNat_lt_of_isAlpha hc
  · exact toNat_lt_of_isSchemeChar (hs x hx)
  · decide

theorem map_toLower (h : IsScheme p) : (p.map Char.toLower).map Char.toLower = p.map Char.toLower := by
  rw [List.map_map]
  refine List.map_congr_left fun c hc => ?_
  exact forall_of_toNat_lt (p := fun c => c.toLower.toLower = c.toLower) (by decide)
    (h.toNat_lt c hc)

theorem head?_not_isBlank (h : IsScheme p) : ∀ c ∈ p.head?, isBlank c = false := by
  obtain ⟨c, a, as, rfl, hc, _⟩ := h
  rintro _ ⟨⟩
  exact forall_of_toNat_lt (p := fun c => c.isAlpha → isBlank c = false) (by decide)
    (toNat_lt_of_isAlpha hc) hc

theorem not_mem_newline (h : IsScheme p) : '\n' ∉ p := by
  obtain ⟨c, a, as, rfl, hc, hs⟩ := h
  rw [List.mem_append, List.mem_cons, List.mem_singleton]
  rintro ((rfl | hx) | hx)
  · cases hc
  · cases hs _ hx
  · cases hx

end IsScheme

section Reading

theorem scheme_of_ofText (h : ofText raw = .ok l) (hs : l.scheme = some s) :
    IsScheme s ∧ s.map Char.toLower = s := by
  have ⟨_, t, _, ht, _⟩ := ofText_eq_ok_iff.mp h
  rw [hs, takeScheme_eq_some_iff] at ht
  obtain ⟨p, hp, _, _, rfl⟩ := ht
  exact ⟨hp.lower, hp.map_toLower⟩

theorem not_newline_of_ofText (h : ofText raw = .ok l) : '\n' ∉ l.text := by
  have ⟨hn, t, u, ht, hu, hb, _⟩ := ofText_eq_ok_iff.mp h
  have htr : t ⊆ trim raw := by
    have := takeScheme_suffix (trim raw)
    exact (ht ▸ this).subset
  have hut : u ⊆ t := by
    have := (takeExtra_spec t).left
    exact (hu ▸ this).subset
  rw [text, List.mem_append, List.mem_append]
  rintro ((hm | hm) | hm)
  · cases hs : l.scheme <;> rw [hs] at hm
    case none => cases hm
    case some => exact (scheme_of_ofText h hs).left.not_mem_newline hm
  · exact hn (htr (hut ((trim_sublist u).subset (hb ▸ hm))))
  · cases he : l.extra <;> rw [he] at hm hu
    case none => cases hm
    case some e =>
      obtain ⟨after, hc, rfl⟩ := takeExtra_eq_some hu
      have hm : '\n' ∈ trim after := by simpa using hm
      refine hn (htr ?_)
      rw [eq_of_cut? hc]
      exact List.mem_append_right _ ((trim_sublist after).subset hm)

-- Where a scheme could be read off, one would have been read before.
theorem head?_of_ofText (h : ofText raw = .ok l) (hs : l.scheme = none) (hp : IsScheme p)
    (ha : l.afterScheme = p ++ rest) : rest.head? = some ':' := by
  have ⟨_, t, u, ht, hu, hb, _⟩ := ofText_eq_ok_iff.mp h
  rw [hs, takeScheme_eq_none_iff] at ht
  obtain ⟨rfl, hn⟩ := ht
  have hx := (takeExtra_spec (trim raw)).left
  rw [hu] at hx
  obtain ⟨z, hz⟩ := (hb ▸ trim_prefix (trimStart_trim raw) hx : l.body <+: u).trans hx
  cases he : l.extra <;> rw [afterScheme, he] at ha <;> rw [he] at hu
  case none =>
    cases takeExtra_eq_none hu
    rw [trim_trim] at hb
    rw [Option.elim_none, List.append_nil] at ha
    exact hn p rest hp (hb ▸ ha)
  case some e =>
    rcases List.append_eq_append_iff.mp ha with ⟨x, rfl, hx⟩ | ⟨y, hy, rfl⟩
    case inr =>
      have hh := hn p (y ++ z) hp (by rw [←hz, hy, List.append_assoc])
      cases y
      case nil  => rfl
      case cons => exact hh
    case inl =>
      -- The only colon of the scheme is the first of the two that follow the body.
      obtain ⟨w, hw, hc⟩ := hp.exists_front
      rcases x with _ | ⟨a, _ | ⟨b, x⟩⟩
      case nil      => exact congrArg List.head? hx.symm
      case cons.nil => exact congrArg List.head? (List.cons.inj hx).right.symm
      case cons.cons =>
        obtain rfl : ':' = a := (List.cons.inj hx).left
        have hm : ':' ∈ w := by
          have hd := congrArg List.dropLast hw
          rw [List.dropLast_append_cons, List.dropLast_concat] at hd
          simp [←hd]
        simpa using hc _ hm

theorem IsRead.isTidy (h : l.IsRead) : l.IsTidy := by
  obtain ⟨raw, hr⟩ := h
  have ⟨_, t, u, _, hu, hb, hne⟩ := ofText_eq_ok_iff.mp hr
  constructor
  case scheme    => exact fun _ => scheme_of_ofText hr
  case bare      => exact fun hs _ _ => head?_of_ofText hr hs
  case body_ne   => exact hne
  case trim_body => rw [hb, trim_trim]
  case one_line   => exact not_newline_of_ofText hr
  case uncut =>
    have hc := (takeExtra_spec t).right
    rw [hu] at hc
    exact fun hi => hc (hi.trans (hb ▸ trim_isInfix u))
  case trim_extra =>
    intro e he
    rw [Option.mem_def.mp he] at hu
    obtain ⟨after, _, rfl⟩ := takeExtra_eq_some hu
    exact trim_trim after

end Reading

end Transclusion.Link
