import Transclusion.Proofs.Outline.Fields
import Transclusion.Proofs.Outline.Headlines
import Transclusion.Proofs.Outline.Lines

namespace Transclusion

open Text

section Constructs

variable {l s : Text} {c : Char}

theorem Drawer.not_marked (h : trimStart l = c :: s) (hc : c ≠ ':') :
    opens l = false ∧ closes l = false ∧ property? l = none := by
  have ha : agree ':' c = false := by
    by_contra ha
    exact hc (eq_colon_of_agree (by simpa using ha))
  have hm (word : Text) : isMark (':' :: word) l = false := by
    rw [isMark, h, afterFold?, if_neg (by simp [ha]), Option.any_none]
  refine ⟨hm _, hm _, ?_⟩
  rw [property?, h, show ":".toList = [':'] from rfl, after?, if_neg (Ne.symm hc)]
  rfl

theorem Construct.ofLine_eq_heading_iff {h : Headline} :
    ofLine l = heading h ↔ Headline.ofLine? (bare l) = some h := by
  cases hh : Headline.ofLine? (bare l)
  case some => simp [ofLine, hh]
  case none =>
    cases hb : Block.opens? (bare l)
    case some => simp [ofLine, hh, hb]
    case none =>
      cases hd : Drawer.opens (bare l) <;> cases hk : Keyword.ofLine? (bare l) <;>
        simp [ofLine, hh, hb, hd, hk]

theorem Construct.ofLine_eq_keyword_iff {k : Keyword} :
    ofLine l = keyword k ↔ Headline.ofLine? (bare l) = none ∧ Block.opens? (bare l) = none ∧
      Drawer.opens (bare l) = false ∧ Keyword.ofLine? (bare l) = some k := by
  cases hh : Headline.ofLine? (bare l)
  case some => simp [ofLine, hh]
  case none =>
    cases hb : Block.opens? (bare l)
    case some => simp [ofLine, hh, hb]
    case none =>
      cases hd : Drawer.opens (bare l) <;> cases hk : Keyword.ofLine? (bare l) <;>
        simp [ofLine, hh, hb, hd, hk]

theorem Construct.opens_of_ofLine (h : ofLine l = drawer) : Drawer.opens (bare l) := by
  by_contra hd
  rw [Bool.not_eq_true] at hd
  cases hh : Headline.ofLine? (bare l)
  case some => simp [ofLine, hh] at h
  case none =>
    cases hb : Block.opens? (bare l) <;> cases hk : Keyword.ofLine? (bare l) <;>
      simp [ofLine, hh, hb, hd, hk] at h

theorem Construct.ofLine_of_star (hs : bare l = '*' :: s) :
    ofLine l = (Headline.ofLine? (bare l)).elim text heading := by
  have ht : trimStart (bare l) = '*' :: s := by
    rw [hs]
    exact trimStart_cons_of_not_isBlank (by decide) s
  have ⟨hd, _, _⟩ := Drawer.not_marked ht (by decide)
  have hb : Block.opens? (bare l) = none := by
    have ha : agree '#' '*' = false := by decide +kernel
    rw [Block.opens?, ht, show "#+begin_".toList = '#' :: "+begin_".toList from rfl, afterFold?,
      if_neg (by simp [ha])]
    rfl
  have hk : Keyword.ofLine? (bare l) = none := by
    rw [Keyword.ofLine?, ht]
    rfl
  cases hh : Headline.ofLine? (bare l) <;> simp [ofLine, hh, hb, hd, hk]

end Constructs

section Normal

variable {l : Text} {h : Headline} {k : Keyword} {p : Text × Text}

-- A keyword line in its normal form.
theorem Keyword.exists_fieldLine (hk : Keyword.ofLine? (bare l) = some k) (hs : IsSmooth l) :
    ∃ name value, field? "#+".toList (bare l) = some (name, value) ∧
      k = { key := "#+".toList ++ name ++ [':'], value := given (some value) } ∧
      IsFlat (fieldLine "#+".toList name value) ∧
      k.markup = fieldLine "#+".toList name value ++ ['\n'] := by
  rw [Keyword.ofLine?_eq_field?, Option.map_eq_some_iff] at hk
  obtain ⟨⟨name, value⟩, hf, rfl⟩ := hk
  exact ⟨name, value, hf, rfl, isFlat_fieldLine hf (by decide) hs.bare,
    Keyword.markup_eq_fieldLine name value⟩

theorem Construct.isFlatLine_keyword_markup (hl : ofLine l = keyword k) (hs : IsSmooth l) :
    IsFlatLine k.markup := by
  have ⟨_, _, _, hk⟩ := ofLine_eq_keyword_iff.mp hl
  have ⟨_, _, _, _, hf, hm⟩ := Keyword.exists_fieldLine hk hs
  exact ⟨_, List.cons_ne_nil _ _, hf, hm⟩

theorem Construct.isFlatLine_heading_markup (hl : ofLine l = heading h) (hs : IsSmooth l) :
    IsFlatLine h.markup := by
  have hh := ofLine_eq_heading_iff.mp hl
  have ⟨r, hr⟩ := Headline.line_of_ofLine? hh
  exact ⟨_, hr ▸ List.cons_ne_nil _ r, Headline.isFlat_line_of_ofLine? hh hs.bare, rfl⟩

theorem Construct.ofLine_keyword_markup (hl : ofLine l = keyword k) (hs : IsSmooth l) :
    ofLine k.markup = keyword k ∧ Drawer.closes (bare k.markup) = false ∧
      Drawer.property? (bare k.markup) = none := by
  obtain ⟨_, hb, _, hk⟩ := ofLine_eq_keyword_iff.mp hl
  obtain ⟨name, value, hf, he, hp, hm⟩ := Keyword.exists_fieldLine hk hs
  have hbare : bare k.markup = fieldLine "#+".toList name value := by
    rw [hm, hp.bare_append_newline]
  have hlead : Leads "#+".toList := ⟨'#', ['+'], rfl, by decide⟩
  obtain ⟨r, ht, hn, _, hv⟩ := field?_eq_some_iff.mp hf
  have ht' := trimStart_fieldLine hlead name value
  have ⟨hd, hc, hq⟩ := Drawer.not_marked ht' (by decide)
  refine ⟨?_, hbare ▸ hc, hbare ▸ hq⟩
  rw [ofLine_eq_keyword_iff, hbare]
  refine ⟨?_, ?_, hd, ?_⟩
  · rfl
  · rw [←Block.opens?_congr ht ht', hb]
  · rw [Keyword.ofLine?_eq_field?, field?_fieldLine hlead hn (hv ▸ trim_trim r), he]
    rfl

theorem Construct.ofLine_heading_markup (hl : ofLine l = heading h) (hs : IsSmooth l) :
    ofLine h.markup = (Headline.ofLine? h.line).elim text heading ∧
      Drawer.closes (bare h.markup) = false ∧ Drawer.property? (bare h.markup) = none := by
  have hh := ofLine_eq_heading_iff.mp hl
  have hbare : bare h.markup = h.line := (Headline.isFlat_line_of_ofLine? hh hs.bare).bare_append_newline
  obtain ⟨r, hr⟩ := Headline.line_of_ofLine? hh
  have ht : trimStart (bare h.markup) = '*' :: r := by
    rw [hbare, hr]
    exact trimStart_cons_of_not_isBlank (by decide) r
  have ⟨_, hc, hp⟩ := Drawer.not_marked ht (by decide)
  exact ⟨hbare ▸ ofLine_of_star (hbare.trans hr), hc, hp⟩

-- A property in its normal form.
theorem Drawer.property?_propertyMarkup (hc : closes (bare l) = false)
    (hp : property? (bare l) = some p) (hs : IsSmooth l) :
    closes (bare (propertyMarkup p)) = false ∧ property? (bare (propertyMarkup p)) = some p := by
  obtain ⟨name, value⟩ := p
  have hp : field? [':'] (bare l) = some (name, value) := hp
  have hf := isFlat_fieldLine hp (by decide) hs.bare
  rw [propertyMarkup_eq_fieldLine, hf.bare_append_newline]
  obtain ⟨r, ht, hn, _, hv⟩ := field?_eq_some_iff.mp hp
  have hlead : Leads [':'] := ⟨':', [], rfl, by decide⟩
  have ht' := trimStart_fieldLine hlead name value
  have hv' : trim value = value := hv ▸ trim_trim r
  refine ⟨?_, field?_fieldLine hlead hn hv'⟩
  rw [closes_eq ht hn] at hc
  have hr : isAllBlank (afterColon value) = isAllBlank r := by
    rw [Bool.eq_iff_iff, ←trim_eq_nil_iff, ←trim_eq_nil_iff, trim_afterColon hv', hv]
  rw [closes_eq ht' hn, hr, hc]

end Normal

section Pieces

variable {ls ps : List Text}

theorem Drawer.isFlatLine_firstLine : IsFlatLine firstLine :=
  ⟨":PROPERTIES:".toList, by decide, by decide, rfl⟩

theorem Drawer.isFlatLine_lastLine : IsFlatLine lastLine :=
  ⟨":END:".toList, by decide, by decide, rfl⟩

theorem Drawer.Lists.pieces {properties : List (Text × Text)} (h : Lists ls properties)
    (hs : ∀ l ∈ ls, IsSmooth l) : List.Forall₂ IsPiece ls (properties.map propertyMarkup) := by
  induction h
  case nil => exact .nil
  case cons hp _ hi =>
    have ⟨hl, hs⟩ := List.forall_mem_cons.mp hs
    refine .cons (.inr ⟨_, List.cons_ne_nil _ _, ?_, propertyMarkup_eq_fieldLine ..⟩) (hi hs)
    exact isFlat_fieldLine hp.right (by decide) hl.bare

-- Each line prints as itself or as one flat line.
theorem PrintsAs.pieces (h : PrintsAs ls ps) (hs : ∀ l ∈ ls, IsSmooth l) :
    List.Forall₂ IsPiece ls ps := by
  have same (ls : List Text) : List.Forall₂ IsPiece ls ls := List.forall₂_same.mpr fun _ _ => .inl rfl
  induction h
  case nil => exact .nil
  case openBlock => exact same _
  case heading hl _ hi =>
    have ⟨hl', hs⟩ := List.forall_mem_cons.mp hs
    exact .cons (.inr (Construct.isFlatLine_heading_markup hl hl')) (hi hs)
  case keyword hl _ hi =>
    have ⟨hl', hs⟩ := List.forall_mem_cons.mp hs
    exact .cons (.inr (Construct.isFlatLine_keyword_markup hl hl')) (hi hs)
  case text hl _ hi => exact .cons (.inl rfl) (hi (List.forall_mem_cons.mp hs).right)
  case block l name body e ls ps _ _ _ _ hi =>
    have hs := (List.forall_mem_append.mp hs).right
    exact List.rel_append (same _) (.cons (.inl rfl) (hi (List.forall_mem_cons.mp hs).right))
  case looseDrawer l inside _ ls ps _ _ _ _ hi =>
    exact List.rel_append (same _) (hi (List.forall_mem_append.mp hs).right)
  case drawer l inside properties e ls ps _ hp _ _ hi =>
    have ⟨hs', hs⟩ := List.forall_mem_append.mp hs
    have hs' := (List.forall_mem_cons.mp hs').right
    exact List.rel_append (.cons (.inr Drawer.isFlatLine_firstLine) (Drawer.Lists.pieces hp hs'))
      (.cons (.inr Drawer.isFlatLine_lastLine) (hi (List.forall_mem_cons.mp hs).right))

end Pieces

-- What is read where the entry was printed.
def Entry.reread : Entry → Entry
  | heading h => (Headline.ofLine? h.line).elim (line h.markup) heading
  | e => e

section Rereading

variable {ls ps : List Text}

theorem map_reread_lines (ls : List Text) : (ls.map Entry.line).map Entry.reread = ls.map .line := by
  rw [List.map_map]
  rfl

theorem Construct.ofLine_firstLine : ofLine Drawer.firstLine = drawer := by
  have hh : Headline.ofLine? (bare Drawer.firstLine) = none := by decide +kernel
  have hb : Block.opens? (bare Drawer.firstLine) = none := by decide +kernel
  have hd : Drawer.opens (bare Drawer.firstLine) := by decide +kernel
  simp [ofLine, hh, hb, hd]

theorem Drawer.closes_lastLine : closes (bare lastLine) := by
  decide +kernel

theorem Drawer.Lists.reprinted {properties : List (Text × Text)} (h : Lists ls properties)
    (hs : ∀ l ∈ ls, IsSmooth l) : Lists (properties.map propertyMarkup) properties := by
  induction h
  case nil => exact .nil
  case cons hp _ hi =>
    have ⟨hl, hs⟩ := List.forall_mem_cons.mp hs
    exact .cons (property?_propertyMarkup hp.left hp.right hl) (hi hs)

theorem Drawer.BreaksOff.reprinted (hn : BreaksOff ls) (h : PrintsAs ls ps)
    (hs : ∀ l ∈ ls, IsSmooth l) : BreaksOff ps := by
  cases h with
  | nil => exact hn
  | text | block | openBlock | looseDrawer => exact fun l hl => hn l hl
  | heading hl _ =>
    rintro _ ⟨⟩
    exact (Construct.ofLine_heading_markup hl (hs _ List.mem_cons_self)).right
  | keyword hl _ =>
    rintro _ ⟨⟩
    exact (Construct.ofLine_keyword_markup hl (hs _ List.mem_cons_self)).right
  | drawer hl _ _ _ => exact absurd (hn _ rfl).right (property?_of_opens (Construct.opens_of_ofLine hl))

namespace PrintsAs

theorem reread (h : PrintsAs ls ps) (hs : ∀ l ∈ ls, IsSmooth l) :
    Mode.plain.entries ps = (Mode.plain.entries ls).map Entry.reread := by
  induction h
  case nil => rfl
  case heading l h ls ps hl _ hi =>
    obtain ⟨hl', hs⟩ := List.forall_mem_cons.mp hs
    have hm := (Construct.ofLine_heading_markup hl hl').left
    rw [Mode.entries_heading hl, List.map_cons, ←hi hs]
    cases hh : Headline.ofLine? h.line <;> rw [hh] at hm
    case none   => simp [Mode.entries_text hm, Entry.reread, hh]
    case some x => simp [Mode.entries_heading hm, Entry.reread, hh]
  case keyword l k ls ps hl _ hi =>
    obtain ⟨hl', hs⟩ := List.forall_mem_cons.mp hs
    have hm := (Construct.ofLine_keyword_markup hl hl').left
    simp [Mode.entries_keyword hl, Mode.entries_keyword hm, hi hs, Entry.reread]
  case text l ls ps hl _ hi =>
    obtain ⟨_, hs⟩ := List.forall_mem_cons.mp hs
    simp [Mode.entries_text hl, hi hs, Entry.reread]
  case block l name body e ls ps hl hb he _ hi =>
    have hs := (List.forall_mem_cons.mp (List.forall_mem_append.mp hs).right).right
    simp only [Mode.entries_closedBlock hl hb he, List.map_append, map_reread_lines, hi hs]
  case openBlock l name body hl hb => rw [Mode.entries_openBlock hl hb, map_reread_lines]
  case drawer l inside properties e ls ps hl hp he _ hi =>
    obtain ⟨hs', hs⟩ := List.forall_mem_append.mp hs
    have hp' := hp.reprinted (List.forall_mem_cons.mp hs').right
    rw [Mode.entries_closedDrawer hl hp he, Mode.entries_closedDrawer Construct.ofLine_firstLine hp'
      Drawer.closes_lastLine, hi (List.forall_mem_cons.mp hs).right]
    rfl
  case looseDrawer l inside properties ls ps hl hp hn h hi =>
    have hs := (List.forall_mem_append.mp hs).right
    rw [Mode.entries_looseDrawer hl hp hn, Mode.entries_looseDrawer hl hp (hn.reprinted h hs), List.map_append,
      map_reread_lines, hi hs]

end PrintsAs

end Rereading

end Transclusion
