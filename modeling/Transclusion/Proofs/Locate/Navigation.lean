import Transclusion.Proofs.Headline.Printing
import Transclusion.Proofs.Locate.Search
import Transclusion.Proofs.Outline.Origins

namespace Transclusion

open Text

section Firsts

variable {α : Type} {p : α → Prop} {xs before after : List α} {x y : α}

theorem exists_isFirst (hx : x ∈ xs) (hp : p x) : ∃ y, IsFirst p xs y := by
  classical
  have hs : (xs.find? fun y => decide (p y)).isSome := List.find?_isSome.mpr ⟨x, hx, decide_eq_true hp⟩
  obtain ⟨y, hy⟩ := Option.isSome_iff_exists.mp hs
  exact ⟨y, find?_decide_eq_some_iff.mp hy⟩

theorem IsFirst.unique (hx : IsFirst p xs x) (hy : IsFirst p xs y) : x = y :=
  Option.some.inj ((find?_decide_eq_some_iff.mpr hx).symm.trans (find?_decide_eq_some_iff.mpr hy))

-- A member with the property leads to the first one, which is itself unless one comes before it.
theorem exists_isFirst_of_eq (h : xs = before ++ x :: after) (hp : p x) :
    ∃ y, IsFirst p xs y ∧ ((∀ z ∈ before, ¬p z) → y = x) := by
  obtain ⟨y, hy⟩ := exists_isFirst (h ▸ List.mem_append_right before List.mem_cons_self) hp
  exact ⟨y, hy, fun hb => hy.unique ⟨before, after, h, hp, hb⟩⟩

end Firsts

section Reading

variable {s : Section} {t : Text} {name value : Text}

theorem Section.IsRead.title (h : s.IsRead) : ∀ t ∈ s.headline.title, t ≠ [] ∧ trim t = t := by
  intro t ht
  obtain ⟨l, hl⟩ := h.headline
  have hp := (Headline.isTidy_of_ofLine? hl).title t ht
  exact ⟨hp.ne_nil, hp.trim⟩

theorem Drawer.IsRead.trim_value {d : Drawer} (h : d.IsRead) : ∀ p ∈ d.properties, trim p.2 = p.2 := by
  intro p hp
  obtain ⟨l, hl⟩ := h p hp
  rw [property?_eq_field?] at hl
  obtain ⟨r, -, -, -, he⟩ := field?_eq_some_iff.mp hl
  rw [he, trim_trim]

theorem Section.IsRead.trim_property? (h : s.IsRead) (hv : s.property? name = some value) :
    trim value = value := by
  obtain ⟨c, d, hc, hd, ⟨key, hp⟩, -⟩ := property?_eq_some_iff.mp hv
  exact (h.drawers c hc d hd.mem).trim_value _ hp.mem

end Reading

section Navigating

-- The option that is made for `s` finds it again, if none of the sections before it fits as well.
structure Tree.LeadsBack (t : Tree) (before : List Section) (s : Section) : Prop where
  byId : ∀ x, (part s).navigation? = some ("id:".toList ++ x) →
    ∃ r, t.withId? x = some r ∧ r.id? = some x ∧ ((∀ y ∈ before, y.id? ≠ some x) → r = s)
  byCustomId : ∀ c, (part s).navigation? = some ('#' :: c) →
    ∃ r, t.locate? ('#' :: c) = some r ∧ (∃ v, r.customId? = some v ∧ lower v = lower c) ∧
      ((∀ y ∈ before, ∀ v, y.customId? = some v → lower v ≠ lower c) → r = s)
  -- The whole title decides, so no cookie and no other title with the same start gets in between.
  byTitle : ∀ title, (part s).navigation? = some ('*' :: title) →
    ∃ r, t.locate? ('*' :: title) = some r ∧ t.first? (·.hasTitle (lower title)) = some r ∧
      (∃ u, r.headline.title = some u ∧ lower u = lower title) ∧
      ((∀ y ∈ before, ∀ u, y.headline.title = some u → lower u ≠ lower title) → r = s)
  nowhere : (part s).navigation? = none ↔ s.id? = none ∧ s.customId? = none ∧ s.headline.title = none

variable {s : Section} {t : Tree} {before after : List Section} {p : Section → Prop} {option : Text}

-- The id comes before the custom id, and this before the title.
theorem navigation?_cases (s : Section) :
    (∃ x, s.id? = some x ∧ (Tree.part s).navigation? = some ("id:".toList ++ x)) ∨
      (∃ c, s.customId? = some c ∧ (Tree.part s).navigation? = some ('#' :: c)) ∨
        (∃ t, s.headline.title = some t ∧ (Tree.part s).navigation? = some ('*' :: t)) ∨
          s.id? = none ∧ s.customId? = none ∧ given s.headline.title = none ∧
            (Tree.part s).navigation? = none := by
  rw [Tree.navigation?]
  cases s.id?
  case some x => exact .inl ⟨x, rfl, rfl⟩
  case none =>
    cases s.customId?
    case some c => exact .inr (.inl ⟨c, rfl, rfl⟩)
    case none =>
      cases ht : given s.headline.title
      case none   => exact .inr (.inr (.inr ⟨rfl, rfl, rfl, rfl⟩))
      case some t => exact .inr (.inr (.inl ⟨t, (given_eq_some_iff.mp ht).left, rfl⟩))

-- Whoever comes first with the strongest wish is found.
theorem locate?_of_isFirst (hw : (wishes option).head? = some p) (hf : IsFirst p t.preorder s) :
    t.locate? option = some s := by
  obtain ⟨ps, hw⟩ := List.head?_eq_some_iff.mp hw
  rw [Tree.locate?_eq_findBest, findBest_eq_some_iff]
  exact ⟨[], p, ps, hw, hf, List.forall_mem_nil _⟩

theorem first?_of_isFirst {q : Section → Bool} (hq : ∀ y, q y ↔ p y) (hf : IsFirst p t.preorder s) :
    t.first? q = some s := by
  rw [Tree.first?_eq_find?]
  exact (find?_eq_some_iff_isFirst hq).mpr hf

theorem customIdIs_iff {w : Text} : s.CustomIdIs w ↔ ∃ v, s.customId? = some v ∧ lower v = w := by
  simp only [Section.CustomIdIs, Section.customId?, Section.property?_eq_some_iff]

theorem Section.IsRead.titleIs_iff (h : s.IsRead) {w : Text} :
    s.TitleIs w ↔ ∃ u, s.headline.title = some u ∧ lower u = w := by
  refine exists_congr fun u => and_congr_right fun hu => ?_
  rw [(h.title u hu).right]

section Making

variable {x c title : Text}

theorem exists_withId? (h : t.preorder = before ++ s :: after) (hx : s.id? = some x) :
    ∃ r, t.withId? x = some r ∧ r.id? = some x ∧ ((∀ y ∈ before, y.id? ≠ some x) → r = s) := by
  obtain ⟨r, hf, hu⟩ := exists_isFirst_of_eq (p := (·.id? = some x)) h hx
  exact ⟨r, first?_of_isFirst (fun _ => beq_iff_eq) hf, hf.holds, hu⟩

theorem Section.IsRead.exists_byCustomId (hs : s.IsRead) (h : t.preorder = before ++ s :: after)
    (hx : s.customId? = some c) :
    ∃ r, t.locate? ('#' :: c) = some r ∧ (∃ v, r.customId? = some v ∧ lower v = lower c) ∧
      ((∀ y ∈ before, ∀ v, y.customId? = some v → lower v ≠ lower c) → r = s) := by
  have hw : (wishes ('#' :: c)).head? = some (CustomIdIs (lower c)) := by
    rw [wishes, hs.trim_property? hx, List.head?_cons]
  obtain ⟨r, hf, hu⟩ := exists_isFirst_of_eq h (customIdIs_iff.mpr ⟨c, hx, rfl⟩)
  refine ⟨r, locate?_of_isFirst hw hf, customIdIs_iff.mp hf.holds, fun hn => hu fun y hy hi => ?_⟩
  obtain ⟨v, hv, he⟩ := customIdIs_iff.mp hi
  exact hn y hy v hv he

theorem exists_byTitle (hr : ∀ y ∈ t.preorder, y.IsRead) (h : t.preorder = before ++ s :: after)
    (hx : s.headline.title = some title) :
    ∃ r, t.locate? ('*' :: title) = some r ∧ t.first? (·.hasTitle (lower title)) = some r ∧
      (∃ u, r.headline.title = some u ∧ lower u = lower title) ∧
      ((∀ y ∈ before, ∀ u, y.headline.title = some u → lower u ≠ lower title) → r = s) := by
  have hs : s.IsRead := hr s (by simp [h])
  have hw : (wishes ('*' :: title)).head? = some (Section.TitleIs (lower title)) := by
    rw [wishes, (hs.title title hx).right, List.head?_cons]
  obtain ⟨r, hf, hu⟩ := exists_isFirst_of_eq h (hs.titleIs_iff.mpr ⟨title, hx, rfl⟩)
  refine ⟨r, locate?_of_isFirst hw hf, first?_of_isFirst (fun _ => Section.hasTitle_iff) hf,
    (hr r hf.mem).titleIs_iff.mp hf.holds, fun hn => hu fun y hy hi => ?_⟩
  obtain ⟨u, ht, he⟩ := (hr y (by simp [h, hy])).titleIs_iff.mp hi
  exact hn y hy u ht he

theorem Section.IsRead.navigation?_eq_none_iff (hs : s.IsRead) :
    (Tree.part s).navigation? = none ↔ s.id? = none ∧ s.customId? = none ∧ s.headline.title = none := by
  have ht : given s.headline.title = s.headline.title :=
    given_eq_self fun t ht => (hs.title t ht).left
  constructor
  case mp =>
    intro hn
    have hc := navigation?_cases s
    rw [hn, ht] at hc
    simpa using hc
  case mpr =>
    rintro ⟨hi, hc, hn⟩
    rw [Tree.navigation?, hi, hc, hn]
    rfl

end Making

theorem leadsBack_of_isRead (hr : ∀ y ∈ t.preorder, y.IsRead) (h : t.preorder = before ++ s :: after) :
    t.LeadsBack before s := by
  have hs : s.IsRead := hr s (by simp [h])
  have hc := navigation?_cases s
  refine ⟨fun x hn => ?byId, fun c hn => ?byCustomId, fun title hn => ?byTitle, hs.navigation?_eq_none_iff⟩
  all_goals rw [hn] at hc
  case byId       => exact exists_withId? h (by simpa using hc)
  case byCustomId => exact hs.exists_byCustomId h (by simpa using hc)
  case byTitle    => exact exists_byTitle hr h (by simpa using hc)

theorem Document.leadsBack_ofText (t : Text)
    (h : (ofText t).sections.preorder = before ++ s :: after) :
    (Tree.whole (ofText t)).LeadsBack before s :=
  leadsBack_of_isRead (fun _ => Section.isRead_of_mem) h

-- An earlier title goes on behind the same start, and one is the same but for its cookie.
theorem Document.leadsBack_ofText_walks :
    let d := ofText "* Walker\n* Walk [1/2]\n** walk\n".toList
    let s : Section := { headline := { stars := 2, title := some "walk".toList } }
    (Tree.part s).navigation? = some "*walk".toList ∧ (Tree.whole d).locate? "*walk".toList = some s := by
  intro d s
  let before : List Section := [
    { headline := { stars := 1, title := some "Walker".toList } },
    { headline := { stars := 1, title := some "Walk [1/2]".toList }
      sections := .cons s.headline none .nil .nil }]
  have hd : d.sections.preorder = before ++ s :: [] := by decide +kernel
  have hn : (Tree.part s).navigation? = some "*walk".toList := by decide +kernel
  obtain ⟨r, hl, -, -, hr⟩ := (leadsBack_ofText _ hd).byTitle _ hn
  have hb : ∀ y ∈ before, ∀ u ∈ y.headline.title, lower u ≠ lower "walk".toList := by decide +kernel
  exact ⟨hn, hl.trans (congrArg some (hr hb))⟩

end Navigating

end Transclusion
