import Transclusion.Proofs.Expansion.Locality
import Transclusion.Proofs.Outline.Origins

namespace Transclusion

open Text

-- A text behind which a new line starts outside of blocks.
structure Document.IsClosed (t : Text) : Prop where
  ended : ∀ c ∈ t.getLast?, c = '\n'
  outside : (Mode.plain.readAll (lines t)).1.block? = none

-- The first line is a headline with one star.
def Document.StartsTree (t : Text) : Prop :=
  ∃ l ∈ (lines t).head?, ∃ h, Headline.ofLine? (bare l) = some h ∧ h.stars = 1

section Reading

variable {es fs : List Entry} {l : Text} {ls ks : List Text} {h : Headline}

theorem Drawer.breaksOff_heading (hl : Construct.ofLine l = .heading h) (ls : List Text) :
    BreaksOff (l :: ls) := by
  rintro _ ⟨⟩
  have hh := Construct.ofLine_eq_heading_iff.mp hl
  have hn (hd : closes (bare l) ∨ property? (bare l) ≠ none) : False := by
    obtain ⟨s, hs⟩ := exists_colon hd
    cases hh.symm.trans (not_heading_of_colon hs)
  exact ⟨Bool.eq_false_iff.mpr fun hc => hn (.inl hc), by_contra fun hp => hn (.inr hp)⟩

-- All that was held back comes before the headline, and nothing else of what came before is left.
theorem Mode.entries_append_heading (hm : (plain.readAll ls).1.block? = none)
    (hl : Construct.ofLine l = .heading h) (ks : List Text) :
    plain.entries (ls ++ l :: ks) = plain.entries ls ++ plain.entries (l :: ks) := by
  have hr : (plain.readAll ls).1.entries (l :: ks) =
      (plain.readAll ls).1.rest ++ plain.entries (l :: ks) := by
    generalize (plain.readAll ls).1 = m at hm
    cases m
    case plain         => rfl
    case block         => cases hm
    case drawer ps ks' => exact entries_breaksOff (Drawer.breaksOff_heading hl ks) ps ks'
  rw [entries_append, hr, ←List.append_assoc]
  rfl

theorem gather_append (hf : StartsSection fs) :
    gather (es ++ fs) = ((gather es).1, (gather es).2 ++ (gather fs).2) := by
  induction es
  case nil =>
    cases fs
    case nil => rfl
    case cons e fs =>
      obtain ⟨x, rfl⟩ := hf e rfl
      rfl
  case cons e es hi => cases e <;> simp [gather, hi]

namespace Forest

theorem roots_subset_headlines (f : Forest) : f.roots ⊆ f.headlines := by
  induction f
  case nil => exact fun _ => id
  case cons h c i r _ hr =>
    rw [roots, headlines_cons]
    exact List.cons_subset_cons h (List.subset_append_of_subset_right _ hr)

-- Trees that start with no more stars than any before them are not taken in.
theorem ofHeadings_append {hs ks : List (Headline × Content)}
    (h : ∀ x ∈ (ofHeadings hs).roots, ∀ y ∈ (ofHeadings ks).roots.head?, y.stars ≤ x.stars) :
    ofHeadings (hs ++ ks) = ofHeadings hs ++ ofHeadings ks := by
  refine ((WellNested.ofHeadings hs).append (.ofHeadings ks) h).ofHeadings_eq ?_
  rw [headings_append, headings_ofHeadings, headings_ofHeadings, List.map_append]

end Forest

theorem Text.completed_append (hk : ks ≠ []) : completed (ls ++ ks) = ls ++ completed ks := by
  induction ls
  case nil => rfl
  case cons l ls hi =>
    rw [List.cons_append, completed, hi, List.cons_append]
    simp [hk]

namespace Document

theorem ofEntries_append (hf : StartsSection fs)
    (hs : ∀ x ∈ (ofEntries es).sections.roots, ∀ y ∈ (ofEntries fs).sections.roots.head?,
      y.stars ≤ x.stars) :
    ofEntries (es ++ fs) =
      ⟨(ofEntries es).content, (ofEntries es).sections ++ (ofEntries fs).sections⟩ := by
  rw [ofEntries_of_gather (gather_append hf), Forest.ofHeadings_append hs]
  rfl

theorem stars_pos_of_mem_roots {t : Text} : ∀ x ∈ (ofText t).sections.roots, 0 < x.stars := by
  intro x hx
  obtain ⟨s, hs, rfl⟩ := List.mem_map.mp (Forest.roots_subset_headlines _ hx)
  obtain ⟨l, hl⟩ := (Section.isRead_of_mem hs).headline
  obtain ⟨n, r, hn, he, _⟩ := Headline.ofLine?_eq_some hl
  rw [he, Headline.ofBody_eq]
  exact hn

variable {t₁ t₂ : Text}

theorem StartsTree.exists_lines (ht : StartsTree t₂) :
    ∃ l ls h, completed (lines t₂) = l :: ls ∧ Construct.ofLine l = .heading h ∧ h.stars = 1 := by
  obtain ⟨l, hl, h, hh, hs⟩ := ht
  obtain ⟨ls, ht⟩ := List.head?_eq_some_iff.mp hl
  have hm := map_bare_completed (lines t₂)
  rw [ht, List.map_cons, List.map_eq_cons_iff] at hm
  obtain ⟨k, ks, hk, hb, _⟩ := hm
  exact ⟨k, ks, h, ht ▸ hk, Construct.ofLine_eq_heading_iff.mpr (hb ▸ hh), hs⟩

theorem IsClosed.completed_append (hc : IsClosed t₁) (ht : lines t₂ ≠ []) :
    completed (lines (t₁ ++ t₂)) = lines t₁ ++ completed (lines t₂) := by
  rw [lines_append_of_getLast?, Text.completed_append ht]
  · intro c he
    rw [hc.ended c he]
    rfl
  · intro hr
    cases hc.ended _ hr

theorem ofText_append (hc : IsClosed t₁) (ht : StartsTree t₂) :
    ofText (t₁ ++ t₂) = ⟨(ofText t₁).content, (ofText t₁).sections ++ (ofText t₂).sections⟩ ∧
      (ofText t₂).content = none := by
  obtain ⟨l, ls, h, hl, hh, hs⟩ := ht.exists_lines
  have hn : lines t₂ ≠ [] := by
    intro hn
    simp [hn, completed] at hl
  have h₁ : ofText t₁ = ofEntries (Mode.plain.entries (lines t₁)) :=
    congrArg (fun ls => ofEntries (Mode.plain.entries ls)) (completed_lines hc.ended)
  have h₂ : ofText t₂ = ofEntries (.heading h :: Mode.plain.entries ls) := by
    rw [←Mode.entries_heading hh, ←hl]
    rfl
  have h₁₂ : ofText (t₁ ++ t₂) =
      ofEntries (Mode.plain.entries (lines t₁) ++ .heading h :: Mode.plain.entries ls) := by
    rw [←Mode.entries_heading hh, ←Mode.entries_append_heading hc.outside hh, ←hl,
      ←hc.completed_append hn]
    rfl
  refine ⟨?_, by rw [h₂]; rfl⟩
  rw [h₁₂, h₁, h₂]
  refine ofEntries_append (.heading h _) fun x hx y hy => ?_
  have hp := stars_pos_of_mem_roots x (h₁ ▸ hx)
  cases hy
  omega

end Document

end Reading

section Printing

variable {t t₁ t₂ : Tree}

theorem Forest.items_append (f g : Forest) : (f ++ g).items = f.items ++ g.items := by
  induction f
  case nil                => rfl
  case cons h c i r _ hr => simp [items, hr]

namespace Tree

theorem markupWith_of_items (h : t.items = t₁.items ++ t₂.items) (line : Keyword → Text) :
    t.markupWith line = t₁.markupWith line ++ t₂.markupWith line := by
  rw [markupWith, h, List.flatMap_append]
  rfl

theorem markup_of_items (h : t.items = t₁.items ++ t₂.items) : t.markup = t₁.markup ++ t₂.markup := by
  simp only [←markupWith_keyword_markup, markupWith_of_items h]

theorem keywords_of_items (h : t.items = t₁.items ++ t₂.items) :
    t.keywords = t₁.keywords ++ t₂.keywords := by
  simp only [keywords_eq_items, h, List.filterMap_append]

theorem directives_of_items (h : t.items = t₁.items ++ t₂.items) :
    t.directives = (do
      let ds₁ ← t₁.directives
      let ds₂ ← t₂.directives
      .ok (ds₁ ++ ds₂)) := by
  rw [directives, directives, directives, keywords_of_items h, List.mapM_append]
  cases t₁.keywords.mapM Directive.ofKeyword
  case error => rfl
  case ok ds =>
    cases t₂.keywords.mapM Directive.ofKeyword
    case error => rfl
    case ok    => simp [bind, Except.bind, pure, Except.pure, Except.map]

end Tree

end Printing

namespace Renderer

variable {r : Renderer} {ancestors : List Text} {t t₁ t₂ : Tree} {c c₁ c₂ : Cache}

-- One comes to nothing else from fewer keywords.
theorem legible_of_subset (hk : t₁.keywords ⊆ t.keywords)
    (hl : ∀ ancestors' u, r.Reaches ancestors t ancestors' u → Legible u.keywords) :
    ∀ ancestors' u, r.Reaches ancestors t₁ ancestors' u → Legible u.keywords := by
  intro ancestors' u hr
  cases hr with
  | here            => exact fun k hm => hl _ _ .here k (hk hm)
  | inside hd hs hr => exact hl _ _ (.inside (List.filterMap_subset _ hk hd) hs hr)

theorem render_of_items (h : t.items = t₁.items ++ t₂.items) (hc : c.Coherent r.library)
    (hc₁ : c₁.Coherent r.library) (hc₂ : c₂.Coherent r.library)
    (hl : ∀ ancestors' u, r.Reaches ancestors t ancestors' u → Legible u.keywords) :
    ∃ s₁ s₂, (r.render ancestors t₁ c₁).result = .ok s₁ ∧
      (r.render ancestors t₂ c₂).result = .ok s₂ ∧
      (r.render ancestors t c).result = .ok (s₁ ++ s₂) := by
  have hk := Tree.keywords_of_items h
  have hl₁ := legible_of_subset (hk ▸ List.subset_append_left _ _) hl
  have hl₂ := legible_of_subset (hk ▸ List.subset_append_right _ _) hl
  refine ⟨_, _, render_of_legible hc₁ hl₁, render_of_legible hc₂ hl₂, ?_⟩
  rw [render_of_legible hc hl, Tree.markupWith_of_items h]

end Renderer

namespace Document

variable {t₁ t₂ : Text}

theorem items_append (hc : IsClosed t₁) (ht : StartsTree t₂) :
    (Tree.whole (ofText (t₁ ++ t₂))).items =
      (Tree.whole (ofText t₁)).items ++ (Tree.whole (ofText t₂)).items := by
  obtain ⟨he, hn⟩ := ofText_append hc ht
  simp only [he, Tree.items, hn, Forest.items_append, ←List.append_assoc]
  simp [bodyItems]

-- The two texts together are read, printed, searched for directives and rendered one after the other.
theorem chapters_stand_alone (hc : IsClosed t₁) (ht : StartsTree t₂) :
    let d := ofText (t₁ ++ t₂)
    let d₁ := ofText t₁
    let d₂ := ofText t₂
    d.content = d₁.content ∧ d.sections = d₁.sections ++ d₂.sections ∧
    d.markup = d₁.markup ++ d₂.markup ∧
    ((Tree.whole d).directives = do
      let ds₁ ← (Tree.whole d₁).directives
      let ds₂ ← (Tree.whole d₂).directives
      .ok (ds₁ ++ ds₂)) ∧
    ∀ (r : Renderer) ancestors (c c₁ c₂ : Cache), c.Coherent r.library → c₁.Coherent r.library →
      c₂.Coherent r.library →
      (∀ ancestors' u, r.Reaches ancestors (.whole d) ancestors' u → Legible u.keywords) →
      ∃ s₁ s₂, (r.render ancestors (.whole d₁) c₁).result = .ok s₁ ∧
        (r.render ancestors (.whole d₂) c₂).result = .ok s₂ ∧
        (r.render ancestors (.whole d) c).result = .ok (s₁ ++ s₂) := by
  intro d d₁ d₂
  obtain ⟨he, _⟩ := ofText_append hc ht
  have hi : (Tree.whole d).items = (Tree.whole d₁).items ++ (Tree.whole d₂).items := items_append hc ht
  have hc : d.content = d₁.content := by rw [show d = _ from he]
  have hs : d.sections = d₁.sections ++ d₂.sections := by rw [show d = _ from he]
  exact ⟨hc, hs, Tree.markup_of_items hi, Tree.directives_of_items hi,
    fun _ _ _ _ _ h h₁ h₂ hl => Renderer.render_of_items hi h h₁ h₂ hl⟩

open Transclusion.Shelf (rooms) in
-- A drawer that nothing closes stands before the headline.
theorem chapters_stand_alone_rooms :
    let t₁ := "dust\n** Cellar\n#+transclude: [[attic.org]]\n:PROPERTIES:\n:ID: c".toList ++ ['\n']
    let t₂ := "* Hall\n#+transclude: [[attic.org]]".toList
    IsClosed t₁ ∧ StartsTree t₂ ∧
      (ofText (t₁ ++ t₂)).sections = (ofText t₁).sections ++ (ofText t₂).sections ∧
      ∃ s₁ s₂,
        (rooms.renderer.render [] (.whole (ofText t₁)) { capacity := 1 }).result = .ok s₁ ∧
        (rooms.renderer.render [] (.whole (ofText t₂)) { capacity := 2 }).result = .ok s₂ ∧
        (rooms.renderer.render [] (.whole (ofText (t₁ ++ t₂))) rooms.cache).result =
          .ok (s₁ ++ s₂) := by
  intro t₁ t₂
  have hc : IsClosed t₁ := ⟨by simp [t₁], by decide +kernel⟩
  have ht : StartsTree t₂ :=
    ⟨t₂.take 7, by decide +kernel, ⟨1, none, none, some "Hall".toList, []⟩, by decide +kernel, rfl⟩
  have hl : ∀ ancestors u, rooms.renderer.Reaches [] (.whole (ofText (t₁ ++ t₂))) ancestors u →
      Legible u.keywords :=
    fun _ _ hr => hr.legible (fun _ _ => Shelf.legible_fetch (s := rooms) (by decide +kernel))
      (by decide +kernel)
  have ⟨_, hs, _, _, hr⟩ := chapters_stand_alone hc ht
  have hx : rooms.cache.Coherent rooms.library := Cache.Coherent.resolve (.of_empty rfl)
  exact ⟨hc, ht, hs, hr rooms.renderer [] _ _ _ hx (.of_empty rfl) (.of_empty rfl) hl⟩

end Document

end Transclusion
