import Transclusion.Reshape
import Transclusion.Proofs.Outline.Excerpts

namespace Transclusion

open Text

variable {es : List Entry} {s : Section}

-- The outline with nothing else in it.
def Tree.alone : Tree → Document
  | whole d => d
  | part s => { sections := .cons s.headline s.content s.sections .nil }

theorem Tree.markup_alone (t : Tree) : t.alone.markup = t.markup := by
  cases t
  case whole => rfl
  case part  => simp [alone, Document.markup, Forest.markup, markup, Section.markup]

namespace Forest

variable {f : Forest} {hs : List (Headline × Content)}

theorem headings_nil : nil.headings = [] := rfl

-- A section stands among all headings with what is nested in it right behind it.
theorem exists_headings_of_mem (h : s ∈ f.preorder) :
    ∃ front back, f.headings = front ++ (s.headline, s.content) :: (s.sections.headings ++ back) := by
  induction f
  case nil => cases h
  case cons x c i r hi hr =>
    rw [preorder, List.mem_cons, List.mem_append] at h
    rcases h with rfl | h | h
    · exact ⟨[], r.headings, by simp⟩
    · obtain ⟨front, back, he⟩ := hi h
      exact ⟨(x, c) :: front, back ++ r.headings, by simp [he]⟩
    · obtain ⟨front, back, he⟩ := hr h
      exact ⟨(x, c) :: (i.headings ++ front), back, by simp [he]⟩

theorem WellNested.of_mem (hf : f.WellNested) (h : s ∈ f.preorder) :
    (Tree.part s).alone.sections.WellNested := by
  induction hf
  case nil => cases h
  case cons hc hs hi hr hii hri =>
    rw [preorder, List.mem_cons, List.mem_append] at h
    rcases h with rfl | h | h
    · exact .cons hc (by simp [roots]) hi .nil
    · exact hii h
    · exact hri h

theorem headings_ofHeadings (hs : List (Headline × Content)) :
    (ofHeadings hs).headings = hs.map fun x => (x.1, x.2.body?) := by
  induction hs
  case nil          => rfl
  case cons x hs hi => simpa [headings, ofHeadings, preorder_graft] using hi

theorem WellNested.ofHeadings_eq (hf : f.WellNested)
    (h : f.headings = hs.map fun x => (x.1, x.2.body?)) : Forest.ofHeadings hs = f :=
  (ofHeadings hs).eq_of_headings hf ((headings_ofHeadings hs).trans h.symm)

end Forest

-- The entries below the headline of a section: those directly below it, and the nested ones.
structure Section.Below (s : Section) (own inner : List Entry) : Prop where
  starts : StartsSection inner
  all : Document.ofEntries (.heading s.headline :: (own ++ inner)) = (Tree.part s).alone
  dropHeading : Document.ofEntries (own ++ inner) = s.dropHeading
  dropSections : Document.ofEntries (.heading s.headline :: own) = (Tree.part s.dropSections).alone
  inner : Document.ofEntries inner = { sections := s.sections }

theorem Document.ofEntries_of_gather {c : Content} {hs : List (Headline × Content)}
    (h : gather es = (c, hs)) : ofEntries es = { content := c.body?, sections := .ofHeadings hs } := by
  rw [ofEntries, h]

theorem Document.exists_below (h : s ∈ (ofEntries es).sections.preorder) :
    ∃ before own inner after, es = before ++ (.heading s.headline :: (own ++ inner) ++ after) ∧
      StartsSection after ∧ s.Below own inner := by
  obtain ⟨_, hs, hg⟩ : ∃ c hs, gather es = (c, hs) := ⟨_, _, rfl⟩
  rw [ofEntries_of_gather hg] at h
  have hw := (Forest.WellNested.ofHeadings hs).of_mem h
  obtain ⟨front, back, hf⟩ := Forest.exists_headings_of_mem h
  rw [Forest.headings_ofHeadings] at hf
  obtain ⟨hs₁, _, rfl, -, h₁⟩ := List.map_eq_append_iff.mp hf
  obtain ⟨⟨x, c⟩, _, rfl, hx, h₂⟩ := List.map_eq_cons_iff.mp h₁
  obtain ⟨ks, hs₂, rfl, hk, -⟩ := List.map_eq_append_iff.mp h₂
  obtain ⟨rfl, hc⟩ := Prod.mk.inj hx
  have hn : Forest.ofHeadings ks = s.sections :=
    (Forest.wellNested_cons_iff.mp hw).right.right.left.ofHeadings_eq hk.symm
  have ha : Forest.ofHeadings ((s.headline, c) :: ks) = (Tree.part s).alone.sections :=
    hw.ofHeadings_eq (by simp [Tree.alone, hc, hk, Forest.headings_nil])
  obtain ⟨before, _, rfl, hm, -, hg₁⟩ := exists_gather hg
  obtain ⟨_, after, rfl, hafter, hg₂, -⟩ :=
    exists_gather (show gather _ = ([], ((s.headline, c) :: ks) ++ hs₂) from hg₁)
  obtain ⟨_, rfl, hg₃⟩ := hm.of_append.exists_heading hg₂
  obtain ⟨own, inner, rfl, hinner, ho, hg₄⟩ :=
    exists_gather (show gather _ = (c, [] ++ ks) from hg₃)
  refine ⟨before, own, inner, after, rfl, hafter, hinner, ?all, ?dropHeading, ?dropSections, ?inner⟩
  case all          => rw [ofEntries_of_gather hg₂, ha]; rfl
  case dropHeading  => rw [ofEntries_of_gather hg₃, hn, hc]; rfl
  case dropSections =>
    have hd : gather (.heading s.headline :: own) = ([], [(s.headline, c)]) := by simp [gather, ho]
    rw [ofEntries_of_gather hd, Tree.alone, Section.dropSections, ←hc]
    rfl
  case inner        => rw [ofEntries_of_gather hg₄, hn]; rfl

theorem Excerpt.ofText_markup_tree {t : Tree} (h : Excerpt es) (hh : HeadingsReread es)
    (ht : Document.ofEntries es = t.alone) (hn : ∀ c ∈ t.markup.getLast?, c = '\n') :
    Document.ofText t.markup = t.alone := by
  rw [←Tree.markup_alone, ←ht, Document.markup_ofEntries] at hn ⊢
  exact h.ofText_markup hh hn

namespace Section.Below

variable {own inner : List Entry}

theorem markup_eq (h : s.Below own inner) :
    s.markup = (Entry.heading s.headline :: (own ++ inner)).flatMap Entry.markup := by
  rw [←Document.markup_ofEntries, h.all]
  exact (Tree.markup_alone (.part s)).symm

theorem markup_dropHeading (h : s.Below own inner) :
    s.dropHeading.markup = (own ++ inner).flatMap Entry.markup := by
  rw [←h.dropHeading, Document.markup_ofEntries]

theorem markup_dropSections (h : s.Below own inner) :
    s.dropSections.markup = (Entry.heading s.headline :: own).flatMap Entry.markup := by
  rw [←Document.markup_ofEntries, h.dropSections]
  exact (Tree.markup_alone (.part s.dropSections)).symm

theorem markup_sections (h : s.Below own inner) :
    s.sections.markup = inner.flatMap Entry.markup := by
  rw [←Document.markup_ofEntries, h.inner]
  rfl

theorem headlines_dropSections (h : s.Below own inner) :
    (Entry.heading s.headline :: own).filterMap Entry.heading? = [s.headline] := by
  rw [←Document.headlines_ofEntries, h.dropSections]
  rfl

theorem ofText_reshape (h : s.Below own inner) (d : Directive)
    (he : Excerpt (.heading s.headline :: (own ++ inner)))
    (hh : HeadingsReread (.heading s.headline :: (own ++ inner)))
    (hn : ∀ c ∈ (d.reshape (.part s)).markup.getLast?, c = '\n') :
    Document.ofText (d.reshape (.part s)).markup = (d.reshape (.part s)).alone := by
  revert hn
  rw [Directive.reshape]
  split
  case isTrue => exact he.tail.ofText_markup_tree (hh.of_subset (by simp)) h.dropHeading
  case isFalse =>
    split
    case isTrue =>
      have hw : Excerpt (.heading s.headline :: own ++ inner) := he
      obtain ⟨ho, -⟩ := hw.cut h.starts
      exact ho.ofText_markup_tree (hh.of_subset (by simp)) h.dropSections
    case isFalse => exact he.ofText_markup_tree hh h.all

end Section.Below

theorem Document.section_self_contained (t : Text) (d : Directive)
    (h : s ∈ (ofText t).sections.preorder)
    (hh : ∀ x ∈ (ofText t).sections.preorder, Headline.ofLine? x.headline.line = some x.headline) :
    let r := d.reshape (.part s)
    ((∀ c ∈ r.markup.getLast?, c = '\n') → ofText r.markup = r.alone) ∧
    lines s.markup <:+: lines (ofText t).markup ∧
    (d.noFirstHeading → lines s.markup = s.headline.markup :: lines r.markup) ∧
    (d.noFirstHeading = false → d.onlyContents →
      lines s.markup = lines r.markup ++ lines s.sections.markup ∧
      headlinesOutside none ((lines r.markup).map bare) = [s.headline] ∧
      (lines s.sections.markup).head? = s.sections.roots.head?.map Headline.markup) := by
  intro r
  have he : Excerpt (Entry.ofLines (completed (lines t))) := .ofLines (lined_lines t).finished
  replace hh : HeadingsReread (Entry.ofLines (completed (lines t))) :=
    (forall_headlines (p := fun x => Headline.ofLine? x.line = some x) _).mp hh
  obtain ⟨before, own, inner, after, hes, ha, hb⟩ := exists_below h
  have hm : (ofText t).markup = _ := markup_ofEntries _
  rw [hes] at he hh hm
  obtain ⟨-, he, hl⟩ := he.cut (.heading _ _)
  obtain ⟨he, -, hl'⟩ := he.cut ha
  have hw : Excerpt (.heading s.headline :: own ++ inner) := he
  obtain ⟨ho, hi, hl''⟩ := hw.cut hb.starts
  replace hh : HeadingsReread (.heading s.headline :: (own ++ inner)) :=
    hh.of_subset fun e h => by simp only [List.mem_append, h, true_or, or_true]
  refine ⟨hb.ofText_reshape d he hh, ?block, fun hd => ?first, fun hf hd => ?kept⟩
  case block =>
    rw [hm, hl, hl', hb.markup_eq]
    exact ⟨_, _, List.append_assoc ..⟩
  case first =>
    have hr : r = .whole s.dropHeading := by simp [r, Directive.reshape, hd]
    rw [hr, Tree.markup, hb.markup_eq, hb.markup_dropHeading]
    exact he.lines_heading _
  case kept =>
    have hr : r = .part s.dropSections := by simp [r, Directive.reshape, hf, hd]
    rw [hr, Tree.markup, hb.markup_eq, hb.markup_dropSections, hb.markup_sections]
    refine ⟨hl'', ?own, ?nested⟩
    case own =>
      rw [ho.headlinesOutside_lines (hh.of_subset (by simp)), hb.headlines_dropSections]
    case nested =>
      have hx := hi.head?_lines hb.starts
      rwa [markup_ofEntries, hb.inner] at hx

-- A drawer that nothing closes stands at the end of the first section and in the nested one.
theorem Document.section_self_contained_drawers :
    let t := "* a\n:properties:\n:x: 1\n** b\n:PROPERTIES:\n*** c\n* d\n".toList
    let s : Section := {
      headline := { stars := 2, title := some "b".toList }
      content := some [.text ":PROPERTIES:\n".toList]
      sections := .cons { stars := 3, title := some "c".toList } none .nil .nil }
    let d : Directive := { link := { body := "b".toList }, onlyContents := true }
    ofText (d.reshape (.part s)).markup = (d.reshape (.part s)).alone ∧
      lines s.markup <:+: lines (ofText t).markup := by
  intro t s d
  have ⟨hr, hl, _, _⟩ := section_self_contained (s := s) t d (by decide +kernel) (by decide +kernel)
  have hn : (d.reshape (.part s)).markup.getLast? = some '\n' := by decide +kernel
  exact ⟨hr fun c hc => (Option.some.inj (hn.symm.trans hc)).symm, hl⟩

end Transclusion
