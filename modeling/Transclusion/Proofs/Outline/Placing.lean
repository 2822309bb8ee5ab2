import Transclusion.Proofs.Outline.Occurrences
import Transclusion.Proofs.Outline.Visits

namespace Transclusion

open Text

-- What stands between texts, and these texts.
def interleave (gaps texts : List Text) : Text :=
  (List.zipWith (· ++ ·) gaps (texts ++ [[]])).flatten

-- What is put in the place of the line of a directive.
def Style.placed (style : Style) (line text : Text) : Text :=
  (if style.keepDirectives then line else []) ++ text

def Keyword.isDirective (k : Keyword) : Bool :=
  k.directive?.isSome

def Item.isDirective (n : Item) : Bool :=
  n.directive?.isSome

-- What prints before, between and behind the directives among the items.
def gaps (ns : List Item) : List Text :=
  (ns.splitOnP Item.isDirective).map (·.flatMap Item.markup)

namespace Tree

variable (t : Tree)

def between : List Text :=
  gaps t.items

-- The lines of the directives as they print, in document order.
def directiveLines : List Text :=
  (t.keywords.filter Keyword.isDirective).map Keyword.markup

-- A walk that keeps the directives that it comes to.
def collect (found : List Directive) : Bool × List Directive :=
  t.visitKeywords (fun k found => (true, found ++ k.directive?.toList)) found

-- A walk that ends at the first keyword that is marked as a directive.
def meets : Bool :=
  (t.visitKeywords (fun k met => (!Directive.isMarked k, met || Directive.isMarked k)) false).2

-- The four ways through a tree agree about its directives.
structure Aligned (ds : List Directive) : Prop where
  collected : ∀ found, t.collect found = (true, found ++ ds)
  lines : t.directiveLines.length = ds.length
  gaps : t.between.length = ds.length + 1
  printed : t.markup = interleave t.between t.directiveLines
  woven : ∀ style texts rest, texts.length = ds.length →
    t.weave style (texts ++ rest) =
      .ok (interleave t.between (t.directiveLines.zipWith style.placed texts), rest)
  unchanged : ∀ style, style.keepDirectives = false →
    t.weave style t.directiveLines = .ok (t.markup, [])

end Tree

section Walks

theorem askEach_collect (ks : List Keyword) (found : List Directive) :
    askEach (fun k found => (true, found ++ k.directive?.toList)) ks found =
      (true, found ++ ks.filterMap Keyword.directive?) := by
  induction ks generalizing found
  case nil          => simp [askEach]
  case cons k ks hi => cases hk : k.directive? <;> simp [askEach, andThen, hi, hk]

theorem Tree.collect_eq (t : Tree) (found : List Directive) :
    t.collect found = (true, found ++ t.occurrences) := by
  rw [collect, visitKeywords_eq_askEach, askEach_collect, occurrences]

theorem askEach_meets (ks : List Keyword) :
    (askEach (fun k met => (!Directive.isMarked k, met || Directive.isMarked k)) ks false).2 =
      ks.any Directive.isMarked := by
  induction ks
  case nil          => rfl
  case cons k ks hi => cases hk : Directive.isMarked k <;> simp [askEach, andThen, hi, hk]

theorem Tree.hasDirectives_eq_meets (t : Tree) : t.hasDirectives = t.meets := by
  rw [meets, visitKeywords_eq_askEach, askEach_meets, hasDirectives]

end Walks

section Gaps

variable {ns : List Item} {n : Item} {gs texts : List Text}

theorem interleave_cons (g t : Text) (gs texts : List Text) :
    interleave (g :: gs) (t :: texts) = g ++ t ++ interleave gs texts := by
  simp [interleave]

theorem interleave_modifyHead (hg : gs ≠ []) (s : Text) (texts : List Text) :
    interleave (gs.modifyHead (s ++ ·)) texts = s ++ interleave gs texts := by
  obtain ⟨g, gs, rfl⟩ := List.exists_cons_of_ne_nil hg
  cases texts <;> simp [interleave]

theorem gaps_ne_nil (ns : List Item) : gaps ns ≠ [] := by
  simp [gaps, List.splitOnP_ne_nil]

theorem gaps_cons_of_directive (h : n.isDirective) : gaps (n :: ns) = [] :: gaps ns := by
  simp [gaps, List.splitOnP_cons_eq_if_modifyHead, h]

theorem gaps_cons_of_not_directive (h : n.isDirective = false) :
    gaps (n :: ns) = (gaps ns).modifyHead (n.markup ++ ·) := by
  obtain ⟨m, ms, hs⟩ := List.exists_cons_of_ne_nil (List.splitOnP_ne_nil Item.isDirective ns)
  simp [gaps, List.splitOnP_cons_eq_if_modifyHead, h, hs]

theorem length_gaps (ns : List Item) : (gaps ns).length = (ns.filterMap Item.directive?).length + 1 := by
  induction ns
  case nil => rfl
  case cons n ns hi =>
    cases hd : n.directive?
    case none =>
      have hn : n.isDirective = false := by simp [Item.isDirective, hd]
      simp [gaps_cons_of_not_directive hn, hi, hd]
    case some d =>
      have hn : n.isDirective := by simp [Item.isDirective, hd]
      simp [gaps_cons_of_directive hn, hi, hd]

-- The items as they print, taken apart at the directives and put together again.
theorem flatMap_markup_eq_interleave (ns : List Item) :
    ns.flatMap Item.markup =
      interleave (gaps ns) ((ns.filter Item.isDirective).map Item.markup) := by
  induction ns
  case nil => rfl
  case cons n ns hi =>
    cases hn : n.isDirective
    case false =>
      rw [gaps_cons_of_not_directive hn, interleave_modifyHead (gaps_ne_nil ns), List.flatMap_cons, hi,
        List.filter_cons_of_neg (by simp [hn])]
    case true =>
      rw [gaps_cons_of_directive hn, List.filter_cons_of_pos hn, List.map_cons, interleave_cons,
        List.flatMap_cons, hi, List.nil_append]

theorem fillItems_eq_interleave (style : Style)
    (h : texts.length = (ns.filterMap Item.directive?).length) :
    fillItems style ns texts =
      interleave (gaps ns)
        (((ns.filter Item.isDirective).map Item.markup).zipWith style.placed texts) := by
  induction ns generalizing texts
  case nil =>
    cases List.length_eq_zero_iff.mp h
    rfl
  case cons n ns hi =>
    cases hd : n.directive?
    case none =>
      have hn : n.isDirective = false := by simp [Item.isDirective, hd]
      rw [List.filterMap_cons_none hd] at h
      rw [gaps_cons_of_not_directive hn, interleave_modifyHead (gaps_ne_nil ns),
        List.filter_cons_of_neg (by simp [hn]), ←hi h]
      simp [fillItems, hd]
    case some d =>
      have hn : n.isDirective := by simp [Item.isDirective, hd]
      rw [List.filterMap_cons_some hd] at h
      obtain ⟨t, texts, rfl⟩ := List.exists_cons_of_length_eq_add_one h
      rw [gaps_cons_of_directive hn, List.filter_cons_of_pos hn, List.map_cons, List.zipWith_cons_cons,
        interleave_cons, ←hi (Nat.succ.inj h)]
      simp [fillItems, hd, Style.placed]

end Gaps

namespace Tree

variable {t : Tree}

theorem directiveLines_eq_items (t : Tree) :
    t.directiveLines = (t.items.filter Item.isDirective).map Item.markup := by
  rw [directiveLines, keywords_eq_items]
  induction t.items
  case nil => rfl
  case cons n ns hi =>
    rcases n with h | k | d | s
    case element.keyword =>
      have hn : Item.isDirective (.element (.keyword k)) = k.isDirective := rfl
      rw [List.filterMap_cons_some (show Item.keyword? (.element (.keyword k)) = some k from rfl)]
      cases hk : k.isDirective
      case false => rw [List.filter_cons_of_neg (by simp [hk]), List.filter_cons_of_neg (by simp [hn, hk]), hi]
      case true =>
        rw [List.filter_cons_of_pos hk, List.filter_cons_of_pos (by simp [hn, hk]), List.map_cons, hi]
        rfl
    all_goals exact hi

theorem length_directiveLines (t : Tree) : t.directiveLines.length = t.occurrences.length := by
  rw [directiveLines, List.length_map, occurrences, List.length_filterMap_eq_countP,
    List.countP_eq_length_filter]
  rfl

theorem markup_eq_interleave (t : Tree) : t.markup = interleave t.between t.directiveLines := by
  rw [markup_eq_items, flatMap_markup_eq_interleave, directiveLines_eq_items, between]

theorem weave_eq_interleave {texts : List Text} (hl : Legible t.keywords)
    (ht : texts.length = t.occurrences.length) (style : Style) (rest : List Text) :
    t.weave style (texts ++ rest) =
      .ok (interleave t.between (t.directiveLines.zipWith style.placed texts), rest) := by
  rw [weave_eq_fill hl ht, directiveLines_eq_items, between]
  rw [occurrences_eq_items] at ht
  rw [fillItems_eq_interleave style ht]

theorem zipWith_placed_self {style : Style} (h : style.keepDirectives = false) (lines : List Text) :
    lines.zipWith style.placed lines = lines := by
  simp [List.zipWith_self, Style.placed, h]

theorem aligned (h : Legible t.keywords) : t.Aligned t.occurrences := by
  constructor
  case collected => exact t.collect_eq
  case lines     => exact t.length_directiveLines
  case gaps      => rw [between, length_gaps, occurrences_eq_items]
  case printed   => exact t.markup_eq_interleave
  case woven     => exact fun style texts rest ht => weave_eq_interleave h ht style rest
  case unchanged =>
    intro style hk
    have hw := weave_eq_interleave h t.length_directiveLines style []
    rwa [List.append_nil, zipWith_placed_self hk, ←markup_eq_interleave] at hw

-- Only a marked keyword can be a directive, or have an overlong level.
theorem ofKeyword_of_not_isMarked {k : Keyword} (h : Directive.isMarked k = false) :
    Directive.ofKeyword k = .ok none := by
  simp [Directive.ofKeyword, h]

theorem directives_of_not_hasDirectives (h : t.hasDirectives = false) :
    Legible t.keywords ∧ t.directives = .ok [] := by
  have hk : ∀ k ∈ t.keywords, Directive.ofKeyword k = .ok none := by
    simp only [hasDirectives, List.any_eq_false, Bool.not_eq_true] at h
    exact fun k hm => ofKeyword_of_not_isMarked (h k hm)
  have hl : Legible t.keywords := fun k hm => ⟨none, hk k hm⟩
  refine ⟨hl, directives_eq_ok_iff.mpr ⟨hl, ?_⟩⟩
  refine (List.filterMap_eq_nil_iff.mpr fun k hm => ?_).symm
  exact Keyword.directive?_of_ok (hk k hm)

theorem render_of_not_hasDirectives (h : t.hasDirectives = false) (r : Renderer) (ancestors : List Text)
    (cache : Cache) : r.render ancestors t cache = ⟨.ok t.markup, cache, []⟩ := by
  have ⟨hl, hd⟩ := directives_of_not_hasDirectives h
  have hx : r.expandAll (r.levelsLeft ancestors) [] cache = ⟨.ok [], cache, []⟩ := by
    cases r.levelsLeft ancestors <;> rfl
  have hn : ([] : List Text).length = t.occurrences.length := by
    rw [←(directives_eq_ok_iff.mp hd).right]
    rfl
  have hz : t.directiveLines = [] :=
    List.length_eq_zero_iff.mp (t.length_directiveLines.trans hn.symm)
  have hw : t.weave r.style [] = .ok (t.markup, []) := by
    have hi := weave_eq_interleave hl hn r.style []
    rw [hz] at hi
    rwa [markup_eq_interleave, hz]
  simp only [Renderer.render, hd, List.map_nil, hx, Except.bind, hw, Except.map]

-- No text is moved to the place of another, none is missing and none is left over.
theorem directives_stay_aligned (t : Tree) :
    (Legible t.keywords → ∃ ds, t.directives = .ok ds ∧ t.Aligned ds) ∧
      t.hasDirectives = t.meets ∧
      (t.hasDirectives = false → t.directives = .ok [] ∧
        ∀ (r : Renderer) ancestors cache, r.render ancestors t cache = ⟨.ok t.markup, cache, []⟩) ∧
      ∀ ds, t.directives = .ok ds → ds ≠ [] → t.hasDirectives := by
  refine ⟨fun h => ⟨_, directives_of_legible h, aligned h⟩, t.hasDirectives_eq_meets, fun h => ?_, ?_⟩
  · exact ⟨(directives_of_not_hasDirectives h).right, render_of_not_hasDirectives h⟩
  · intro ds hd hn
    by_contra h
    rw [Bool.not_eq_true] at h
    cases hd.symm.trans (directives_of_not_hasDirectives h).right
    exact hn rfl

-- One directive in two places, and a marked line that is none.
theorem directives_stay_aligned_halls :
    let k : Keyword := ⟨"#+transclude:".toList, some "[[a]]".toList⟩
    let loft : Forest := .cons ⟨2, none, none, some "Loft".toList, []⟩
      (some [.keyword ⟨k.key, none⟩, .keyword k, .text "dust\n".toList]) .nil .nil
    let t : Tree := .whole ⟨some [.keyword k], .cons ⟨1, none, none, some "Hall".toList, []⟩ none loft .nil⟩
    Legible t.keywords ∧
      t.weave { keepDirectives := true } ["one\n".toList, "two\n".toList] =
        .ok ("#+transclude: [[a]]\none\n* Hall\n** Loft\n#+transclude:\n#+transclude: [[a]]\ntwo\ndust\n".toList,
          []) ∧
      t.hasDirectives := by
  intro k loft t
  have hl : Legible t.keywords := by decide +kernel
  have ⟨hs, _, _, hh⟩ := t.directives_stay_aligned
  have ⟨ds, hd, ha⟩ := hs hl
  have hn : ds.length = 2 := by
    rw [←ha.lines]
    decide +kernel
  refine ⟨hl, ?_, hh ds hd (List.ne_nil_of_length_eq_add_one hn)⟩
  have hw := ha.woven { keepDirectives := true } ["one\n".toList, "two\n".toList] [] hn.symm
  refine hw.trans ?_
  decide +kernel

end Tree

end Transclusion
