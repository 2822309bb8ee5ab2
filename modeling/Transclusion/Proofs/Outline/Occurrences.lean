import Transclusion.Proofs.Outline.Items
import Transclusion.Proofs.Results

namespace Transclusion

-- A keyword is no directive if it is an ordinary one or has an overlong level.
def Keyword.directive? (k : Keyword) : Option Directive :=
  match Directive.ofKeyword k with
  | .ok d => d
  | .error _ => none

theorem Keyword.directive?_of_ok {k : Keyword} {d : Option Directive}
    (h : Directive.ofKeyword k = .ok d) : k.directive? = d := by
  simp [directive?, h]

-- Keywords none of which has an overlong level.
def Legible (ks : List Keyword) : Prop :=
  ∀ k ∈ ks, ∃ d, Directive.ofKeyword k = .ok d

theorem legible_iff {ks : List Keyword} :
    Legible ks ↔ ∀ k ∈ ks, (Directive.ofKeyword k).toBool = true := by
  refine forall₂_congr fun k _ => ?_
  cases Directive.ofKeyword k <;> simp [Except.toBool]

instance (ks : List Keyword) : Decidable (Legible ks) :=
  decidable_of_iff _ legible_iff.symm

theorem legible_cons_iff {k : Keyword} {ks : List Keyword} :
    Legible (k :: ks) ↔ (∃ d, Directive.ofKeyword k = .ok d) ∧ Legible ks := by
  simp [Legible]

theorem mapM_ofKeyword_eq_ok_iff {ks : List Keyword} {ds : List (Option Directive)} :
    ks.mapM Directive.ofKeyword = .ok ds ↔ Legible ks ∧ ds = ks.map Keyword.directive? := by
  rw [mapM_eq_ok_iff]
  induction ks generalizing ds
  case nil => simp [Legible]
  case cons k ks hi =>
    simp only [List.forall₂_cons_left_iff, hi, legible_cons_iff, List.map_cons]
    constructor
    case mp =>
      rintro ⟨d, _, hk, ⟨hks, rfl⟩, rfl⟩
      exact ⟨⟨⟨d, hk⟩, hks⟩, by rw [Keyword.directive?_of_ok hk]⟩
    case mpr =>
      rintro ⟨⟨⟨d, hk⟩, hks⟩, rfl⟩
      exact ⟨d, _, hk, ⟨hks, rfl⟩, by rw [Keyword.directive?_of_ok hk]⟩

namespace Tree

variable {t : Tree}

-- Without those that have an overlong level.
def occurrences (t : Tree) : List Directive :=
  t.keywords.filterMap Keyword.directive?

theorem directives_eq_ok_iff {ds : List Directive} :
    t.directives = .ok ds ↔ Legible t.keywords ∧ ds = t.occurrences := by
  cases h : t.keywords.mapM Directive.ofKeyword
  case error =>
    simp only [directives, h, Except.map, reduceCtorEq, false_iff, not_and]
    intro hl
    cases h.symm.trans (mapM_ofKeyword_eq_ok_iff.mpr ⟨hl, rfl⟩)
  case ok =>
    have ⟨hl, he⟩ := mapM_ofKeyword_eq_ok_iff.mp h
    simp [directives, h, Except.map, hl, he, occurrences, List.filterMap_map, eq_comm]

theorem directives_of_legible (h : Legible t.keywords) : t.directives = .ok t.occurrences :=
  directives_eq_ok_iff.mpr ⟨h, rfl⟩

end Tree

section Filling

variable {style : Style}

def Item.directive? (n : Item) : Option Directive :=
  n.keyword?.bind Keyword.directive?

theorem Tree.occurrences_eq_items (t : Tree) : t.occurrences = t.items.filterMap Item.directive? := by
  rw [occurrences, keywords_eq_items, List.filterMap_filterMap]
  rfl

-- The line of a keyword, with `text` in the place of a directive.
def Style.line (style : Style) (text : Directive → Text) (k : Keyword) : Text :=
  match k.directive? with
  | some d => (if style.keepDirectives then k.markup else []) ++ text d
  | none => k.markup

-- The items as they print with the given texts in the places of the directives.
def fillItems (style : Style) : List Item → List Text → Text
  | [], _ => []
  | n :: ns, texts =>
    match n.directive?, texts with
    | some _, t :: texts =>
      (if style.keepDirectives then n.markup else []) ++ t ++ fillItems style ns texts
    | _, texts => n.markup ++ fillItems style ns texts

theorem Item.weave_of_some {n : Item} {d : Directive} (h : n.directive? = some d) (style : Style)
    (t : Text) (texts : List Text) :
    n.weave style (t :: texts) = .ok ((if style.keepDirectives then n.markup else []) ++ t, texts) := by
  cases n
  case heading => simp [directive?, keyword?] at h
  case element e =>
    cases e <;> simp only [directive?, keyword?, Element.keyword?, Option.bind, reduceCtorEq] at h
    case keyword k =>
      rw [Keyword.directive?] at h
      split at h
      case h_1 hk => simp [weave, Element.weave, hk, h, markup, Element.markup]
      case h_2    => cases h

theorem Item.weave_of_none {n : Item} {texts : List Text}
    (hl : ∀ k, n.keyword? = some k → ∃ d, Directive.ofKeyword k = .ok d)
    (h : n.directive? = none) : n.weave style texts = .ok (n.markup, texts) := by
  cases n
  case heading => rfl
  case element e =>
    cases e
    case keyword k =>
      have ⟨d, hd⟩ := hl k rfl
      have hn : d = none := Keyword.directive?_of_ok hd ▸ h
      simp [weave, Element.weave, hd, hn, markup, Element.markup]
    all_goals rfl

-- Weaving takes one text for each directive and leaves the others.
theorem weaveItems_eq_fill {ns : List Item} {us rest : List Text}
    (hl : Legible (ns.filterMap Item.keyword?))
    (hu : us.length = (ns.filterMap Item.directive?).length) :
    weaveItems style ns (us ++ rest) = .ok (fillItems style ns us, rest) := by
  induction ns generalizing us
  case nil =>
    cases List.length_eq_zero_iff.mp hu
    rfl
  case cons n ns hi =>
    have hn : ∀ k, n.keyword? = some k → ∃ d, Directive.ofKeyword k = .ok d :=
      fun k hk => hl k (by simp [hk])
    have hs : Legible (ns.filterMap Item.keyword?) := by
      intro k hk
      have ⟨m, hm, hk⟩ := List.mem_filterMap.mp hk
      exact hl k (List.mem_filterMap.mpr ⟨m, List.mem_cons_of_mem _ hm, hk⟩)
    cases hd : n.directive?
    case none =>
      rw [List.filterMap_cons_none hd] at hu
      simp only [weaveItems, weaveBoth, Item.weave_of_none hn hd, hi hs hu, fillItems, hd, bind,
        Except.bind]
    case some d =>
      rw [List.filterMap_cons_some hd] at hu
      obtain ⟨u, us, rfl⟩ := List.exists_cons_of_length_eq_add_one hu
      have hw := Item.weave_of_some hd style u (us ++ rest)
      simp only [weaveItems, weaveBoth, List.cons_append, hw, hi hs (Nat.succ.inj hu), fillItems, hd,
        bind, Except.bind]

theorem Tree.weave_eq_fill {t : Tree} {us : List Text} (hl : Legible t.keywords)
    (hu : us.length = t.occurrences.length) (style : Style) (rest : List Text) :
    t.weave style (us ++ rest) = .ok (fillItems style t.items us, rest) := by
  have hw := congrFun (weave_eq_items style t) (us ++ rest)
  exact hw.trans (weaveItems_eq_fill (keywords_eq_items t ▸ hl) (occurrences_eq_items t ▸ hu))

theorem Item.markupWith_line (n : Item) (text : Directive → Text) :
    n.markupWith (style.line text) =
      match n.directive? with
      | some d => (if style.keepDirectives then n.markup else []) ++ text d
      | none => n.markup := by
  cases n
  case heading   => rfl
  case element e => cases e <;> rfl

theorem fillItems_map (ns : List Item) (text : Directive → Text) :
    fillItems style ns ((ns.filterMap Item.directive?).map text) =
      ns.flatMap (Item.markupWith (style.line text)) := by
  induction ns
  case nil => rfl
  case cons n ns hi =>
    cases hd : n.directive? <;> simp [fillItems, Item.markupWith_line, hd, hi]

theorem Tree.fill_occurrences (t : Tree) (text : Directive → Text) :
    fillItems style t.items (t.occurrences.map text) = t.markupWith (style.line text) := by
  rw [occurrences_eq_items, fillItems_map]
  rfl

-- With a text for each directive that depends on nothing else, weaving replaces the lines.
theorem Tree.weave_map_occurrences {t : Tree} (hl : Legible t.keywords) (style : Style)
    (text : Directive → Text) (rest : List Text) :
    t.weave style (t.occurrences.map text ++ rest) = .ok (t.markupWith (style.line text), rest) := by
  rw [weave_eq_fill hl (List.length_map text) style rest, fill_occurrences]

end Filling

end Transclusion
