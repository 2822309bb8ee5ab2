import Transclusion.Expansion

namespace Transclusion

inductive Item
  | heading (h : Headline)
  | element (e : Element)
  deriving DecidableEq

namespace Item

def markup : Item → Text
  | heading h => h.markup
  | element e => e.markup

def keyword? : Item → Option Keyword
  | heading _ => none
  | element e => e.keyword?

-- The item as it prints when `line` tells how keywords do.
def markupWith (line : Keyword → Text) (n : Item) : Text :=
  n.keyword?.elim n.markup line

def weave (style : Style) : Item → List Text → Woven
  | heading h, texts => .ok (h.markup, texts)
  | element e, texts => e.weave style texts

end Item

def bodyItems (c : Option Content) : List Item :=
  c.elim [] (·.map .element)

def Forest.items : Forest → List Item
  | nil => []
  | cons h c i r => .heading h :: (bodyItems c ++ i.items ++ r.items)

namespace Tree

def items : Tree → List Item
  | whole d => bodyItems d.content ++ d.sections.items
  | part s => .heading s.headline :: (bodyItems s.content ++ s.sections.items)

-- The tree as it prints when `line` tells how its keywords do.
def markupWith (line : Keyword → Text) (t : Tree) : Text :=
  t.items.flatMap (Item.markupWith line)

end Tree

section Markup

theorem bodyMarkup_eq_items (c : Option Content) : bodyMarkup c = (bodyItems c).flatMap Item.markup := by
  cases c
  case none   => rfl
  case some c => simp [bodyItems, Content.markup, List.flatMap_map, Item.markup]

theorem Forest.markup_eq_items (f : Forest) : f.markup = f.items.flatMap Item.markup := by
  induction f
  case nil                    => rfl
  case cons h c i r hi hr => simp [markup, items, Item.markup, hi, hr, bodyMarkup_eq_items]

theorem Tree.markup_eq_items (t : Tree) : t.markup = t.items.flatMap Item.markup := by
  cases t
  case whole d =>
    simp [markup, items, Document.markup, bodyMarkup_eq_items, Forest.markup_eq_items]
  case part s =>
    simp [markup, items, Section.markup, Item.markup, bodyMarkup_eq_items, Forest.markup_eq_items]

theorem Item.markupWith_keyword_markup (n : Item) : n.markupWith Keyword.markup = n.markup := by
  cases n
  case heading   => rfl
  case element e => cases e <;> rfl

-- A tree prints as itself when its keywords do.
theorem Tree.markupWith_keyword_markup (t : Tree) : t.markupWith Keyword.markup = t.markup := by
  simp [markupWith, markup_eq_items, funext Item.markupWith_keyword_markup]

end Markup

section Keywords

theorem bodyKeywords_eq_items (c : Option Content) :
    bodyKeywords c = (bodyItems c).filterMap Item.keyword? := by
  cases c
  case none   => rfl
  case some c =>
    simp [bodyItems, bodyKeywords, Content.keywords, List.filterMap_map, Function.comp_def,
      Item.keyword?]

theorem Forest.keywords_eq_items (f : Forest) : f.keywords = f.items.filterMap Item.keyword? := by
  induction f
  case nil                => rfl
  case cons h c i r hi hr =>
    have hn : (Item.heading h).keyword? = none := rfl
    simp [keywords, items, hn, hi, hr, bodyKeywords_eq_items]

theorem Tree.keywords_eq_items (t : Tree) : t.keywords = t.items.filterMap Item.keyword? := by
  cases t
  case whole d => simp [keywords, items, content, sections, bodyKeywords_eq_items, Forest.keywords_eq_items]
  case part s =>
    have hn : (Item.heading s.headline).keyword? = none := rfl
    simp [keywords, items, content, sections, hn, bodyKeywords_eq_items, Forest.keywords_eq_items]

end Keywords

section Weaving

-- One weaving after the other.
def weaveBoth (f g : List Text → Woven) (texts : List Text) : Woven := do
  let (a, texts) ← f texts
  let (b, texts) ← g texts
  .ok (a ++ b, texts)

theorem weaveBoth_assoc (f g h : List Text → Woven) :
    weaveBoth (weaveBoth f g) h = weaveBoth f (weaveBoth g h) := by
  funext texts
  simp only [weaveBoth, bind, Except.bind]
  cases f texts
  case error => rfl
  case ok a =>
    dsimp only
    cases g a.2
    case error => rfl
    case ok b =>
      dsimp only
      cases h b.2 <;> simp

variable (style : Style)

def weaveItems : List Item → List Text → Woven
  | [], texts => .ok ([], texts)
  | n :: ns, texts => weaveBoth (n.weave style) (weaveItems ns) texts

theorem weaveItems_cons (n : Item) (ns : List Item) :
    weaveItems style (n :: ns) = weaveBoth (n.weave style) (weaveItems style ns) := rfl

theorem weaveItems_append (ms ns : List Item) :
    weaveItems style (ms ++ ns) = weaveBoth (weaveItems style ms) (weaveItems style ns) := by
  induction ms
  case nil =>
    funext texts
    simp only [weaveItems, List.nil_append, weaveBoth, bind, Except.bind]
    cases weaveItems style ns texts <;> rfl
  case cons m ms hi => rw [List.cons_append, weaveItems_cons, hi, weaveItems_cons, weaveBoth_assoc]

theorem weaveBody_eq_items (c : Option Content) :
    (weaveBody style · c) = weaveItems style (bodyItems c) := by
  cases c
  case none => rfl
  case some c =>
    induction c
    case nil => rfl
    case cons e es hi =>
      funext texts
      have hi := fun texts => congrFun hi texts
      simp only [weaveBody, bodyItems, Option.elim] at hi
      simp only [weaveBody, bodyItems, Option.elim, Content.weave, List.map_cons, weaveItems,
        weaveBoth, Item.weave, hi]

theorem Forest.weave_cons (h : Headline) (c : Option Content) (i r : Forest) :
    ((cons h c i r).weave style ·) =
      weaveBoth (weaveBoth (weaveBoth (Item.weave style (.heading h)) (weaveBody style · c))
        (i.weave style ·)) (r.weave style ·) := by
  funext texts
  simp only [weave, weaveBoth, Item.weave, bind, Except.bind]
  cases weaveBody style texts c
  case error => rfl
  case ok a =>
    dsimp only
    cases i.weave style a.2 <;> rfl

theorem Forest.weave_eq_items (f : Forest) : (f.weave style ·) = weaveItems style f.items := by
  induction f
  case nil => rfl
  case cons h c i r hi hr =>
    rw [weave_cons, items, weaveItems_cons, weaveItems_append, weaveItems_append, ←hi, ←hr,
      ←weaveBody_eq_items, weaveBoth_assoc, weaveBoth_assoc, weaveBoth_assoc]

theorem Tree.weave_whole (d : Document) :
    ((whole d).weave style ·) = weaveBoth (weaveBody style · d.content) (d.sections.weave style ·) :=
  rfl

theorem Tree.weave_part (s : Section) :
    ((part s).weave style ·) =
      weaveBoth (weaveBoth (Item.weave style (.heading s.headline)) (weaveBody style · s.content))
        (s.sections.weave style ·) := by
  funext texts
  simp only [weave, weaveBoth, Item.weave, content, sections, bind, Except.bind]
  cases weaveBody style texts s.content <;> rfl

theorem Tree.weave_eq_items (t : Tree) : (t.weave style ·) = weaveItems style t.items := by
  cases t
  case whole d =>
    rw [weave_whole, items, weaveItems_append, weaveBody_eq_items, Forest.weave_eq_items]
  case part s =>
    rw [weave_part, items, weaveItems_cons, weaveItems_append, weaveBody_eq_items,
      Forest.weave_eq_items, weaveBoth_assoc]

end Weaving

end Transclusion
