import Transclusion.Locate
import Transclusion.Proofs.Outline.Visits
import Transclusion.Proofs.Text.Blank
import Transclusion.Proofs.Text.Pieces

namespace Transclusion

open Text

section Firsts

variable {α : Type} {p : α → Prop} {q : α → Bool} {xs : List α} {x : α}

def IsFirst (p : α → Prop) (xs : List α) (x : α) : Prop :=
  ∃ before after, xs = before ++ x :: after ∧ p x ∧ ∀ y ∈ before, ¬p y

-- The first member with a property that some member has, while none has a property listed before it.
def IsBest (ps : List (α → Prop)) (xs : List α) (x : α) : Prop :=
  ∃ stronger p others, ps = stronger ++ p :: others ∧ IsFirst p xs x ∧ ∀ q ∈ stronger, ∀ y ∈ xs, ¬q y

theorem IsFirst.mem (h : IsFirst p xs x) : x ∈ xs := by
  obtain ⟨_, _, rfl, _⟩ := h
  simp

theorem IsFirst.holds (h : IsFirst p xs x) : p x :=
  have ⟨_, _, _, hx, _⟩ := h
  hx

theorem find?_eq_some_iff_isFirst (h : ∀ y, q y = true ↔ p y) :
    xs.find? q = some x ↔ IsFirst p xs x := by
  simp only [List.find?_eq_some_iff_append, IsFirst, ←h, Bool.not_eq_true', Bool.not_eq_true]
  constructor
  case mp =>
    rintro ⟨hx, before, after, he, hb⟩
    exact ⟨before, after, he, hx, hb⟩
  case mpr =>
    rintro ⟨before, after, he, hx, hb⟩
    exact ⟨hx, before, after, he, hb⟩

open scoped Classical in
theorem find?_decide_eq_some_iff : xs.find? (fun y => decide (p y)) = some x ↔ IsFirst p xs x :=
  find?_eq_some_iff_isFirst fun _ => decide_eq_true_iff

-- One search for each property, until there is a result.
open scoped Classical in
noncomputable def findBest (ps : List (α → Prop)) (xs : List α) : Option α :=
  ps.findSome? fun p => xs.find? fun x => decide (p x)

variable {ps : List (α → Prop)}

theorem findBest_eq_some_iff : findBest ps xs = some x ↔ IsBest ps xs x := by
  simp only [findBest, List.findSome?_eq_some_iff, find?_decide_eq_some_iff, IsBest, List.find?_eq_none,
    decide_eq_true_eq]

theorem findBest_eq_none_iff : findBest ps xs = none ↔ ∀ p ∈ ps, ∀ x ∈ xs, ¬p x := by
  simp only [findBest, List.findSome?_eq_none_iff, List.find?_eq_none, decide_eq_true_eq]

end Firsts

section Properties

-- The first property of that name, which may be written in any case.
def Drawer.Gives (d : Drawer) (name value : Text) : Prop :=
  ∃ key, IsFirst (fun p => upper p.1 = name) d.properties (key, value)

-- Only the first drawer gives a value, and only one that is not empty.
def Section.Gives (s : Section) (name value : Text) : Prop :=
  ∃ c d, s.content = some c ∧ IsFirst (fun e => ∃ d, e = .drawer d) c (.drawer d) ∧
    d.Gives name value ∧ value ≠ []

variable {d : Drawer} {s : Section} {c : Content} {name value : Text}

theorem Drawer.get?_eq_some_iff : d.get? name = some value ↔ d.Gives name value := by
  have hf (p : Text × Text) : d.properties.find? (fun p => upper p.1 == name) = some p ↔
      IsFirst (fun p => upper p.1 = name) d.properties p :=
    find?_eq_some_iff_isFirst fun _ => beq_iff_eq
  simp only [get?, Option.map_eq_some_iff, hf, Gives, Prod.exists]
  simp

theorem Element.drawer?_eq_some_iff {e : Element} : e.drawer? = some d ↔ e = .drawer d := by
  cases e <;> simp [drawer?]

theorem Content.findDrawer_eq_some_iff :
    c.findSome? Element.drawer? = some d ↔ IsFirst (fun e => ∃ d, e = .drawer d) c (.drawer d) := by
  have hn (e : Element) : e.drawer? = none ↔ ¬∃ d, e = .drawer d := by
    simp only [Option.eq_none_iff_forall_ne_some, ne_eq, Element.drawer?_eq_some_iff, not_exists]
  simp only [List.findSome?_eq_some_iff, Element.drawer?_eq_some_iff, hn, IsFirst]
  constructor
  case mp =>
    rintro ⟨above, _, below, he, rfl, ha⟩
    exact ⟨above, below, he, ⟨d, rfl⟩, ha⟩
  case mpr =>
    rintro ⟨above, below, he, _, ha⟩
    exact ⟨above, _, below, he, rfl, ha⟩

theorem Section.property?_eq_some_iff : s.property? name = some value ↔ s.Gives name value := by
  simp only [property?, given_eq_some_iff, drawer?, Option.bind_eq_some_iff, Drawer.get?_eq_some_iff,
    Content.findDrawer_eq_some_iff, Gives]
  constructor
  case mp =>
    rintro ⟨⟨d, ⟨c, hc, hd⟩, hv⟩, hn⟩
    exact ⟨c, d, hc, hd, hv, hn⟩
  case mpr =>
    rintro ⟨c, d, hc, hd, hv, hn⟩
    exact ⟨⟨d, ⟨c, hc, hd⟩, hv⟩, hn⟩

end Properties

section Cookies

variable {t w front : Text}

-- A statistics cookie such as `[2/7]` or `[50%]`.
def IsCookie (s : Text) : Prop :=
  ∃ inner, s = '[' :: inner ++ [']'] ∧ inner ≠ [] ∧ ∀ c ∈ inner, isCookieChar c

-- Behind `front` there is one cookie and nothing else.
def EndsInCookie (t front : Text) : Prop :=
  ∃ cookie tail, t = front ++ cookie ++ tail ∧ IsCookie cookie ∧ isAllBlank tail

theorem withoutCookie_of_endsInCookie (h : EndsInCookie t front) : withoutCookie t = trimEnd front := by
  obtain ⟨_, tail, rfl, ⟨inner, rfl, hn, hi⟩, ht⟩ := h
  have hl : ∀ c ∈ (front ++ '[' :: inner ++ [']']).getLast?, isBlank c = false := by
    rw [List.getLast?_concat]
    rintro _ ⟨⟩
    decide
  have hr : (trimEnd (front ++ ('[' :: inner ++ [']']) ++ tail)).reverse =
      ']' :: (inner.reverse ++ '[' :: front.reverse) := by
    rw [trimEnd_append ht, ←List.append_assoc, trimEnd_of_getLast? hl]
    simp
  have hb : ∀ c ∈ ('[' :: front.reverse).head?, isCookieChar c = false := by
    have hc : isCookieChar '[' = false := by decide
    simpa using hc
  have hc : ∀ c ∈ inner.reverse, isCookieChar c := by simpa using hi
  obtain ⟨c, s, hs⟩ := List.exists_cons_of_ne_nil (mt List.reverse_eq_nil_iff.mp hn)
  simp only [withoutCookie, hr, takeWhile_append_of_head? hc hb, dropWhile_append_of_head? hc hb]
  rw [hs]
  simp only [List.reverse_reverse]

theorem withoutCookie_of_not (h : ∀ front, ¬EndsInCookie t front) : withoutCookie t = t := by
  rw [withoutCookie]
  split
  case h_2 => rfl
  case h_1 r hr =>
    split
    case h_2 => rfl
    case h_1 c inner before hi hb =>
      have he : r = c :: inner ++ '[' :: before := by rw [←hi, ←hb, List.takeWhile_append_dropWhile]
      have ht : trimEnd t = before.reverse ++ ('[' :: (c :: inner).reverse ++ [']']) := by
        rw [←List.reverse_reverse (trimEnd t), hr, he]
        simp
      refine absurd ⟨_, t.rtakeWhile isBlank, ?_, ⟨(c :: inner).reverse, rfl, by simp, ?_⟩, ?_⟩ (h before.reverse)
      · rw [←ht]
        exact List.rdropWhile_append_rtakeWhile.symm
      · intro a ha
        rw [←hi, List.mem_reverse] at ha
        exact List.mem_takeWhile_imp ha
      · exact List.all_eq_true.mpr fun _ => List.mem_rtakeWhile_imp

-- What a title is but for a cookie, as titles are compared.
def IsButCookie (t w : Text) : Prop :=
  (∃ front, EndsInCookie t front ∧ lower (trim front) = w) ∨
    (∀ front, ¬EndsInCookie t front) ∧ lower (trim t) = w

theorem lower_trim_withoutCookie_eq_iff : lower (trim (withoutCookie t)) = w ↔ IsButCookie t w := by
  by_cases h : ∃ front, EndsInCookie t front
  case neg =>
    rw [withoutCookie_of_not (not_exists.mp h)]
    exact ⟨fun he => .inr ⟨not_exists.mp h, he⟩, fun he => (he.resolve_left fun ⟨f, hf, _⟩ => h ⟨f, hf⟩).right⟩
  case pos =>
    constructor
    case mp =>
      rintro rfl
      obtain ⟨front, hf⟩ := h
      exact .inl ⟨front, hf, by rw [withoutCookie_of_endsInCookie hf, trim_trimEnd]⟩
    case mpr =>
      rintro (⟨front, hf, rfl⟩ | ⟨hn, _⟩)
      · rw [withoutCookie_of_endsInCookie hf, trim_trimEnd]
      · exact absurd h (not_exists.mpr hn)

end Cookies

section Wishes

namespace Section

def TitleIs (w : Text) (s : Section) : Prop :=
  ∃ t ∈ s.headline.title, lower (trim t) = w

def TitleIsButCookie (w : Text) (s : Section) : Prop :=
  ∃ t ∈ s.headline.title, IsButCookie t w

def TitleStarts (w : Text) (s : Section) : Prop :=
  ∃ t ∈ s.headline.title, w <+: lower (trim t)

def CustomIdIs (w : Text) (s : Section) : Prop :=
  ∃ v, s.Gives "CUSTOM_ID".toList v ∧ lower v = w

def IdIs (w : Text) (s : Section) : Prop :=
  s.Gives "ID".toList w

variable {s : Section} {w : Text}

theorem hasTitle_iff : s.hasTitle w ↔ s.TitleIs w := by
  simp [hasTitle, titleFits, TitleIs, Option.any_eq_true]

theorem hasTitleBeforeCookie_iff : s.hasTitleBeforeCookie w ↔ s.TitleIsButCookie w := by
  simp [hasTitleBeforeCookie, TitleIsButCookie, Option.any_eq_true, lower_trim_withoutCookie_eq_iff]

theorem hasTitleStart_iff : s.hasTitleStart w ↔ s.TitleStarts w := by
  simp [hasTitleStart, titleFits, TitleStarts, Option.any_eq_true]

theorem hasCustomId_iff : s.hasCustomId w ↔ s.CustomIdIs w := by
  simp [hasCustomId, CustomIdIs, customId?, Option.any_eq_true, property?_eq_some_iff]

theorem hasId_iff : (s.id? == some w) ↔ s.IdIs w := by
  rw [beq_iff_eq, id?, property?_eq_some_iff, IdIs]

end Section

-- What an option asks of a section. Between slashes it would be a pattern, which no section meets.
def wishes : Text → List (Section → Prop)
  | '*' :: title =>
    [Section.TitleIs (lower (trim title)), Section.TitleIsButCookie (lower (trim title)),
      Section.TitleStarts (lower (trim title))]
  | '#' :: customId => [Section.CustomIdIs (lower (trim customId))]
  | option =>
    if option.head? = some '/' ∧ option.getLast? = some '/' then [] else [Section.IdIs option]

variable {t : Tree} {s : Section} {option : Text}

open scoped Classical in
theorem Tree.first?_eq {p : Section → Bool} {q : Section → Prop} (h : ∀ s, p s ↔ q s) (t : Tree) :
    t.first? p = t.preorder.find? fun s => decide (q s) := by
  rw [first?_eq_find?]
  congr
  funext s
  rw [Bool.eq_iff_iff, h, decide_eq_true_iff]

theorem findBest_nil {α : Type} (xs : List α) : findBest [] xs = none := rfl

open scoped Classical in
theorem findBest_cons {α : Type} (p : α → Prop) (ps : List (α → Prop)) (xs : List α) :
    findBest (p :: ps) xs = (xs.find? fun x => decide (p x)).or (findBest ps xs) := by
  rw [findBest, List.findSome?_cons]
  cases xs.find? fun x => decide (p x) <;> rfl

theorem Tree.locate?_eq_findBest (option : Text) (t : Tree) :
    t.locate? option = findBest (wishes option) t.preorder := by
  rw [locate?.eq_def]
  split
  case h_1 title =>
    simp only [wishes, withTitle?, trim_trim, first?_eq fun _ => Section.hasTitle_iff,
      first?_eq fun _ => Section.hasTitleBeforeCookie_iff, first?_eq fun _ => Section.hasTitleStart_iff,
      findBest_cons, findBest_nil, Option.or_none]
  case h_2 customId =>
    simp only [wishes, withCustomId?, first?_eq fun _ => Section.hasCustomId_iff, findBest_cons, findBest_nil,
      Option.or_none]
  case h_3 hs hc =>
    rw [wishes.eq_3 option hs hc]
    split
    case isTrue  => rfl
    case isFalse =>
      simp only [withId?, first?_eq fun _ => Section.hasId_iff, findBest_cons, findBest_nil, Option.or_none]

theorem Tree.mem_preorder_of_locate? (h : t.locate? option = some s) : s ∈ t.preorder := by
  rw [locate?_eq_findBest] at h
  obtain ⟨_, _, _, _, hf, _⟩ := findBest_eq_some_iff.mp h
  exact hf.mem

theorem title_ne_none_of_wish {p : Section → Prop} {title : Text} (hp : p ∈ wishes ('*' :: title)) (hs : p s) :
    s.headline.title ≠ none := by
  simp only [wishes, List.mem_cons, List.not_mem_nil, or_false] at hp
  intro hn
  rcases hp with rfl | rfl | rfl <;> obtain ⟨t, ht, _⟩ := hs <;> cases hn.symm.trans ht

theorem Tree.locate?_best (option : Text) (t : Tree) :
    (∀ s, t.locate? option = some s ↔ IsBest (wishes option) t.preorder s) ∧
      (t.locate? option = none ↔ ∀ p ∈ wishes option, ∀ s ∈ t.preorder, ¬p s) ∧
        ∀ s, t.locate? option = some s →
          s ∈ t.preorder ∧ (option.head? = some '*' → s.headline.title ≠ none) := by
  rw [locate?_eq_findBest]
  refine ⟨fun _ => findBest_eq_some_iff, findBest_eq_none_iff, fun s hs => ?_⟩
  obtain ⟨stronger, p, others, hw, hf, _⟩ := findBest_eq_some_iff.mp hs
  refine ⟨hf.mem, fun ho => ?_⟩
  obtain ⟨title, rfl⟩ := List.head?_eq_some_iff.mp ho
  have hp : p ∈ wishes ('*' :: title) := by simp [hw]
  exact title_ne_none_of_wish hp hf.holds

end Wishes

end Transclusion
