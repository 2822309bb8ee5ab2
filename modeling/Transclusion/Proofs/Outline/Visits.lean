import Transclusion.Outline.Visit

namespace Transclusion

variable {σ : Type}

-- Goes on with `next`, unless the answer was `false`.
def andThen (r : Bool × σ) (next : σ → Bool × σ) : Bool × σ :=
  match r with
  | (false, s) => (false, s)
  | (true, s) => next s

-- Asks about the members of a list one by one, until the answer is `false`.
def askEach {α : Type} (ask : α → σ → Bool × σ) : List α → σ → Bool × σ
  | [], s => (true, s)
  | x :: xs, s => andThen (ask x s) (askEach ask xs)

theorem askEach_append {α : Type} (ask : α → σ → Bool × σ) (xs ys : List α) (s : σ) :
    askEach ask (xs ++ ys) s = andThen (askEach ask xs s) (askEach ask ys) := by
  induction xs generalizing s
  case nil => rfl
  case cons x xs hi =>
    rw [List.cons_append, askEach, askEach]
    rcases ask x s with ⟨_ | _, s⟩
    · rfl
    · exact hi s

theorem Forest.visitSections_cons (ask : Section → σ → Bool × σ) (h : Headline) (c : Option Content)
    (i r : Forest) (s : σ) :
    (cons h c i r).visitSections ask s =
      andThen (ask ⟨h, c, i⟩ s) fun s => andThen (i.visitSections ask s) (r.visitSections ask) :=
  rfl

theorem Tree.visitSections_part (ask : Section → σ → Bool × σ) (x : Section) (s : σ) :
    (part x).visitSections ask s = andThen (ask x s) (x.sections.visitSections ask) :=
  rfl

theorem Forest.visitSections_eq_askEach (ask : Section → σ → Bool × σ) (f : Forest) :
    f.visitSections ask = askEach ask f.preorder := by
  funext s
  induction f generalizing s
  case nil => rfl
  case cons h c i r hi hr =>
    rw [visitSections_cons, preorder, askEach]
    congr
    funext s
    rw [askEach_append, hi, funext hr]

theorem Tree.visitSections_eq_askEach (ask : Section → σ → Bool × σ) (t : Tree) (s : σ) :
    t.visitSections ask s = askEach ask t.preorder s := by
  cases t
  case whole d => exact congrFun (d.sections.visitSections_eq_askEach ask) s
  case part x  => rw [visitSections_part, Forest.visitSections_eq_askEach, preorder, askEach]

theorem askEach_find (p : Section → Bool) (xs : List Section) :
    (askEach (fun s _ => if p s then (false, some s) else (true, none)) xs none).2 = xs.find? p := by
  induction xs
  case nil => rfl
  case cons x xs hi =>
    cases hp : p x
    case true  => simp [askEach, andThen, hp]
    case false => simpa [askEach, andThen, hp] using hi

-- The section that a walk ends at is the first in document order that has the property.
theorem Tree.first?_eq_find? (p : Section → Bool) (t : Tree) : t.first? p = t.preorder.find? p := by
  rw [first?, visitSections_eq_askEach, askEach_find]

section Keywords

theorem Content.visitKeywords_eq_askEach (ask : Keyword → σ → Bool × σ) (c : Content) (s : σ) :
    c.visitKeywords ask s = askEach ask c.keywords s := by
  induction c generalizing s
  case nil => rfl
  case cons e es hi =>
    cases e
    case keyword k => exact congrArg (andThen (ask k s)) (funext hi)
    case drawer    => exact hi s
    case text      => exact hi s

theorem visitBody_eq_askEach (ask : Keyword → σ → Bool × σ) (c : Option Content) (s : σ) :
    visitBody ask c s = askEach ask (bodyKeywords c) s := by
  cases c
  case none   => rfl
  case some c => exact c.visitKeywords_eq_askEach ask s

theorem Forest.visitKeywords_cons (ask : Keyword → σ → Bool × σ) (h : Headline) (c : Option Content)
    (i r : Forest) (s : σ) :
    (cons h c i r).visitKeywords ask s =
      andThen (visitBody ask c s) fun s => andThen (i.visitKeywords ask s) (r.visitKeywords ask) :=
  rfl

theorem Forest.visitKeywords_eq_askEach (ask : Keyword → σ → Bool × σ) (f : Forest) :
    f.visitKeywords ask = askEach ask f.keywords := by
  funext s
  induction f generalizing s
  case nil => rfl
  case cons h c i r hi hr =>
    rw [visitKeywords_cons, keywords, askEach_append, visitBody_eq_askEach]
    congr
    funext s
    rw [askEach_append, hi, funext hr]

theorem Tree.visitKeywords_eq_askEach (ask : Keyword → σ → Bool × σ) (t : Tree) (s : σ) :
    t.visitKeywords ask s = askEach ask t.keywords s := by
  rw [keywords, askEach_append, ←visitBody_eq_askEach, ←Forest.visitKeywords_eq_askEach]
  rfl

variable {x : Section}

theorem Forest.keywords_subset_of_mem_preorder {f : Forest} (h : x ∈ f.preorder) :
    (Tree.part x).keywords ⊆ f.keywords := by
  induction f
  case nil => cases h
  case cons h' c i r hi hr =>
    simp only [preorder, List.mem_cons, List.mem_append] at h
    intro k hk
    simp only [keywords, List.mem_append]
    rcases h with rfl | h | h
    · exact (List.mem_append.mp hk).imp_right .inl
    · exact .inr (.inl (hi h hk))
    · exact .inr (.inr (hr h hk))

theorem Tree.keywords_subset_of_mem_preorder {t : Tree} (h : x ∈ t.preorder) :
    (Tree.part x).keywords ⊆ t.keywords := by
  cases t
  case whole d =>
    exact fun _ hk => List.mem_append_right _ (Forest.keywords_subset_of_mem_preorder h hk)
  case part s =>
    cases h
    case head   => exact fun _ => id
    case tail h =>
      exact fun _ hk => List.mem_append_right _ (Forest.keywords_subset_of_mem_preorder h hk)

end Keywords

end Transclusion
