import Transclusion.Outline.Basic

namespace Transclusion

variable {σ : Type}

namespace Forest

def preorder : Forest → List Section
  | nil => []
  | cons h c i r => ⟨h, c, i⟩ :: (i.preorder ++ r.preorder)

def visitSections (ask : Section → σ → Bool × σ) : Forest → σ → Bool × σ
  | nil, s => (true, s)
  | cons h c i r, s =>
    match ask ⟨h, c, i⟩ s with
    | (false, s) => (false, s)
    | (true, s) =>
      match i.visitSections ask s with
      | (false, s) => (false, s)
      | (true, s) => r.visitSections ask s

end Forest

namespace Content

def keywords (c : Content) : List Keyword :=
  c.filterMap Element.keyword?

def visitKeywords (ask : Keyword → σ → Bool × σ) : Content → σ → Bool × σ
  | [], s => (true, s)
  | .keyword k :: es, s =>
    match ask k s with
    | (false, s) => (false, s)
    | (true, s) => visitKeywords ask es s
  | .drawer _ :: es, s => visitKeywords ask es s
  | .text _ :: es, s => visitKeywords ask es s

end Content

def bodyKeywords (c : Option Content) : List Keyword :=
  c.elim [] Content.keywords

def visitBody (ask : Keyword → σ → Bool × σ) (c : Option Content) (s : σ) : Bool × σ :=
  c.elim (true, s) (Content.visitKeywords ask · s)

namespace Forest

def keywords : Forest → List Keyword
  | nil => []
  | cons _ c i r => bodyKeywords c ++ (i.keywords ++ r.keywords)

def visitKeywords (ask : Keyword → σ → Bool × σ) : Forest → σ → Bool × σ
  | nil, s => (true, s)
  | cons _ c i r, s =>
    match visitBody ask c s with
    | (false, s) => (false, s)
    | (true, s) =>
      match i.visitKeywords ask s with
      | (false, s) => (false, s)
      | (true, s) => r.visitKeywords ask s

theorem preorder_append (f g : Forest) : (f ++ g).preorder = f.preorder ++ g.preorder := by
  induction f with
  | nil => rfl
  | cons _ _ _ _ _ ih => simp [preorder, ih]

theorem keywords_append (f g : Forest) : (f ++ g).keywords = f.keywords ++ g.keywords := by
  induction f with
  | nil => rfl
  | cons _ _ _ _ _ ih => simp [keywords, ih]

end Forest

namespace Tree

-- A section comes before the sections nested in it; a document is not a section itself.
def preorder : Tree → List Section
  | whole d => d.sections.preorder
  | part s => s :: s.sections.preorder

def keywords (t : Tree) : List Keyword :=
  bodyKeywords t.content ++ t.sections.keywords

def visitSections (ask : Section → σ → Bool × σ) : Tree → σ → Bool × σ
  | whole d, s => d.sections.visitSections ask s
  | part x, s =>
    match ask x s with
    | (false, s) => (false, s)
    | (true, s) => x.sections.visitSections ask s

def visitKeywords (ask : Keyword → σ → Bool × σ) (t : Tree) (s : σ) : Bool × σ :=
  match visitBody ask t.content s with
  | (false, s) => (false, s)
  | (true, s) => t.sections.visitKeywords ask s

-- The walk ends at the first section that has the property.
def first? (p : Section → Bool) (t : Tree) : Option Section :=
  (t.visitSections (fun s _ => if p s then (false, some s) else (true, none)) none).2

end Tree

end Transclusion
