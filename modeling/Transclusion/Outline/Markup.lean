import Transclusion.Outline.Basic

namespace Transclusion

namespace Headline

-- The words of a headline in their order, the stars first.
def parts (h : Headline) : List Text :=
  List.replicate h.stars '*' ::
    ((Text.given h.todo).toList ++
      (Text.given h.priority).toList.map (fun p => "[#".toList ++ p ++ "]".toList) ++
      (Text.given h.title).toList)

def tagMarkup : List Text → Text
  | [] => []
  | ts => " :".toList ++ List.intercalate [':'] ts ++ [':']

def line (h : Headline) : Text :=
  List.intercalate [' '] h.parts ++ tagMarkup h.tags

def markup (h : Headline) : Text :=
  h.line ++ ['\n']

end Headline

def Keyword.markup (k : Keyword) : Text :=
  match Text.given k.value with
  | some v => k.key ++ ' ' :: v ++ ['\n']
  | none => k.key ++ ['\n']

namespace Drawer

def propertyMarkup : Text × Text → Text
  | (name, []) => ':' :: name ++ ":\n".toList
  | (name, value) => ':' :: name ++ ": ".toList ++ value ++ ['\n']

def markup (d : Drawer) : Text :=
  ":PROPERTIES:\n".toList ++ d.properties.flatMap propertyMarkup ++ ":END:\n".toList

end Drawer

def Element.markup : Element → Text
  | keyword k => k.markup
  | drawer d => d.markup
  | text t => t

def Content.markup (c : Content) : Text :=
  c.flatMap Element.markup

def bodyMarkup (c : Option Content) : Text :=
  c.elim [] Content.markup

def Forest.markup : Forest → Text
  | nil => []
  | cons h c i r => h.markup ++ bodyMarkup c ++ i.markup ++ r.markup

def Section.markup (s : Section) : Text :=
  s.headline.markup ++ bodyMarkup s.content ++ s.sections.markup

def Document.markup (d : Document) : Text :=
  bodyMarkup d.content ++ d.sections.markup

def Tree.markup : Tree → Text
  | whole d => d.markup
  | part s => s.markup

@[simp] theorem bodyMarkup_none : bodyMarkup none = [] := rfl

@[simp] theorem bodyMarkup_some (c : Content) : bodyMarkup (some c) = c.markup := rfl

theorem Content.markup_append (c d : Content) :
    Content.markup (c ++ d) = Content.markup c ++ Content.markup d :=
  List.flatMap_append

theorem Forest.markup_append (f g : Forest) : (f ++ g).markup = f.markup ++ g.markup := by
  induction f with
  | nil => rfl
  | cons _ _ _ _ _ ih => simp [markup, ih]

end Transclusion
