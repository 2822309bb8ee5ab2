import Transclusion.Text.Blank
import Transclusion.Text.Digit
import Transclusion.Outline.Visit

namespace Transclusion

open Text

-- Characters of a statistics cookie such as `[2/7]` or `[50%]`.
def isCookieChar (c : Char) : Bool :=
  isDigit c || c == '/' || c == '%'

-- A title without one statistics cookie at its end.
def withoutCookie (title : Text) : Text :=
  match (trimEnd title).reverse with
  | ']' :: r =>
    match r.takeWhile isCookieChar, r.dropWhile isCookieChar with
    | _ :: _, '[' :: before => trimEnd before.reverse
    | _, _ => title
  | _ => title

namespace Section

-- Titles are compared in lower case and without blanks around them.
def titleFits (p : Text → Bool) (s : Section) : Bool :=
  s.headline.title.any (p ∘ lower ∘ trim)

def hasTitle (wanted : Text) (s : Section) : Bool :=
  s.titleFits (· == wanted)

def hasTitleBeforeCookie (wanted : Text) (s : Section) : Bool :=
  s.headline.title.any fun t => lower (trim (withoutCookie t)) == wanted

def hasTitleStart (wanted : Text) (s : Section) : Bool :=
  s.titleFits wanted.isPrefixOf

def hasCustomId (wanted : Text) (s : Section) : Bool :=
  s.customId?.any (lower · == wanted)

end Section

namespace Tree

-- The whole title wins, then the title but for its cookie, then the start of a title.
def withTitle? (title : Text) (t : Tree) : Option Section :=
  let wanted := lower (trim title)
  (t.first? (·.hasTitle wanted)).or
    ((t.first? (·.hasTitleBeforeCookie wanted)).or (t.first? (·.hasTitleStart wanted)))

def withCustomId? (customId : Text) (t : Tree) : Option Section :=
  t.first? (·.hasCustomId (lower customId))

def withId? (target : Text) (t : Tree) : Option Section :=
  t.first? (·.id? == some target)

-- An option between slashes would be a pattern, and nothing is found by a pattern.
def locate? (option : Text) (t : Tree) : Option Section :=
  match option with
  | '*' :: title => t.withTitle? (trim title)
  | '#' :: customId => t.withCustomId? (trim customId)
  | _ =>
    if option.head? = some '/' ∧ option.getLast? = some '/' then none else t.withId? option

-- A search option that leads back to a section, and none for a whole document.
def navigation? : Tree → Option Text
  | whole _ => none
  | part s =>
    (s.id?.map ("id:".toList ++ ·)).or
      ((s.customId?.map ('#' :: ·)).or ((given s.headline.title).map ('*' :: ·)))

end Tree

end Transclusion
