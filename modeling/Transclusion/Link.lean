import Transclusion.Text.Blank
import Transclusion.Text.Quoted

namespace Transclusion

open Text

-- `extra` is what stands behind the first `::`.
structure Link where
  scheme : Option Text := none
  body : Text
  extra : Option Text := none
  deriving DecidableEq

inductive LinkError
  | empty
  | spansLines (raw : Text)
  | noTarget (raw : Text)
  deriving DecidableEq

def LinkError.message : LinkError → Text
  | empty => "empty link".toList
  | spansLines raw => "link spans lines: ".toList ++ quoted raw
  | noTarget raw => "link has no target: ".toList ++ quoted raw

namespace Link

def text (l : Link) : Text :=
  l.scheme.getD [] ++ l.body ++ l.extra.elim [] ("::".toList ++ ·)

-- Where the link points, without what to look for there.
def location (l : Link) : Text :=
  l.scheme.getD [] ++ l.body

def isRelative (l : Link) : Bool :=
  (l.scheme = none || l.scheme = some "file:".toList) &&
    !l.body.head?.any (fun c => c == '/' || c == '~')

def isSchemeChar (c : Char) : Bool :=
  c.isAlphanum || c == '+' || c == '.' || c == '-'

-- A scheme has at least two characters, so a drive letter is none, and a name before `::` is a path.
def takeScheme (s : Text) : Option Text × Text :=
  match s with
  | [] => (none, s)
  | c :: r =>
    match r.takeWhile isSchemeChar, r.dropWhile isSchemeChar with
    | a :: as, ':' :: rest =>
      if c.isAlpha && rest.head? != some ':' then
        (some ((c :: a :: as ++ [':']).map Char.toLower), rest)
      else (none, s)
    | _, _ => (none, s)

def takeExtra (s : Text) : Text × Option Text :=
  match cut? "::".toList s with
  | some (before, after) => (before, some (trim after))
  | none => (s, none)

def ofText (raw : Text) : Except LinkError Link :=
  let s := trim raw
  if s.isEmpty then .error .empty
  else if s.contains '\n' then .error (.spansLines raw)
  else
    let (scheme, s) := takeScheme s
    let (s, extra) := takeExtra s
    let body := trim s
    if body.isEmpty then .error (.noTarget raw) else .ok { scheme, body, extra }

end Link

end Transclusion
