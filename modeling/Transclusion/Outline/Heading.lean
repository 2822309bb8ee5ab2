import Transclusion.Text.Blank
import Transclusion.Text.Word
import Transclusion.Outline.Basic

namespace Transclusion.Headline

open Text

def todoWords : List Text :=
  ["TODO".toList, "DONE".toList]

-- A TODO word is followed by a blank or by nothing.
def takeTodo (s : Text) : Option Text × Text :=
  match todoWords.findSome? fun w => (after? w s).map (w, ·) with
  | some (w, r) => if r.head?.all isBlank then (some w, trimStart r) else (none, s)
  | none => (none, s)

def takePriority : Text → Option Text × Text
  | '[' :: '#' :: c :: ']' :: r =>
    if c.isAlphanum then (some [c], trimStart r) else (none, '[' :: '#' :: c :: ']' :: r)
  | s => (none, s)

def isTagChar (c : Char) : Bool :=
  isWord c || c == '@' || c == '#' || c == '%'

def isTag (t : Text) : Bool :=
  !t.isEmpty && t.all isTagChar

-- Reads `:a:b:`.
def tags? (s : Text) : Option (List Text) :=
  match pieces ':' s with
  | [] :: ts =>
    if ts.getLast? = some [] ∧ ts.dropLast ≠ [] ∧ ts.dropLast.all isTag then some ts.dropLast
    else none
  | _ => none

-- Tags hold no blank, so they can only be the last word.
def takeTags (s : Text) : Text × List Text :=
  let word := (s.reverse.takeWhile (!isBlank ·)).reverse
  let front := (s.reverse.dropWhile (!isBlank ·)).reverse
  match tags? word with
  | some ts => (front, ts)
  | none => (s, [])

def ofBody (stars : Nat) (body : Text) : Headline :=
  let (todo, body) := takeTodo body
  let (priority, body) := takePriority body
  let (title, tags) := takeTags body
  { stars, todo, priority, title := given (some (trim title)), tags }

-- The stars start the line and are followed by a space or a tab.
def ofLine? (line : Text) : Option Headline :=
  let stars := line.takeWhile (· == '*')
  let rest := line.dropWhile (· == '*')
  if stars.isEmpty || !rest.head?.any (fun c => c == ' ' || c == '\t') then none
  else
    let body := trimEnd (rest.dropWhile fun c => c == ' ' || c == '\t')
    if body.contains '\n' then none else some (ofBody stars.length body)

end Transclusion.Headline
