import Transclusion.Text.Digit
import Transclusion.Text.Fold
import Transclusion.Text.Word
import Transclusion.Outline.Visit
import Transclusion.Json
import Transclusion.Link

namespace Transclusion

open Text

-- A keyword line such as `#+transclude: [[id:abc::*Heading][label]] :no-first-heading :level 2`.
structure Directive where
  link : Link
  description : Option Text := none
  noFirstHeading : Bool := false
  onlyContents : Bool := false
  level : Option Int := none
  excluded : List Text := []
  deriving DecidableEq

structure Overlong where
  digits : Nat
  deriving DecidableEq

def Overlong.limit : Nat := 4300

-- A number with more digits is not printed either.
def Overlong.allows (number : Text) : Bool :=
  (number.filter (·.isDigit)).length ≤ limit

def Overlong.message (o : Overlong) : Text :=
  "Exceeds the limit (4300 digits) for integer string conversion: value has ".toList ++
    ofNat o.digits ++ " digits; use sys.set_int_max_str_digits() to increase the limit".toList

namespace Directive

def mark : Text :=
  "#+transclude:".toList

def isMarked (k : Keyword) : Bool :=
  lower k.key == mark

-- The link, the description and the rest of `[[link]]` or `[[link][description]]`.
def brackets? (s : Text) : Option (Text × Option Text × Text) := do
  let s ← after? "[[".toList s
  let link ← given (some (s.takeWhile (· != ']')))
  match s.dropWhile (· != ']') with
  | ']' :: ']' :: r => some (link, none, r)
  | ']' :: '[' :: r =>
    let rest ← after? "]]".toList (r.dropWhile (· != ']'))
    some (link, some (r.takeWhile (· != ']')), rest)
  | _ => none

-- The first suffix of `s` that `f` accepts decides.
def search {α : Type} (f : Text → Option α) : Text → Option α
  | [] => none
  | c :: s => (f (c :: s)).or (search f s)

def hasFlag (flag s : Text) : Bool :=
  (search (fun t => (afterFold? flag t).filter fun r => !r.head?.any isWord) s).isSome

-- What follows a property name and the blanks after it.
def argument? (name s : Text) : Option Text :=
  ((afterFold? name s).filter (·.head?.any isBlank)).map trimStart

def levelDigits? (s : Text) : Option Text :=
  search (fun t => (argument? ":level".toList t).bind fun r => given (some (r.takeWhile isDigit))) s

def excludedText? (s : Text) : Option Text :=
  search
    (fun t => do
      let r ← argument? ":exclude-elements".toList t
      let r ← after? "(".toList (if r.head? = some '"' then r.tail else r)
      let inner ← given (some (r.takeWhile (· != ')')))
      if (r.dropWhile (· != ')')).isEmpty then none else some inner)
    s

def readLevel (props : Text) : Except Overlong (Option Int) :=
  match levelDigits? props with
  | none => .ok none
  | some ds => if Overlong.limit < ds.length then .error ⟨ds.length⟩ else .ok (some (numeral ds))

def ofKeyword (k : Keyword) : Except Overlong (Option Directive) :=
  if !isMarked k then .ok none
  else
    match brackets? (trim (k.value.getD [])) with
    | none => .ok none
    | some (raw, description, rest) =>
      match Link.ofText raw with
      | .error _ => .ok none
      | .ok link =>
        let props := trim rest
        (readLevel props).map fun level =>
          some
            { link, description, level
              noFirstHeading := hasFlag ":no-first-heading".toList props
              onlyContents := hasFlag ":only-contents".toList props
              excluded := (excludedText? props).elim [] words }

-- Where a directive points, for telling when an inclusion runs into itself.
def sourceId (d : Directive) : Text :=
  d.link.location

-- The description, or the last segment of the link.
def sourceName (d : Directive) : Text :=
  (given d.description).getD ((pieces '/' d.link.body).getLast?.getD [])

def header (d : Directive) : Text :=
  match given d.description with
  | some s => s
  | none =>
    let place :=
      if d.link.scheme = some "id:".toList then "ID: ".toList ++ d.link.body.take 8 ++ "...".toList
      else d.link.body
    place ++ d.link.extra.elim [] (" -> ".toList ++ ·)

-- The part of a directive that decides what is included.
structure Identity where
  link : Link
  noFirstHeading : Bool
  onlyContents : Bool
  level : Option Int
  deriving DecidableEq

def identity (d : Directive) : Identity :=
  ⟨d.link, d.noFirstHeading, d.onlyContents, d.level⟩

-- Whether the text of the identity can be told.
def prints (d : Directive) : Bool :=
  d.level.all fun n => Overlong.allows (ofInt n)

def Identity.json (i : Identity) : Json :=
  .array
    [.ofOption .string i.link.scheme, .string i.link.body, .ofOption .string i.link.extra,
      .bool i.noFirstHeading, .bool i.onlyContents, .ofOption .ofInt i.level]

def Identity.text (i : Identity) : Text :=
  i.json.inline

end Directive

namespace Tree

-- All directives in document order; the first one with an overlong level spoils them.
def directives (t : Tree) : Except Overlong (List Directive) :=
  (t.keywords.mapM Directive.ofKeyword).map (·.filterMap id)

def hasDirectives (t : Tree) : Bool :=
  t.keywords.any Directive.isMarked

end Tree

end Transclusion
