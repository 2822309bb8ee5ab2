import Transclusion.Cache
import Transclusion.Locate
import Transclusion.Reshape

namespace Transclusion

open Text

-- How deep inclusions may nest: nothing is resolved inside `bound` others. The text is the limit as
-- it was set.
structure DepthLimit where
  bound : Nat
  text : Text
  deriving DecidableEq

def DepthLimit.ofInt (n : Int) : DepthLimit :=
  ⟨n.toNat, Text.ofInt n⟩

inductive Failure
  | notFound (target : Text)
  | circular
  | tooDeep (limit : DepthLimit)
  | noTarget (option : Text)
  | denied
  | unreadable (text : Text)
  deriving DecidableEq

namespace Failure

def message : Failure → Text
  | notFound target => "File not found: ".toList ++ target
  | circular => "Circular transclusion detected".toList
  | tooDeep limit => "Maximum transclusion depth (".toList ++ limit.text ++ ") exceeded".toList
  | noTarget option => "Target not found: ".toList ++ option
  | denied => "Directory access required".toList
  | unreadable text => "Parse error: ".toList ++ text

inductive Kind
  | fileNotFound
  | circularReference
  | invalidTarget
  | permissionDenied
  | parseError
  deriving DecidableEq

def kind : Failure → Kind
  | notFound _ => .fileNotFound
  | circular | tooDeep _ => .circularReference
  | noTarget _ => .invalidTarget
  | denied => .permissionDenied
  | unreadable _ => .parseError

def Kind.name : Kind → Text
  | fileNotFound => "file_not_found".toList
  | circularReference => "circular_reference".toList
  | invalidTarget => "invalid_target".toList
  | permissionDenied => "permission_denied".toList
  | parseError => "parse_error".toList

-- A missing or unreadable file may be there the next time.
def retryable (f : Failure) : Bool :=
  f.kind = .parseError || f.kind = .fileNotFound

def ofFault (f : Fault) : Failure :=
  if f.isDenied then denied else unreadable f.message

-- A fault while a link is followed means that it leads nowhere, unless access was refused.
def ofLinkFault (d : Directive) (f : Fault) : Failure :=
  if f.isDenied then denied else notFound d.link.text

end Failure

-- Whether the message can be told.
def Failure.prints : Failure → Bool
  | tooDeep limit => Overlong.allows limit.text
  | _ => true

-- Content as a directive shows it: what is kept for its identity, and its own display name.
structure Success where
  included : Included
  name : Text
  deriving DecidableEq

abbrev Outcome := Except Failure Success

namespace Library

variable (lib : Library)

-- The document that a link leads to.
def follow (d : Directive) : Except Failure Source × List Access :=
  let nowhere : Failure := .notFound d.link.text
  if d.link.scheme = some "id:".toList then
    match lib.search?, lib.scope with
    | some search, some scope =>
      let found :=
        match search scope d.link.body with
        | .ok (some s) => .ok s
        | .ok none => .error nowhere
        | .error f => .error (.ofLinkFault d f)
      (found, [.search scope d.link.body])
    | _, _ => (.error nowhere, [])
  else if d.link.isRelative then
    match lib.beside? with
    | some beside => ((beside d.link.body).mapError (.ofLinkFault d), [.beside d.link.body])
    | none => (.error nowhere, [])
  else (.error nowhere, [])

-- A refusal to parse is no refusal of access.
def document (s : Source) : Except Failure Document :=
  match lib.content s with
  | .error f => .error (.ofFault f)
  | .ok t => (lib.parse t).mapError fun f => .unreadable f.message

end Library

namespace Directive

-- The place in the document that the search option asks for, and a way back to it.
def target (d : Directive) (doc : Document) : Except Failure (Tree × Option Text) :=
  match given d.link.extra with
  | none => .ok (.whole doc, none)
  | some option =>
    match (Tree.whole doc).locate? option with
    | some s => .ok (.part s, (Tree.part s).navigation?)
    | none => .error (.noTarget option)

end Directive

-- What the library has for a directive, without a look at the cache.
def Library.fetch (lib : Library) (d : Directive) : Except Failure Included × List Access :=
  match lib.follow d with
  | (.error f, log) => (.error f, log)
  | (.ok s, log) =>
    let included := do
      let doc ← lib.document s
      let (t, target) ← d.target doc
      .ok { content := d.reshape t, sourceId := d.sourceId, source := some s, target }
    (included, log ++ [.fetch s.name])

-- The checks that end every chain of inclusions. `ancestors` holds each place once.
def refusal? (limit : DepthLimit) (ancestors : List Text) (d : Directive) : Option Failure :=
  if limit.bound ≤ ancestors.length then some (.tooDeep limit)
  else if d.sourceId ∈ ancestors then some .circular
  else none

structure Resolution where
  outcome : Outcome
  cache : Cache
  accesses : List Access

-- What comes of a directive that was fetched, with the cache as it is by then.
def Resolution.ofFetch (d : Directive) (cache : Cache) :
    Except Failure Included × List Access → Resolution
  | (.error f, log) => ⟨.error f, cache, log⟩
  | (.ok e, log) => ⟨.ok ⟨e, d.sourceName⟩, cache.put d e, log⟩

def resolve (lib : Library) (limit : DepthLimit) (ancestors : List Text) (d : Directive)
    (cache : Cache) : Resolution :=
  match refusal? limit ancestors d with
  | some f => ⟨.error f, cache, []⟩
  | none =>
    match cache.get d with
    | (some e, cache) => ⟨.ok ⟨e, d.sourceName⟩, cache, []⟩
    | (none, cache) => .ofFetch d cache (lib.fetch d)

-- What is raised in place of an answer. That texts run out never happens, since there is one for each
-- directive.
inductive Interruption
  | overlong (o : Overlong)
  | unprinted
  | noTextLeft
  deriving DecidableEq

namespace Interruption

def message : Interruption → Text
  | overlong o => o.message
  | unprinted =>
    ("Exceeds the limit (4300 digits) for integer string conversion; ".toList ++
      "use sys.set_int_max_str_digits() to increase the limit".toList)
  | noTextLeft => "more directives than texts".toList

end Interruption

-- A refusal has a message, and without one the cache is asked for the text of the identity.
def prints (limit : DepthLimit) (ancestors : List Text) (d : Directive) : Bool :=
  match refusal? limit ancestors d with
  | some f => f.prints
  | none => d.prints

-- Resolves a directive whose level may be any number, not only one that was read from a keyword.
def tryResolve (lib : Library) (limit : DepthLimit) (ancestors : List Text) (d : Directive)
    (cache : Cache) : Except Interruption Resolution :=
  if prints limit ancestors d then .ok (resolve lib limit ancestors d cache) else .error .unprinted

end Transclusion
