import Transclusion.Report
import Transclusion.Session

namespace Transclusion

open Text

namespace Service

-- What can be asked of one document.
inductive Question
  | directives
  | outcomes (index : Option Nat)
  | text (headers : Bool)
  | invalidation (sourceId : Option Text)
  deriving DecidableEq

inductive Query
  | health
  | document (path : Text) (q : Question)
  deriving DecidableEq

-- How the web framework turns a request down.
structure Rejection where
  status : Nat
  detail : Option Text := none
  deriving DecidableEq

inductive Refusal
  | rejected (r : Rejection)
  | unauthorized
  | outside (path : Text)
  | missing (path : Text)
  | noDirective (index : Nat)
  | failed
  deriving DecidableEq

def Refusal.status : Refusal → Nat
  | rejected r => r.status
  | unauthorized => 401
  | outside _ => 403
  | missing _ | noDirective _ => 404
  | failed => 500

def Refusal.detail : Refusal → Option Text
  | rejected r => r.detail
  | unauthorized => some "Invalid or missing token".toList
  | outside path => some ("Path ".toList ++ path ++ " is outside the root".toList)
  | missing path => some ("Document ".toList ++ path ++ " not found".toList)
  | noDirective index => some ("No directive #".toList ++ ofNat index)
  | failed => none

inductive Answer
  | health (openDocuments : Nat)
  | directives (ds : List Directive)
  | outcomes (calls : List Call)
  | text (path s : Text)
  | removed (n : Nat)

def version : Text :=
  "0.1.0".toList

def Answer.json : Answer → Json
  | health n =>
    .object
      [("status".toList, .string "ok".toList), ("version".toList, .string version),
        ("open_documents".toList, .ofNat n)]
  | directives ds => .array (ds.map Directive.json)
  | outcomes calls => .array (calls.map Call.json)
  | text path s => .object [("path".toList, .string path), ("text".toList, .string s)]
  | removed n => .object [("removed".toList, .ofNat n)]

end Service

namespace Session

open Service

variable (s : Session) (w : Workspace)

def outcomes (index : Option Nat) : Except Refusal Answer × Session :=
  match s.directives w with
  | .error _ => (.error .failed, s)
  | .ok ds =>
    let answer (ds : List Directive) : Except Refusal Answer × Session :=
      let (calls, s) := s.resolveEach w ds
      (.ok (.outcomes calls), s)
    match index with
    | none => answer ds
    | some i =>
      match ds[i]? with
      | some d => answer [d]
      | none => (.error (.noDirective i), s)

-- The answer shows the path as it was asked for.
def answer (path : Text) : Question → Except Refusal Answer × Session
  | .directives =>
    match s.directives w with
    | .ok ds => (.ok (.directives ds), s)
    | .error _ => (.error .failed, s)
  | .outcomes index => s.outcomes w index
  | .text headers =>
    match s.render w { headers } with
    | (.ok t, s) => (.ok (.text path t), s)
    | (.error _, s) => (.error .failed, s)
  | .invalidation none => (.ok (.removed s.cache.length), s.close)
  | .invalidation (some id) =>
    let (n, cache) := s.cache.invalidate id
    (.ok (.removed n), { s with cache })

end Session

structure Service where
  settings : Settings
  root : Location
  -- An empty token asks for none.
  token : Option Text := none
  sessions : List (Location × Session) := []

namespace Service

def start (w : Workspace) (settings : Settings) (token : Option Text) : Except Fault Service :=
  (w.locate settings.root).map fun root => { settings, root, token := given token }

variable (x : Service) (w : Workspace)

-- Only files under the root are served.
def locate (path : Text) : Except Refusal Location := do
  let l ← (w.locate (x.root.path.join (.ofText path))).mapError fun _ => .failed
  if !l.isUnder x.root then throw (.outside path)
  let isFile ← (w.isFile l.path).mapError fun _ => .failed
  if isFile then .ok l else .error (.missing path)

def session (l : Location) : Except Refusal Session :=
  match x.sessions.lookup l with
  | some s => .ok s
  | none => (Session.start w x.settings l.path).mapError fun _ => .failed

def keep (l : Location) (s : Session) : Service :=
  { x with sessions := (l, s) :: x.sessions.filter (·.1 != l) }

def answer : Query → Except Refusal Answer × Service
  | .health => (.ok (.health x.sessions.length), x)
  | .document path q =>
    let opened := do
      let l ← x.locate w path
      .ok (l, ← x.session w l)
    match opened with
    | .error r => (.error r, x)
    | .ok (l, s) =>
      let (a, s) := s.answer w path q
      (a, x.keep l s)

inductive Endpoint
  | health
  | directives
  | outcomes
  | text
  | invalidation
  deriving DecidableEq

structure Route where
  method : Text
  path : Text
  endpoint : Endpoint

def routes : List Route :=
  [⟨"GET".toList, "/health".toList, .health⟩,
    ⟨"GET".toList, "/transclusions".toList, .directives⟩,
    ⟨"GET".toList, "/resolve".toList, .outcomes⟩,
    ⟨"GET".toList, "/render".toList, .text⟩,
    ⟨"POST".toList, "/cache/invalidate".toList, .invalidation⟩]

-- What is left to the web framework. It finds the route of a request, takes out the token that comes with it,
-- and reads its parameters, each of which may be left out.
structure Framework (ρ : Type) where
  route : List Route → ρ → Except Rejection Endpoint
  credentials : ρ → Option Text
  text : Text → ρ → Except Rejection (Option Text)
  flag : Text → ρ → Except Rejection (Option Bool)
  index : Text → ρ → Except Rejection (Option Nat)
  -- How a request is turned down that leaves out what is required.
  incomplete : Rejection

variable {ρ : Type} (f : Framework ρ)

def Framework.required (name : Text) (r : ρ) : Except Rejection Text := do
  (← f.text name r).elim (.error f.incomplete) .ok

def Framework.query (r : ρ) : Endpoint → Except Rejection Query
  | .health => .ok .health
  | .directives => do
    .ok (.document (← f.required "path".toList r) .directives)
  | .outcomes => do
    .ok (.document (← f.required "path".toList r) (.outcomes (← f.index "index".toList r)))
  | .text => do
    let path ← f.required "path".toList r
    .ok (.document path (.text ((← f.flag "headers".toList r).getD false)))
  | .invalidation => do
    .ok (.document (← f.required "path".toList r) (.invalidation (← f.text "source_id".toList r)))

def admits (credentials : Option Text) : Bool :=
  x.token.isNone || credentials == x.token

-- The route comes first, then the token, and then the parameters.
def query (r : ρ) : Except Refusal Query := do
  let e ← (f.route routes r).mapError .rejected
  if !x.admits (f.credentials r) then throw .unauthorized
  (f.query r e).mapError .rejected

def handle (r : ρ) : Except Refusal Answer × Service :=
  match x.query f r with
  | .error e => (.error e, x)
  | .ok q => x.answer w q

structure Reply where
  status : Nat
  body : Option Json

def Reply.ofResult : Except Refusal Answer → Reply
  | .ok a => ⟨200, some a.json⟩
  | .error e => ⟨e.status, e.detail.map fun d => .object [("detail".toList, .string d)]⟩

def reply (r : ρ) : Reply × Service :=
  let (a, x) := x.handle w f r
  (.ofResult a, x)

end Service

end Transclusion
