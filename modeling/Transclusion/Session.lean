import Transclusion.Check
import Transclusion.Settings

namespace Transclusion

open Text

inductive SessionError
  | fault (f : Fault)
  | interrupted (i : Interruption)
  | noDirective (index : Int) (count : Nat)
  deriving DecidableEq

def SessionError.message : SessionError → Text
  | fault f => f.message
  | interrupted i => i.message
  | noDirective index count =>
    "No directive #".toList ++ ofInt index ++ " (".toList ++ ofNat count ++ " found)".toList

-- A root that is asked for wins over the one in the settings file.
def Settings.build (w : Workspace) (config? root? : Option Path) : Except SettingsError Settings :=
  (load w config? root?).map fun s => { s with root := root?.getD s.root }

-- An open document, with the directory in which ids are searched. The cache belongs to it for as long as
-- it is open.
structure Session where
  main : Location
  root : Location
  limit : DepthLimit
  glob : Except Fault Glob
  cache : Cache

namespace Session

def start (w : Workspace) (settings : Settings) (main : Path) : Except Fault Session := do
  let main ← w.resolve main
  let root ← w.resolve settings.root
  .ok
    { main, root
      limit := settings.depthLimit
      glob := settings.glob
      cache := { capacity := settings.capacity } }

variable (s : Session) (w : Workspace)

def library : Library :=
  w.library s.main s.root s.glob

def renderer (style : Style) : Renderer where
  library := s.library w
  limit := s.limit
  style := style

def read : Except SessionError Tree :=
  match w.content s.main.path with
  | .ok t => .ok (.whole (.ofText t))
  | .error f => .error (.fault f)

def close : Session :=
  { s with cache := s.cache.clear }

-- Works on the document as it is now.
def onDocument {α : Type} (f : Tree → Cache → Expansion α) : Except SessionError α × Session :=
  match s.read w with
  | .error e => (.error e, s)
  | .ok t =>
    let x := f t s.cache
    (x.result.mapError .interrupted, { s with cache := x.cache })

def render (style : Style) : Except SessionError Text × Session :=
  s.onDocument w ((s.renderer w style).render [])

def check : Except SessionError (List Finding) × Session :=
  s.onDocument w (s.renderer w {}).check

def directives : Except SessionError (List Directive) := do
  let t ← s.read w
  t.directives.mapError (.interrupted ∘ .overlong)

def resolve (d : Directive) : Except SessionError Outcome × Session :=
  match tryResolve (s.library w) s.limit [] d s.cache with
  | .error i => (.error (.interrupted i), s)
  | .ok x => (.ok x.outcome, { s with cache := x.cache })

def resolveEach (ds : List Directive) : List Call × Session :=
  let (calls, cache) := (s.renderer w {}).resolveEach ds s.cache
  (calls, { s with cache })

end Session

-- All directives, or the one with a given number.
def pick (index : Option Int) (ds : List Directive) : Except SessionError (List Directive) :=
  match index with
  | none => .ok ds
  | some i =>
    match if i < 0 then none else ds[i.toNat]? with
    | some d => .ok [d]
    | none => .error (.noDirective i ds.length)

end Transclusion
