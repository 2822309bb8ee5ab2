import Transclusion.Outline.Markup
import Transclusion.Resolution

namespace Transclusion

open Text

structure Style where
  keepDirectives : Bool := false
  headers : Bool := false

def failureText (f : Failure) : Text :=
  "# transclusion failed: ".toList ++ f.message ++ (if f.retryable then " [retry]".toList else []) ++ ['\n']

def headerLine (d : Directive) : Text :=
  "# transcluded: ".toList ++ d.header ++ ['\n']

section Weaving

-- Weaving takes texts from a list, one for each directive, and leaves the others.
abbrev Woven := Except Interruption (Text × List Text)

variable (style : Style)

def Element.weave (texts : List Text) : Element → Woven
  | .keyword k =>
    match Directive.ofKeyword k with
    | .error o => .error (.overlong o)
    | .ok none => .ok (k.markup, texts)
    | .ok (some _) =>
      match texts with
      | [] => .error .noTextLeft
      | t :: texts => .ok ((if style.keepDirectives then k.markup else []) ++ t, texts)
  | e => .ok (e.markup, texts)

def Content.weave (texts : List Text) : Content → Woven
  | [] => .ok ([], texts)
  | e :: es => do
    let (a, texts) ← e.weave style texts
    let (b, texts) ← weave texts es
    .ok (a ++ b, texts)

def weaveBody (texts : List Text) (c : Option Content) : Woven :=
  c.elim (.ok ([], texts)) (Content.weave style texts)

def Forest.weave (texts : List Text) : Forest → Woven
  | nil => .ok ([], texts)
  | cons h c i r => do
    let (a, texts) ← weaveBody style texts c
    let (b, texts) ← i.weave texts
    let (d, texts) ← r.weave texts
    .ok (h.markup ++ a ++ b ++ d, texts)

def Tree.weave (texts : List Text) (t : Tree) : Woven := do
  let opening := match t with
    | whole _ => []
    | part s => s.headline.markup
  let (a, texts) ← weaveBody style texts t.content
  let (b, texts) ← t.sections.weave style texts
  .ok (opening ++ a ++ b, texts)

end Weaving

-- One occurrence of a directive, with the places that are being expanded around it.
structure Task where
  directive : Directive
  ancestors : List Text
  deriving DecidableEq

namespace Task

variable (t : Task)

-- The tasks inside what a task included.
def inner (e : Included) : Except Interruption (List Task) :=
  (e.content.directives.mapError .overlong).map
    (·.map fun d => ⟨d, t.ancestors.insert e.sourceId⟩)

def innerOf : Outcome → Except Interruption (List Task)
  | .error _ => .ok []
  | .ok s => t.inner s.included

end Task

-- A resolved task.
structure Call where
  task : Task
  outcome : Outcome
  accesses : List Access

-- The tasks that a call starts. An overlong level in what it included keeps it from starting any, but
-- holds up no other call.
def Call.inner (c : Call) : List Task :=
  match c.task.innerOf c.outcome with
  | .ok tasks => tasks
  | .error _ => []

structure Expansion (α : Type) where
  result : Except Interruption α
  cache : Cache
  calls : List Call

namespace Expansion

variable {α : Type} (x : Expansion α)

def accesses : List Access :=
  x.calls.flatMap (·.accesses)

-- What is raised as soon as one of the calls cannot tell of its failure.
def raising (limit : DepthLimit) : Except Interruption α :=
  if x.calls.all fun c => prints limit c.task.ancestors c.task.directive then x.result
  else .error .unprinted

end Expansion

structure Renderer where
  library : Library
  limit : DepthLimit
  style : Style := {}

namespace Renderer

variable (r : Renderer)

def resolveAll : List Task → Cache → List Call × Cache
  | [], cache => ([], cache)
  | t :: ts, cache =>
    let x := resolve r.library r.limit t.ancestors t.directive cache
    let (calls, cache) := resolveAll ts x.cache
    (⟨t, x.outcome, x.accesses⟩ :: calls, cache)

-- The text of a resolved task, from the texts of the tasks inside it.
def assemble (c : Call) (texts : List Text) : Woven :=
  match c.outcome with
  | .error f => .ok (failureText f, texts)
  | .ok s => do
    let (body, texts) ← s.included.content.weave r.style texts
    .ok ((if r.style.headers then headerLine c.task.directive else []) ++ body, texts)

def assembleAll : List Call → List Text → Except Interruption (List Text)
  | [], _ => .ok []
  | c :: cs, texts => do
    let (t, texts) ← r.assemble c texts
    let ts ← assembleAll cs texts
    .ok (t :: ts)

-- The texts of some calls, from those of the tasks inside them. The first overlong level that they come
-- upon is raised.
def gather (calls : List Call) (texts : Except Interruption (List Text)) :
    Except Interruption (List Text) := do
  let _ ← calls.mapM fun c => c.task.innerOf c.outcome
  r.assembleAll calls (← texts)

-- The texts of the tasks of one level. `levels` is how many levels may follow: the checks against
-- endless inclusion let nothing succeed below them. Where a level is overlong all other tasks go on:
-- they are not cancelled, and what they include gets into the cache.
def expandAll : (levels : Nat) → List Task → Cache → Expansion (List Text)
  | levels, tasks, cache =>
    let (calls, cache) := r.resolveAll tasks cache
    match levels, calls.flatMap Call.inner with
    | _, [] => ⟨r.gather calls (.ok []), cache, calls⟩
    | 0, _ => ⟨r.gather calls (.error .noTextLeft), cache, calls⟩
    | n + 1, tasks =>
      let below := expandAll n tasks cache
      ⟨r.gather calls below.result, below.cache, calls ++ below.calls⟩

-- How many levels of inclusion the depth limit leaves.
def levelsLeft (ancestors : List Text) : Nat :=
  r.limit.bound - ancestors.length

def render (ancestors : List Text) (t : Tree) (cache : Cache) : Expansion Text :=
  match t.directives with
  | .error o => ⟨.error (.overlong o), cache, []⟩
  | .ok ds =>
    let x := r.expandAll (r.levelsLeft ancestors) (ds.map (⟨·, ancestors⟩)) cache
    { x with result := x.result.bind fun texts => (t.weave r.style texts).map (·.1) }

def expand (ancestors : List Text) (d : Directive) (cache : Cache) : Expansion Text :=
  let x := r.expandAll (r.levelsLeft ancestors) [⟨d, ancestors⟩] cache
  { x with result := x.result.map List.flatten }

end Renderer

end Transclusion
