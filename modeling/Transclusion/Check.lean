import Transclusion.Expansion

namespace Transclusion

inductive Severity
  | warn
  | error
  deriving DecidableEq

def Severity.name : Severity → Text
  | warn => "warn".toList
  | error => "error".toList

def Failure.severity (f : Failure) : Severity :=
  match f.kind with
  | .invalidTarget | .permissionDenied => .warn
  | .fileNotFound | .circularReference | .parseError => .error

-- A directive that includes nothing, with the weight of its failure.
structure Finding where
  severity : Severity
  message : Text
  directive : Directive
  deriving DecidableEq

namespace Finding

def ofCall? (c : Call) : Option Finding :=
  match c.outcome with
  | .ok _ => none
  | .error f =>
    some
      { severity := f.severity
        message := c.task.directive.link.text ++ ": ".toList ++ f.message
        directive := c.task.directive }

end Finding

-- Each directive is resolved on its own; what it includes is not looked into.
def Renderer.resolveEach (r : Renderer) (ds : List Directive) (cache : Cache) : List Call × Cache :=
  r.resolveAll (ds.map (⟨·, []⟩)) cache

def Renderer.check (r : Renderer) (t : Tree) (cache : Cache) : Expansion (List Finding) :=
  match t.directives with
  | .error o => ⟨.error (.overlong o), cache, []⟩
  | .ok ds =>
    let (calls, cache) := r.resolveEach ds cache
    ⟨.ok (calls.filterMap Finding.ofCall?), cache, calls⟩

end Transclusion
