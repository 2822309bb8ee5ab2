import Transclusion.Check
import Transclusion.Shelf

namespace Transclusion

-- A shelf, and the cache through which its documents are included in one another.
structure Desk where
  shelf : Shelf
  limit : DepthLimit
  cache : Cache

namespace Desk

-- The first four ask for something. The others change the shelf or the cache.
inductive Step
  | resolve (ancestors : List Text) (directive : Directive)
  | expand (ancestors : List Text) (style : Style) (directive : Directive)
  | render (ancestors : List Text) (style : Style) (tree : Tree)
  | check (tree : Tree)
  | write (name text : Text)
  | delete (name : Text)
  | fault (place : Shelf.Place) (f : Fault)
  | heal (place : Shelf.Place)
  | invalidate (sourceId : Text)
  | invalidateRefs (refs : List Text)
  | clear

inductive Answer
  | done
  | outcome (o : Except Interruption Outcome)
  | text (t : Except Interruption Text)
  | findings (fs : Except Interruption (List Finding))
  | count (n : Nat)
  | sourceIds (ids : List Text)

-- What came of a step, and the desk after it.
structure Turn where
  answer : Answer
  accesses : List Access := []
  desk : Desk

variable (d : Desk)

def renderer (style : Style) : Renderer where
  library := d.shelf.library
  limit := d.limit
  style := style

def afterExpansion {α : Type} (x : Expansion α) (answer : Except Interruption α → Answer) : Turn where
  answer := answer (x.raising d.limit)
  accesses := x.accesses
  desk := { d with cache := x.cache }

def step : Step → Turn
  | .resolve ancestors directive =>
    match tryResolve d.shelf.library d.limit ancestors directive d.cache with
    | .error i => { answer := .outcome (.error i), desk := d }
    | .ok x =>
      { answer := .outcome (.ok x.outcome), accesses := x.accesses, desk := { d with cache := x.cache } }
  | .expand ancestors style directive =>
    if prints d.limit ancestors directive then
      d.afterExpansion ((d.renderer style).expand ancestors directive d.cache) .text
    else { answer := .text (.error .unprinted), desk := d }
  | .render ancestors style tree =>
    d.afterExpansion ((d.renderer style).render ancestors tree d.cache) .text
  | .check tree => d.afterExpansion ((d.renderer {}).check tree d.cache) .findings
  | .write name text => { answer := .done, desk := { d with shelf := d.shelf.write name text } }
  | .delete name => { answer := .done, desk := { d with shelf := d.shelf.delete name } }
  | .fault place f => { answer := .done, desk := { d with shelf := d.shelf.setFault place f } }
  | .heal place => { answer := .done, desk := { d with shelf := d.shelf.heal place } }
  | .invalidate sourceId =>
    let (n, cache) := d.cache.invalidate sourceId
    { answer := .count n, desk := { d with cache } }
  | .invalidateRefs refs =>
    let (ids, cache) := d.cache.invalidateRefs refs
    { answer := .sourceIds ids, desk := { d with cache } }
  | .clear => { answer := .done, desk := { d with cache := d.cache.clear } }

def run : Desk → List Step → List Turn
  | _, [] => []
  | d, s :: ss => d.step s :: run (d.step s).desk ss

def after : Desk → List Step → Desk
  | d, [] => d
  | d, s :: ss => after (d.step s).desk ss

theorem run_append {d : Desk} (ss ts : List Step) :
    d.run (ss ++ ts) = d.run ss ++ (d.after ss).run ts := by
  induction ss generalizing d with
  | nil => rfl
  | cons s ss hi => simp [run, after, hi]

theorem after_append {d : Desk} (ss ts : List Step) :
    d.after (ss ++ ts) = (d.after ss).after ts := by
  induction ss generalizing d with
  | nil => rfl
  | cons s ss hi => simp [after, hi]

@[simp] theorem length_run (ss : List Step) : (d.run ss).length = ss.length := by
  induction ss generalizing d with
  | nil => rfl
  | cons s ss hi => simp [run, hi]

end Desk

end Transclusion
