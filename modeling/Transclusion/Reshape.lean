import Transclusion.Directive

namespace Transclusion

namespace Section

def dropHeading (s : Section) : Document :=
  { content := s.content, sections := s.sections }

def dropSections (s : Section) : Section :=
  { s with sections := .nil }

end Section

namespace Directive

def reshapes (d : Directive) : Tree → Bool
  | .whole _ => false
  | .part _ => d.noFirstHeading || d.onlyContents

-- Without its headline a section is a document, of which all is kept.
def reshape (d : Directive) : Tree → Tree
  | .whole t => .whole t
  | .part s =>
    if d.noFirstHeading then .whole s.dropHeading
    else if d.onlyContents then .part s.dropSections
    else .part s

theorem reshape_of_not_reshapes {d : Directive} {t : Tree} (h : d.reshapes t = false) :
    d.reshape t = t := by
  cases t <;> simp_all [reshape, reshapes]

end Directive

end Transclusion
