import Transclusion.Files.Path

namespace Transclusion

open Text

structure CharSet where
  negated : Bool
  ranges : List (Char × Char)
  deriving DecidableEq

inductive Wildcard
  | one (c : Char)
  | any
  | many
  | set (s : CharSet)
  deriving DecidableEq

namespace CharSet

def has (s : CharSet) (c : Char) : Bool :=
  (s.ranges.any fun r => r.1 ≤ c && c ≤ r.2) != s.negated

-- `a-z` is a range; a hyphen at either end or right after a range is a character.
def rangesOf : Text → List (Char × Char)
  | a :: '-' :: b :: s => (a, b) :: rangesOf s
  | c :: s => (c, c) :: rangesOf s
  | [] => []

def takeMark (mark : Char) : Text → Bool × Text
  | [] => (false, [])
  | c :: s => if c = mark then (true, s) else (false, c :: s)

theorem takeMark_length (mark : Char) (s : Text) : (takeMark mark s).2.length ≤ s.length := by
  cases s with
  | nil => simp [takeMark]
  | cons c s =>
    simp only [takeMark]
    split <;> simp

-- Reads up to the closing bracket, which counts as a character in the first place.
def read? (s : Text) : Option (CharSet × Text) :=
  let (negated, s) := takeMark '!' s
  let (closing, s) := takeMark ']' s
  let first := if closing then [']'] else []
  match s.dropWhile (· != ']') with
  | [] => none
  | _ :: r => some (⟨negated, rangesOf (first ++ s.takeWhile (· != ']'))⟩, r)

theorem read?_length {s r : Text} {c : CharSet} (h : read? s = some (c, r)) : r.length ≤ s.length := by
  simp only [read?] at h
  split at h
  · cases h
  · next d r' hr =>
    cases h
    have h1 := takeMark_length '!' s
    have h2 := takeMark_length ']' (takeMark '!' s).2
    have h3 := (List.dropWhile_sublist (l := (takeMark ']' (takeMark '!' s).2).2) (· != ']')).length_le
    rw [hr, List.length_cons] at h3
    omega

end CharSet

namespace Wildcard

-- A bracket that is never closed is a character.
def ofText (s : Text) : List Wildcard :=
  match s with
  | [] => []
  | '*' :: s => many :: ofText s
  | '?' :: s => any :: ofText s
  | '[' :: s =>
    match h : CharSet.read? s with
    | some (cs, r) =>
      have := CharSet.read?_length h
      .set cs :: ofText r
    | none => one '[' :: ofText s
  | c :: s => one c :: ofText s
termination_by s.length

def fits : List Wildcard → Text → Bool
  | [], s => s.isEmpty
  | many :: ws, [] => fits ws []
  | many :: ws, c :: s => fits ws (c :: s) || fits (many :: ws) s
  | _ :: _, [] => false
  | one a :: ws, c :: s => a == c && fits ws s
  | any :: ws, _ :: s => fits ws s
  | .set cs :: ws, c :: s => cs.has c && fits ws s
termination_by ws s => ws.length + s.length

end Wildcard

inductive Glob.Part
  | name (s : Text)
  | wild (ws : List Wildcard)
  | deep
  deriving DecidableEq

structure Glob where
  parts : List Glob.Part
  -- A trailing slash asks for directories.
  onlyDirectories : Bool
  deriving DecidableEq

namespace Glob

def Part.ofText (s : Text) : Except Fault Part :=
  if s = "**".toList then .ok .deep
  else if (cut? "**".toList s).isSome then .error .mixedPattern
  else if s.any (fun c => c == '*' || c == '?' || c == '[') then .ok (.wild (Wildcard.ofText s))
  else .ok (.name s)

def ofText (s : Text) : Except Fault Glob :=
  let p := Path.ofText s
  if p.isRelative then
    (p.parts.mapM Part.ofText).map fun parts => ⟨parts, s.getLast? = some '/'⟩
  else .error .anchoredPattern

-- No file stands at the end of `**`.
def partsFit : List Part → List Text → Bool
  | [], [] => true
  | [], _ :: _ => false
  | [.deep], _ => false
  | .deep :: ps, [] => partsFit ps []
  | .deep :: ps, n :: ns => partsFit ps (n :: ns) || partsFit (.deep :: ps) ns
  | .name _ :: _, [] => false
  | .name s :: ps, n :: ns => s == n && partsFit ps ns
  | .wild _ :: _, [] => false
  | .wild ws :: ps, n :: ns => Wildcard.fits ws n && partsFit ps ns
termination_by ps ns => ps.length + ns.length

-- The parts of a file below the directory that is searched. The pattern may start anywhere below it.
def fits (g : Glob) (file : List Text) : Bool :=
  !g.onlyDirectories && partsFit (.deep :: g.parts) file

end Glob

end Transclusion
