import Transclusion.Text.Lines
import Transclusion.Outline.Heading
import Transclusion.Outline.Line

namespace Transclusion

open Text

inductive Entry
  | heading (h : Headline)
  | keyword (k : Keyword)
  | drawer (d : Drawer)
  | line (l : Text)
  deriving DecidableEq

-- A drawer that is not yet closed keeps its lines, because it may turn out to be mere text.
inductive Mode
  | plain
  | block (name : Text)
  | drawer (properties : List (Text × Text)) (lines : List Text)
  deriving DecidableEq

namespace Mode

def readPlain (l : Text) : Mode × List Entry :=
  let s := bare l
  match Headline.ofLine? s with
  | some h => (plain, [.heading h])
  | none =>
    match Block.opens? s with
    | some name => (block name, [.line l])
    | none =>
      if Drawer.opens s then (drawer [] [l], [])
      else
        match Keyword.ofLine? s with
        | some k => (plain, [.keyword k])
        | none => (plain, [.line l])

def read : Mode → (l : Text) → Mode × List Entry
  | plain, l => readPlain l
  | block name, l => (if Block.closes name (bare l) then plain else block name, [.line l])
  | drawer ps ls, l =>
    if Drawer.closes (bare l) then (plain, [.drawer ⟨ps⟩])
    else
      match Drawer.property? (bare l) with
      | some p => (drawer (ps ++ [p]) (ls ++ [l]), [])
      | none =>
        let (m, es) := readPlain l
        (m, ls.map .line ++ es)

-- What is still held back when the text ends.
def rest : Mode → List Entry
  | drawer _ ls => ls.map .line
  | _ => []

def readAll (m : Mode) : List Text → Mode × List Entry
  | [] => (m, [])
  | l :: ls =>
    let (m, es) := m.read l
    let (m, es') := m.readAll ls
    (m, es ++ es')

theorem readAll_append (m : Mode) (ls ls' : List Text) :
    m.readAll (ls ++ ls') =
      (((m.readAll ls).1.readAll ls').1,
        (m.readAll ls).2 ++ ((m.readAll ls).1.readAll ls').2) := by
  induction ls generalizing m with
  | nil => rfl
  | cons l ls ih => simp [readAll, ih]

end Mode

def Entry.ofLines (ls : List Text) : List Entry :=
  let (m, es) := Mode.plain.readAll ls
  es ++ m.rest

-- Neighbouring lines of text are one element.
def Content.push : Entry → Content → Content
  | .line l, .text t :: c => .text (l ++ t) :: c
  | .line l, c => .text l :: c
  | .keyword k, c => .keyword k :: c
  | .drawer d, c => .drawer d :: c
  | .heading _, c => c

def Content.body? : Content → Option Content
  | [] => none
  | c => some c

-- The elements before the first headline, and each headline with the elements below it.
def gather : List Entry → Content × List (Headline × Content)
  | [] => ([], [])
  | .heading h :: es =>
    let (c, hs) := gather es
    ([], (h, c) :: hs)
  | e :: es =>
    let (c, hs) := gather es
    (c.push e, hs)

namespace Forest

-- The leading trees with more stars than `n`.
def deeper (n : Nat) : Forest → Forest
  | nil => nil
  | cons h c i r => if n < h.stars then cons h c i (r.deeper n) else nil

def beyond (n : Nat) : Forest → Forest
  | nil => nil
  | cons h c i r => if n < h.stars then r.beyond n else cons h c i r

theorem deeper_append_beyond (n : Nat) (f : Forest) : f.deeper n ++ f.beyond n = f := by
  induction f with
  | nil => rfl
  | cons h _ _ _ _ ih =>
    simp only [deeper, beyond]
    split <;> simp_all

-- A headline put before a forest takes in the trees that are deeper than itself.
def graft (h : Headline) (c : Content) (f : Forest) : Forest :=
  cons h c.body? (f.deeper h.stars) (f.beyond h.stars)

def ofHeadings (hs : List (Headline × Content)) : Forest :=
  hs.foldr (fun (h, c) f => f.graft h c) nil

end Forest

namespace Document

def ofEntries (es : List Entry) : Document :=
  let (c, hs) := gather es
  { content := c.body?, sections := .ofHeadings hs }

def ofText (t : Text) : Document :=
  ofEntries (Entry.ofLines (completed (lines t)))

end Document

end Transclusion
