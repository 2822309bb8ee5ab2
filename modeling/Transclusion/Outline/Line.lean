import Transclusion.Text.Blank
import Transclusion.Text.Word
import Transclusion.Text.Fold
import Transclusion.Outline.Basic

namespace Transclusion

open Text

-- A name that holds neither a blank nor a colon, up to its colon.
def takeName? (s : Text) : Option (Text × Text) :=
  let inName (c : Char) : Bool := !isBlank c && c != ':'
  match s.takeWhile inName, s.dropWhile inName with
  | [], _ => none
  | name, ':' :: r => some (name, r)
  | _, _ => none

-- What stands after the colon of a keyword or property is separated from it by a blank.
def valueAfterColon? (r : Text) : Option Text :=
  if r.head?.all isBlank then some (trim r) else none

def Keyword.ofLine? (line : Text) : Option Keyword := do
  let s ← after? "#+".toList (trimStart line)
  let (name, r) ← takeName? s
  let value ← valueAfterColon? r
  some { key := "#+".toList ++ name ++ [':'], value := given (some value) }

def Drawer.property? (line : Text) : Option (Text × Text) := do
  let s ← after? ":".toList (trimStart line)
  let (name, r) ← takeName? s
  let value ← valueAfterColon? r
  some (name, value)

-- The line is one fixed word and blanks.
def isMark (word line : Text) : Bool :=
  (afterFold? word (trimStart line)).any isAllBlank

def Drawer.opens (line : Text) : Bool :=
  isMark ":PROPERTIES:".toList line

def Drawer.closes (line : Text) : Bool :=
  isMark ":END:".toList line

namespace Block

def opens? (line : Text) : Option Text := do
  let s ← afterFold? "#+begin_".toList (trimStart line)
  given (some (s.takeWhile isWord))

-- The name ends at a word edge, so `#+end_src` does not end a block named `srcs`, nor the other way.
def closes (name line : Text) : Bool :=
  match afterFold? "#+end_".toList (trimStart line) with
  | none => false
  | some s => (afterFold? name s).any fun r => isEdge (s.take name.length).getLast? r.head?

end Block

end Transclusion
