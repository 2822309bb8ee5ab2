import Transclusion.Text.Digit

namespace Transclusion.CommandLine

open Text

-- An option under one of its names.
structure Choice (α : Type) where
  name : Text
  effect : α

-- What follows the name of an option in its word.
structure Attached where
  equals : Bool
  text : Text
  deriving DecidableEq

inductive Word.Kind (α : Type)
  | plain
  | separator
  | option (o : Choice α) (attached : Option Attached)
  | unknown

structure Word (α : Type) where
  text : Text
  kind : Word.Kind α

namespace Word

variable {α : Type} (choices : List (Choice α))

def isLong (name : Text) : Bool :=
  (after? "--".toList name).isSome

def named? (name : Text) : Option (Choice α) :=
  choices.find? (·.name == name)

-- The name before the first equals sign, and what comes after it.
def splitEquals (s : Text) : Text × Option Attached :=
  match cut? ['='] s with
  | some (name, v) => (name, some ⟨true, v⟩)
  | none => (s, none)

-- All readings of a word that is no option as it stands.
def readings (s : Text) : List (Word.Kind α) :=
  if isLong s then
    let (stem, attached) := splitEquals s
    (choices.filter fun o => stem.isPrefixOf o.name).map (.option · attached)
  else
    (choices.filter fun o => o.name == s.take 2).map (.option · (some ⟨false, s.drop 2⟩))

-- Negative numbers are no options: digits, or a fraction, and perhaps a line feed at the end.
def isNegative (s : Text) : Bool :=
  match s with
  | '-' :: s =>
    let s := if s.getLast? = some '\n' then s.dropLast else s
    let whole := s.takeWhile isDigit
    match s.dropWhile isDigit with
    | [] => !whole.isEmpty
    | c :: r => c == '.' && !r.isEmpty && r.all isDigit
  | _ => false

-- `none` if the word stands for more than one option.
def kind? (s : Text) : Option (Word.Kind α) :=
  if s.head? ≠ some '-' then some .plain
  else
    match named? choices s with
    | some o => some (.option o none)
    | none =>
      if s = ['-'] then some .plain
      else
        let (name, attached) := splitEquals s
        match attached, named? choices name with
        | some v, some o => some (.option o (some v))
        | _, _ =>
          match readings choices s with
          | [k] => some k
          | _ :: _ :: _ => none
          | [] => some (if isNegative s || s.contains ' ' then .plain else .unknown)

-- After a separator all words are plain.
def ofTexts? : List Text → Option (List (Word α))
  | [] => some []
  | s :: ss =>
    if s = "--".toList then some (⟨s, .separator⟩ :: ss.map (⟨·, .plain⟩))
    else do
      let k ← kind? choices s
      let ws ← ofTexts? ss
      some (⟨s, k⟩ :: ws)

end Word

end Transclusion.CommandLine
