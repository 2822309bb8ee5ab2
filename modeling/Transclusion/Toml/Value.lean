import Transclusion.Decimal
import Transclusion.Text.Quoted

namespace Transclusion

open Text

inductive Toml.MomentKind
  | date
  | time
  | dateTime
  deriving DecidableEq

-- Tables keep their keys in the order in which they were written.
inductive Toml
  | text (s : Text)
  | int (n : Int)
  | float (x : Float)
  | bool (b : Bool)
  | moment (kind : Toml.MomentKind) (s : Text)
  | array (items : List Toml)
  | table (members : List (Text × Toml))

namespace Toml

abbrev Table := List (Text × Toml)
abbrev Key := List Text

def typeName : Toml → Text
  | text _ => "str".toList
  | int _ => "int".toList
  | float _ => "float".toList
  | bool _ => "bool".toList
  | moment .date _ => "datetime.date".toList
  | moment .time _ => "datetime.time".toList
  | moment .dateTime _ => "datetime.datetime".toList
  | array _ => "list".toList
  | table _ => "dict".toList

-- How a plain value is shown in messages.
def shown : Toml → Text
  | text s => s
  | int n => ofInt n
  | float x => ofFloat x
  | bool true => "True".toList
  | bool false => "False".toList
  | moment _ s => s
  | array _ => "[...]".toList
  | table _ => "[...]".toList

namespace Table

def replace (k : Text) (v : Toml) (t : Table) : Table :=
  t.map fun m => if m.1 = k then (k, v) else m

-- Changes the table behind a key, and creates the tables on the way that are missing. In a list of
-- tables the last one counts, where lists may be entered. There may be another value on the way.
def change? (enterLists : Bool) (f : Table → Option Table) : Key → Table → Option Table
  | [], t => f t
  | k :: ks, t =>
    match t.lookup k with
    | none => (change? enterLists f ks []).map fun u => t ++ [(k, .table u)]
    | some (.table u) => (change? enterLists f ks u).map fun u => t.replace k (.table u)
    | some (.array items) =>
      match items.getLast? with
      | some (.table u) =>
        if enterLists then
          (change? enterLists f ks u).map fun u => t.replace k (.array (items.dropLast ++ [.table u]))
        else none
      | _ => none
    | some _ => none

def insert? (k : Text) (v : Toml) (t : Table) : Option Table :=
  if (t.lookup k).isSome then none else some (t ++ [(k, v)])

-- Adds an empty table to the list of tables behind `k`.
def extend? (k : Text) (t : Table) : Option Table :=
  match t.lookup k with
  | none => some (t ++ [(k, .array [.table []])])
  | some (.array items) => some (t.replace k (.array (items ++ [.table []])))
  | some _ => none

end Table

inductive Cause
  | statement
  | restOfLine
  | missing (mark : Text)
  | forbidden (c : Char)
  | declaredTwice (key : Key)
  | overwritten
  | headerEnd
  | listHeaderEnd
  | immutable (key : Key)
  | redefined (key : Key)
  | noEquals
  | keyStart
  | arrayEnd
  | duplicate (name : Text)
  | inlineEnd
  | backslash
  | hexadecimal
  | notScalar
  | unterminated
  | illegal (c : Char)
  | calendar
  | value
  | overlong (digits : Nat)

-- A key as a tuple of its parts.
def keyText : Key → Text
  | [k] => '(' :: quoted k ++ ",)".toList
  | ks => '(' :: List.intercalate ", ".toList (ks.map quoted) ++ [')']

def Cause.text : Cause → Text
  | statement => "Invalid statement".toList
  | restOfLine => "Expected newline or end of document after a statement".toList
  | missing mark => "Expected ".toList ++ quoted mark
  | forbidden c => "Found invalid character ".toList ++ quoted [c]
  | declaredTwice key => "Cannot declare ".toList ++ keyText key ++ " twice".toList
  | overwritten => "Cannot overwrite a value".toList
  | headerEnd => "Expected ']' at the end of a table declaration".toList
  | listHeaderEnd => "Expected ']]' at the end of an array declaration".toList
  | immutable key => "Cannot mutate immutable namespace ".toList ++ keyText key
  | redefined key => "Cannot redefine namespace ".toList ++ keyText key
  | noEquals => "Expected '=' after a key in a key/value pair".toList
  | keyStart => "Invalid initial character for a key part".toList
  | arrayEnd => "Unclosed array".toList
  | duplicate name => "Duplicate inline table key ".toList ++ quoted name
  | inlineEnd => "Unclosed inline table".toList
  | backslash => "Unescaped '\\' in a string".toList
  | hexadecimal => "Invalid hex value".toList
  | notScalar => "Escaped character is not a Unicode scalar value".toList
  | unterminated => "Unterminated string".toList
  | illegal c => "Illegal character ".toList ++ quoted [c]
  | calendar => "Invalid date or datetime".toList
  | value => "Invalid value".toList
  | overlong digits =>
    "Exceeds the limit (4300 digits) for integer string conversion: value has ".toList ++ ofNat digits ++
      " digits; use sys.set_int_max_str_digits() to increase the limit".toList

structure Error where
  cause : Cause
  -- What comes before the place of the error, and whether anything comes after it.
  before : Text
  atEnd : Bool

def Error.place (e : Error) : Text :=
  if e.atEnd then "end of document".toList
  else
    let line := e.before.count '\n' + 1
    let column := (e.before.reverse.takeWhile (· != '\n')).length + 1
    "line ".toList ++ ofNat line ++ ", column ".toList ++ ofNat column

def Error.message (e : Error) : Text :=
  match e.cause with
  | .overlong _ => e.cause.text
  | c => c.text ++ " (at ".toList ++ e.place ++ [')']

end Toml

end Transclusion
