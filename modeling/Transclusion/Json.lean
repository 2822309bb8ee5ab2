import Transclusion.Text.Quoted

namespace Transclusion

-- A number is kept as it is written. Members of an object keep their order.
inductive Json
  | null
  | bool (b : Bool)
  | number (digits : Text)
  | string (s : Text)
  | array (items : List Json)
  | object (members : List (Text × Json))

namespace Json

open Text

def unit16 (n : Nat) : Text :=
  '\\' :: 'u' :: hexDigits 4 n

def escape (c : Char) : Text :=
  let n := c.toNat
  if c = '"' ∨ c = '\\' then ['\\', c]
  else if c = '\n' then ['\\', 'n']
  else if c = '\r' then ['\\', 'r']
  else if c = '\t' then ['\\', 't']
  else if n = 8 then ['\\', 'b']
  else if n = 12 then ['\\', 'f']
  else if 32 ≤ n ∧ n < 127 then [c]
  else if n < 0x10000 then unit16 n
  else unit16 (0xd800 + (n - 0x10000) / 0x400) ++ unit16 (0xdc00 + (n - 0x10000) % 0x400)

def quote (s : Text) : Text :=
  '"' :: s.flatMap escape ++ ['"']

def ofInt (n : Int) : Json :=
  number (Text.ofInt n)

def ofNat (n : Nat) : Json :=
  number (Text.ofNat n)

def ofOption {α : Type} (f : α → Json) (a : Option α) : Json :=
  a.elim null f

def strings (ss : List Text) : Json :=
  array (ss.map string)

def literal : Bool → Text
  | true => "true".toList
  | false => "false".toList

-- Separators are followed by a space.
mutual
def inline : Json → Text
  | null => "null".toList
  | bool b => literal b
  | number digits => digits
  | string s => quote s
  | array items => '[' :: List.intercalate ", ".toList (inlineItems items) ++ [']']
  | object members => Char.ofNat 123 :: List.intercalate ", ".toList (inlineMembers members) ++ [Char.ofNat 125]

def inlineItems : List Json → List Text
  | [] => []
  | j :: js => j.inline :: inlineItems js

def inlineMembers : List (Text × Json) → List Text
  | [] => []
  | (k, j) :: ms => (quote k ++ ": ".toList ++ j.inline) :: inlineMembers ms
end

def newline (depth : Nat) : Text :=
  '\n' :: List.replicate (2 * depth) ' '

-- Items between two brackets, each on a line of its own, unless there are none.
def block (opening closing : Char) (depth : Nat) : List Text → Text
  | [] => [opening, closing]
  | items =>
    opening :: newline (depth + 1) ++ List.intercalate (',' :: newline (depth + 1)) items ++
      newline depth ++ [closing]

mutual
def indentedAt (depth : Nat) : Json → Text
  | array items => block '[' ']' depth (indentedItems depth items)
  | object members => block (Char.ofNat 123) (Char.ofNat 125) depth (indentedMembers depth members)
  | null => "null".toList
  | bool b => literal b
  | number digits => digits
  | string s => quote s

def indentedItems (depth : Nat) : List Json → List Text
  | [] => []
  | j :: js => j.indentedAt (depth + 1) :: indentedItems depth js

def indentedMembers (depth : Nat) : List (Text × Json) → List Text
  | [] => []
  | (k, j) :: ms => (quote k ++ ": ".toList ++ j.indentedAt (depth + 1)) :: indentedMembers depth ms
end

def indented (j : Json) : Text :=
  j.indentedAt 0

end Json

end Transclusion
