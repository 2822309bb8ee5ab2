import Transclusion.Toml.Value

namespace Transclusion.Toml

open Text

def isHex (c : Char) : Bool :=
  c.isDigit || 'a' ≤ c && c ≤ 'f' || 'A' ≤ c && c ≤ 'F'

def hexValue (c : Char) : Nat :=
  if c.isDigit then c.toNat - '0'.toNat
  else if 'a' ≤ c then c.toNat - 'a'.toNat + 10
  else c.toNat - 'A'.toNat + 10

def valueIn (base : Nat) (s : Text) : Nat :=
  s.foldl (fun n c => base * n + hexValue c) 0

-- Further digits, each after at most one underscore. The underscores do not count.
def moreDigits (p : Char → Bool) : Text → Text × Text
  | '_' :: c :: s =>
    if p c then
      let (ds, r) := moreDigits p s
      (c :: ds, r)
    else ([], '_' :: c :: s)
  | c :: s =>
    if p c then
      let (ds, r) := moreDigits p s
      (c :: ds, r)
    else ([], c :: s)
  | [] => ([], [])

def digits? (p : Char → Bool) : Text → Option (Text × Text)
  | c :: s =>
    if p c then
      let (ds, r) := moreDigits p s
      some (c :: ds, r)
    else none
  | [] => none

-- `0x`, `0o` and `0b` numbers.
def based? : Text → Option (Int × Text)
  | '0' :: 'x' :: s => (digits? isHex s).map fun (ds, r) => (valueIn 16 ds, r)
  | '0' :: 'o' :: s => (digits? (fun c => '0' ≤ c && c ≤ '7') s).map fun (ds, r) => (valueIn 8 ds, r)
  | '0' :: 'b' :: s => (digits? (fun c => c == '0' || c == '1') s).map fun (ds, r) => (valueIn 2 ds, r)
  | _ => none

def takeSign : Text → Bool × Text
  | '-' :: s => (true, s)
  | '+' :: s => (false, s)
  | s => (false, s)

def whole? : Text → Option (Text × Text)
  | '0' :: s => some (['0'], s)
  | s => digits? Char.isDigit s

def fraction? : Text → Option (Text × Text)
  | '.' :: s => digits? Char.isDigit s
  | _ => none

def exponent? : Text → Option (Bool × Text × Text)
  | c :: s =>
    if c == 'e' || c == 'E' then
      let (negative, s) := takeSign s
      (digits? Char.isDigit s).map fun (ds, r) => (negative, ds, r)
    else none
  | [] => none

-- The nearest floating point number. Far out of range it is zero or infinite.
def floatOf (negative : Bool) (ds : Text) (e : Int) : Float :=
  let m := valueIn 10 ds
  let size : Int := (Nat.toDigits 10 m).length
  let x : Float :=
    if m = 0 ∨ e + size < -400 then 0
    else if 400 < e + size then 1 / 0
    else Float.ofScientific m (e < 0) e.natAbs
  if negative then -x else x

inductive Number
  | int (n : Int)
  | float (x : Float)
  | overlong (digits : Nat)

def number? (s : Text) : Option (Number × Text) :=
  match based? s with
  | some (n, r) => some (.int n, r)
  | none =>
    let (negative, s) := takeSign s
    (whole? s).map fun (ds, r) =>
      let (fs, r₁) := (fraction? r).getD ([], r)
      match exponent? r₁ with
      | some (down, es, r₂) =>
        let e : Int := valueIn 10 es
        (.float (floatOf negative (ds ++ fs) ((if down then -e else e) - fs.length)), r₂)
      | none =>
        if fs.isEmpty then
          if 4300 < ds.length then (.overlong ds.length, r₁)
          else
            let n : Int := valueIn 10 ds
            (.int (if negative then -n else n), r₁)
        else (.float (floatOf negative (ds ++ fs) (-fs.length)), r₁)

-- Exactly `n` digits that make a number within bounds.
def field? (n low high : Nat) (s : Text) : Option (Nat × Text) :=
  let ds := s.take n
  let v := valueIn 10 ds
  if ds.length = n ∧ ds.all Char.isDigit ∧ low ≤ v ∧ v ≤ high then some (v, s.drop n) else none

def mark? (c : Char) (s : Text) : Option Text :=
  after? [c] s

def clock? (s : Text) : Option Text := do
  let (_, s) ← field? 2 0 23 s
  let (_, s) ← field? 2 0 59 (← mark? ':' s)
  let (_, s) ← field? 2 0 59 (← mark? ':' s)
  match s with
  | '.' :: d :: r => some (if d.isDigit then r.dropWhile Char.isDigit else s)
  | _ => some s

def offset? (s : Text) : Option Text :=
  match s with
  | [] => none
  | c :: r =>
    if c == 'Z' || c == 'z' then some r
    else if c == '+' || c == '-' then do
      let (_, r) ← field? 2 0 23 r
      let (_, r) ← field? 2 0 59 (← mark? ':' r)
      some r
    else none

def monthLength (year month : Nat) : Nat :=
  if month = 2 then
    if year % 4 = 0 ∧ (year % 100 ≠ 0 ∨ year % 400 = 0) then 29 else 28
  else if month = 4 ∨ month = 6 ∨ month = 9 ∨ month = 11 then 30
  else 31

-- A date, perhaps with a time and an offset, and whether the calendar has it.
def dateTime? (s : Text) : Option (MomentKind × Bool × Text) := do
  let (year, r) ← field? 4 0 9999 s
  let (month, r) ← field? 2 1 12 (← mark? '-' r)
  let (day, r) ← field? 2 1 31 (← mark? '-' r)
  let valid := 1 ≤ year ∧ day ≤ monthLength year month
  let time :=
    match r with
    | c :: r => if c == 'T' || c == 't' || c == ' ' then clock? r else none
    | [] => none
  match time with
  | some r => some (.dateTime, valid, (offset? r).getD r)
  | none => some (.date, valid, r)

end Transclusion.Toml
