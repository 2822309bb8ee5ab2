import Transclusion.Toml.Number

namespace Transclusion.Toml

open Text

structure Stop where
  cause : Cause
  rest : Text

def stop {α : Type} (cause : Cause) (rest : Text) : Except Stop α :=
  .error ⟨cause, rest⟩

def isSpace (c : Char) : Bool :=
  c == ' ' || c == '\t'

def isSpaceOrNewline (c : Char) : Bool :=
  isSpace c || c == '\n'

def skipSpaces (s : Text) : Text :=
  s.dropWhile isSpace

def isControl (c : Char) : Bool :=
  c.toNat < 32 && c != '\t' || c.toNat = 127

def isControlButNewline (c : Char) : Bool :=
  isControl c && c != '\n'

-- The text before `stop?`, which must be free of certain characters.
def clean (bad : Char → Bool) (body rest : Text) : Except Stop Unit :=
  match body.dropWhile (!bad ·) with
  | [] => .ok ()
  | c :: r => stop (.forbidden c) (c :: r ++ rest)

def skipComment (s : Text) : Except Stop Text :=
  match s with
  | '#' :: r => do
    let rest := r.dropWhile (· != '\n')
    clean isControl (r.takeWhile (· != '\n')) rest
    .ok rest
  | _ => .ok s

section Strings

def readLiteral (s : Text) : Except Stop (Text × Text) :=
  match s.dropWhile (· != '\'') with
  | [] => stop (.missing ['\'']) []
  | q :: r => do
    let body := s.takeWhile (· != '\'')
    clean isControl body (q :: r)
    .ok (body, r)

def hexChar (n : Nat) (s : Text) : Except Stop (Text × Text) :=
  let ds := s.take n
  if ds.length ≠ n ∨ !ds.all isHex then stop .hexadecimal s
  else
    let v := valueIn 16 ds
    if v < 0xd800 ∨ 0xe000 ≤ v ∧ v < 0x110000 then .ok ([Char.ofNat v], s.drop n)
    else stop .notScalar (s.drop n)

-- What follows a backslash.
def readEscape (multiline : Bool) (s : Text) : Except Stop (Text × Text) :=
  match s with
  | [] => stop .backslash []
  | c :: r =>
    if multiline && c == '\n' then .ok ([], r.dropWhile isSpaceOrNewline)
    else if multiline && isSpace c then
      match skipSpaces r with
      | [] => .ok ([], [])
      | '\n' :: r => .ok ([], r.dropWhile isSpaceOrNewline)
      | r => stop .backslash r
    else
      match c with
      | 'u' => hexChar 4 r
      | 'U' => hexChar 8 r
      | 'b' => .ok ([Char.ofNat 8], r)
      | 't' => .ok (['\t'], r)
      | 'n' => .ok (['\n'], r)
      | 'f' => .ok ([Char.ofNat 12], r)
      | 'r' => .ok (['\r'], r)
      | '"' => .ok (['"'], r)
      | '\\' => .ok (['\\'], r)
      | _ => stop .backslash r

-- Every turn takes at least one character, so the length of the text is enough fuel.
def readBasic (multiline : Bool) : (fuel : Nat) → Text → Text → Except Stop (Text × Text)
  | 0, _, s => stop .unterminated s
  | _ + 1, _, [] => stop .unterminated []
  | n + 1, acc, c :: r =>
    if c == '"' then
      if !multiline then .ok (acc, r)
      else
        match after? ['"', '"'] r with
        | some r => .ok (acc, r)
        | none => readBasic multiline n (acc ++ [c]) r
    else if c == '\\' then do
      let (t, r) ← readEscape multiline r
      readBasic multiline n (acc ++ t) r
    else if (if multiline then isControlButNewline c else isControl c) then stop (.illegal c) (c :: r)
    else readBasic multiline n (acc ++ [c]) r

-- Up to two more quotes right after the closing ones belong to the text.
def extraQuotes (q : Char) (t s : Text) : Text × Text :=
  match s with
  | a :: b :: r => if a = q ∧ b = q then (t ++ [q, q], r) else if a = q then (t ++ [q], b :: r) else (t, s)
  | [a] => if a = q then (t ++ [q], []) else (t, s)
  | [] => (t, s)

def afterNewline (s : Text) : Text :=
  match s with
  | '\n' :: r => r
  | _ => s

def readMultilineLiteral (s : Text) : Except Stop (Text × Text) :=
  let mark := ['\'', '\'', '\'']
  let s := afterNewline s
  match cut? mark s with
  | none => stop (.missing mark) []
  | some (body, r) => do
    clean isControlButNewline body (mark ++ r)
    .ok (extraQuotes '\'' body r)

def readMultilineBasic (s : Text) : Except Stop (Text × Text) := do
  let s := afterNewline s
  let (t, r) ← readBasic true (s.length + 1) [] s
  .ok (extraQuotes '"' t r)

end Strings

section Keys

def isBareKey (c : Char) : Bool :=
  c.isAlphanum || c == '-' || c == '_'

def readKeyPart (s : Text) : Except Stop (Text × Text) :=
  match s with
  | [] => stop .keyStart s
  | c :: r =>
    if isBareKey c then .ok (s.takeWhile isBareKey, s.dropWhile isBareKey)
    else if c == '\'' then readLiteral r
    else if c == '"' then readBasic false (r.length + 1) [] r
    else stop .keyStart s

def readKeyParts : (fuel : Nat) → Text → Except Stop (Key × Text)
  | 0, s => stop .keyStart s
  | n + 1, s => do
    let (k, r) ← readKeyPart s
    match skipSpaces r with
    | '.' :: r => do
      let (ks, r) ← readKeyParts n (skipSpaces r)
      .ok (k :: ks, r)
    | r => .ok ([k], r)

def readKey (s : Text) : Except Stop (Key × Text) :=
  readKeyParts (s.length + 1) s

end Keys

def isFrozen (frozen : List Key) (key : Key) : Bool :=
  frozen.any (·.isPrefixOf key)

def isContainer : Toml → Bool
  | array _ | table _ => true
  | _ => false

def readScalar (s : Text) : Except Stop (Toml × Text) :=
  match dateTime? s with
  | some (kind, valid, r) =>
    if valid then .ok (moment kind (s.take (s.length - r.length)), r) else stop .calendar s
  | none =>
    match clock? s with
    | some r => .ok (moment .time (s.take (s.length - r.length)), r)
    | none =>
      match number? s with
      | some (.int n, r) => .ok (int n, r)
      | some (.float x, r) => .ok (float x, r)
      | some (.overlong n, _) => stop (.overlong n) s
      | none =>
        let (negative, r) := takeSign s
        if let some r := after? "inf".toList r then
          .ok (float (if negative then -(1 / 0) else 1 / 0), r)
        else if let some r := after? "nan".toList r then .ok (float (0 / 0), r)
        else stop .value s

def skipArraySpace : (fuel : Nat) → Text → Except Stop Text
  | 0, s => .ok s
  | n + 1, s => do
    let r ← skipComment (s.dropWhile isSpaceOrNewline)
    if r.length = s.length then .ok s else skipArraySpace n r

-- The fuel bounds how deep values are nested and how many items they have, together.
mutual
def readValue : (fuel : Nat) → Text → Except Stop (Toml × Text)
  | 0, s => stop .value s
  | n + 1, s =>
    match s with
    | '"' :: '"' :: '"' :: r => do
      let (t, r) ← readMultilineBasic r
      .ok (text t, r)
    | '"' :: r => do
      let (t, r) ← readBasic false (r.length + 1) [] r
      .ok (text t, r)
    | '\'' :: '\'' :: '\'' :: r => do
      let (t, r) ← readMultilineLiteral r
      .ok (text t, r)
    | '\'' :: r => do
      let (t, r) ← readLiteral r
      .ok (text t, r)
    | 't' :: 'r' :: 'u' :: 'e' :: r => .ok (bool true, r)
    | 'f' :: 'a' :: 'l' :: 's' :: 'e' :: r => .ok (bool false, r)
    | '[' :: r => do
      let r ← skipArraySpace (r.length + 1) r
      match r with
      | ']' :: r => .ok (array [], r)
      | r => do
        let (items, r) ← readItems n r
        .ok (array items, r)
    | c :: r =>
      if c = Char.ofNat 123 then
        match skipSpaces r with
        | c' :: r' =>
          if c' = Char.ofNat 125 then .ok (table [], r')
          else do
            let (t, r) ← readMembers n [] [] (c' :: r')
            .ok (table t, r)
        | [] => do
          let (t, r) ← readMembers n [] [] []
          .ok (table t, r)
      else readScalar s
    | [] => readScalar s

def readItems : (fuel : Nat) → Text → Except Stop ((List Toml) × Text)
  | 0, s => stop .arrayEnd s
  | n + 1, s => do
    let (v, r) ← readValue n s
    let r ← skipArraySpace (r.length + 1) r
    match r with
    | ']' :: r => .ok ([v], r)
    | ',' :: r => do
      let r ← skipArraySpace (r.length + 1) r
      match r with
      | ']' :: r => .ok ([v], r)
      | r => do
        let (vs, r) ← readItems n r
        .ok (v :: vs, r)
    | r => stop .arrayEnd r

def readMembers : (fuel : Nat) → List Key → Table → Text → Except Stop (Table × Text)
  | 0, _, _, s => stop .inlineEnd s
  | n + 1, frozen, t, s => do
    let ((key, v), r) ← readPair n s
    if isFrozen frozen key then stop (.immutable key) r
    else
      let name := key.getLast?.getD []
      match Table.change? false some key.dropLast t with
      | none => stop .overwritten r
      | some _ =>
        match Table.change? false (Table.insert? name v) key.dropLast t with
        | none => stop (.duplicate name) r
        | some t =>
          match skipSpaces r with
          | [] => stop .inlineEnd []
          | c :: r =>
            if c = Char.ofNat 125 then .ok (t, r)
            else if c = ',' then
              readMembers n (if isContainer v then key :: frozen else frozen) t (skipSpaces r)
            else stop .inlineEnd (c :: r)

def readPair : (fuel : Nat) → Text → Except Stop ((Key × Toml) × Text)
  | 0, s => stop .keyStart s
  | n + 1, s => do
    let (key, r) ← readKey s
    match r with
    | '=' :: r => do
      let (v, r) ← readValue n (skipSpaces r)
      .ok ((key, v), r)
    | r => stop .noEquals r
end

-- `declared` tables cannot be declared again, `frozen` values cannot be changed, and `pending` tables
-- become declared with the next header.
structure State where
  data : Table := []
  declared : List Key := []
  frozen : List Key := []
  pending : List Key := []
  header : Key := []

namespace State

variable (st : State)

def settle : State :=
  { st with declared := st.pending ++ st.declared, pending := [] }

def tableHeader (s : Text) : Except Stop (State × Text) := do
  let (key, r) ← readKey (skipSpaces s)
  if st.declared.contains key || isFrozen st.frozen key then stop (.declaredTwice key) r
  else
    match Table.change? true some key st.data with
    | none => stop .overwritten r
    | some data =>
      match r with
      | ']' :: r => .ok ({ st with data, declared := key :: st.declared, header := key }, r)
      | r => stop .headerEnd r

-- A new table in a list starts with nothing declared below it.
def listHeader (s : Text) : Except Stop (State × Text) := do
  let (key, r) ← readKey (skipSpaces s)
  if isFrozen st.frozen key then stop (.immutable key) r
  else
    let free := fun ks : List Key => ks.filter fun k => !key.isPrefixOf k
    match Table.change? true (Table.extend? (key.getLast?.getD [])) key.dropLast st.data with
    | none => stop .overwritten r
    | some data =>
      match after? "]]".toList r with
      | some r =>
        .ok
          ({ st with
              data, header := key, declared := key :: free st.declared, frozen := free st.frozen },
            r)
      | none => stop .listHeaderEnd r

-- The tables that a dotted key goes through, from the outermost one.
def openings (header key : Key) : List Key :=
  (List.range (key.length - 1)).map fun i => header ++ key.take (i + 1)

def pair (s : Text) : Except Stop (State × Text) := do
  let ((key, v), r) ← readPair (2 * s.length + 2) s
  let nest := st.header ++ key.dropLast
  match (openings st.header key).find? st.declared.contains with
  | some k => stop (.redefined k) r
  | none =>
    if isFrozen st.frozen nest then stop (.immutable nest) r
    else
      match Table.change? true (Table.insert? (key.getLast?.getD []) v) nest st.data with
      | none => stop .overwritten r
      | some data =>
        .ok
          ({ st with
              data
              pending := openings st.header key ++ st.pending
              frozen := if isContainer v then (st.header ++ key) :: st.frozen else st.frozen },
            r)

def statement (s : Text) : Except Stop (State × Text) :=
  match s with
  | '[' :: '[' :: r => st.settle.listHeader r
  | '[' :: r => st.settle.tableHeader r
  | '#' :: _ => .ok (st, s)
  | c :: _ => if isBareKey c || c == '"' || c == '\'' then st.pair s else stop .statement s
  | [] => .ok (st, s)

def readAll : (fuel : Nat) → State → Text → Except Stop State
  | 0, st, _ => .ok st
  | n + 1, st, s =>
    match skipSpaces s with
    | [] => .ok st
    | '\n' :: r => readAll n st r
    | s => do
      let (st, r) ← st.statement s
      match ← skipComment (skipSpaces r) with
      | [] => .ok st
      | '\n' :: r => readAll n st r
      | r => stop .restOfLine r

end State

-- A carriage return before a line feed does not count.
def plainLines : Text → Text
  | '\r' :: '\n' :: s => '\n' :: plainLines s
  | c :: s => c :: plainLines s
  | [] => []

def ofText (s : Text) : Except Error Table :=
  let s := plainLines s
  match State.readAll (s.length + 1) {} s with
  | .ok st => .ok st.data
  | .error ⟨cause, rest⟩ =>
    .error { cause, before := s.take (s.length - rest.length), atEnd := rest.isEmpty }

end Transclusion.Toml
