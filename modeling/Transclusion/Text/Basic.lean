namespace Transclusion

abbrev Text := List Char

namespace Text

variable {lit sep s r : Text}

def after? : (lit s : Text) → Option Text
  | [], s => some s
  | _ :: _, [] => none
  | a :: lit, c :: s => if a = c then after? lit s else none

theorem after?_eq_some_iff : after? lit s = some r ↔ s = lit ++ r := by
  fun_induction after? lit s with
  | case1 => simp [eq_comm]
  | case2 => simp
  | case3 _ _ _ ih => simp [ih]
  | case4 _ _ _ _ h => simp [Ne.symm h]

@[simp] theorem after?_append : after? lit (lit ++ r) = some r :=
  after?_eq_some_iff.2 rfl

-- An optional text that is there and not empty.
def given : Option Text → Option Text
  | some (c :: s) => some (c :: s)
  | _ => none

theorem given_eq_some_iff {o : Option Text} : given o = some s ↔ o = some s ∧ s ≠ [] := by
  cases o with
  | none => simp [given]
  | some t =>
    cases t with
    | nil => simp [given]
    | cons =>
      simp only [given, Option.some.injEq, ne_eq, iff_self_and]
      rintro rfl
      simp

theorem given_eq_self {o : Option Text} (h : ∀ s ∈ o, s ≠ []) : given o = o := by
  cases o with
  | none => rfl
  | some s => exact given_eq_some_iff.2 ⟨rfl, h s rfl⟩

-- The two sides of the first place where `sep` stands.
def cut? (sep : Text) : Text → Option (Text × Text)
  | [] => (after? sep []).map ([], ·)
  | c :: s =>
    match after? sep (c :: s) with
    | some r => some ([], r)
    | none => (cut? sep s).map fun (before, r) => (c :: before, r)

theorem eq_of_cut? {before : Text} (h : cut? sep s = some (before, r)) : s = before ++ sep ++ r := by
  induction s generalizing before with
  | nil =>
    obtain ⟨_, hs, he⟩ := Option.map_eq_some_iff.1 h
    cases he
    simpa using after?_eq_some_iff.1 hs
  | cons c s ih =>
    unfold cut? at h
    split at h
    · next hs =>
      cases h
      simpa using after?_eq_some_iff.1 hs
    · obtain ⟨⟨b, r'⟩, hs, he⟩ := Option.map_eq_some_iff.1 h
      cases he
      simp [ih hs]

-- All pieces between occurrences of `c`, the empty ones included.
def pieces (c : Char) : Text → List Text
  | [] => [[]]
  | a :: s =>
    if a = c then [] :: pieces c s
    else
      match pieces c s with
      | [] => [[a]]
      | p :: ps => (a :: p) :: ps

theorem pieces_ne_nil (c : Char) : (s : Text) → pieces c s ≠ []
  | [] => by simp [pieces]
  | a :: s => by
    unfold pieces
    split
    · simp
    · split <;> simp

-- Texts in the order of their characters, and a text before all that it starts.
def isBefore (s t : Text) : Bool :=
  s.lex t fun a b => a.toNat < b.toNat

def ofNat (n : Nat) : Text :=
  Nat.toDigits 10 n

def ofInt : Int → Text
  | .ofNat n => ofNat n
  | .negSucc n => '-' :: ofNat (n + 1)

end Text

end Transclusion
