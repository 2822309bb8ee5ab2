import Transclusion.Json
import Transclusion.Proofs.Text.Digits

namespace Transclusion

open Text

-- Where one of these texts ends is told by the text itself.
def SelfDelimiting {α : Type} (write : α → Text) : Prop :=
  ∀ ⦃a b r s⦄, write a ++ r = write b ++ s → a = b ∧ r = s

namespace SelfDelimiting

variable {α : Type} {write : α → Text}

theorem of_reader {read? : Text → Option (α × Text)} (h : ∀ a r, read? (write a ++ r) = some (a, r)) :
    SelfDelimiting write := by
  intro a b r s he
  have hr := congrArg read? he
  rw [h, h, Option.some.injEq, Prod.mk.injEq] at hr
  exact hr

-- A list ends with a mark with which none of its members starts.
theorem flatMap {q : Char} (hw : SelfDelimiting write) (hq : ∀ a r s, write a ++ r ≠ q :: s) :
    SelfDelimiting fun as : List α => as.flatMap write ++ [q] := by
  intro as bs r s h
  simp only [List.append_assoc, List.singleton_append] at h
  induction as generalizing bs with
  | nil =>
    cases bs with
    | nil => exact ⟨rfl, (List.cons.inj h).right⟩
    | cons b bs =>
      rw [List.flatMap_cons, List.append_assoc] at h
      exact (hq _ _ _ h.symm).elim
  | cons a as hi =>
    rw [List.flatMap_cons, List.append_assoc] at h
    cases bs with
    | nil => exact (hq _ _ _ h).elim
    | cons b bs =>
      rw [List.flatMap_cons, List.append_assoc] at h
      obtain ⟨rfl, ht⟩ := hw h
      obtain ⟨rfl, rfl⟩ := hi ht
      exact ⟨rfl, rfl⟩

-- A literal stands for what is not there.
theorem option {lit : Text} (hw : SelfDelimiting write) (hl : ∀ a r s, write a ++ r ≠ lit ++ s) :
    SelfDelimiting fun o : Option α => o.elim lit write := by
  rintro (_ | a) (_ | b) r s h
  · exact ⟨rfl, List.append_cancel_left h⟩
  · exact (hl _ _ _ h.symm).elim
  · exact (hl _ _ _ h).elim
  · obtain ⟨rfl, hr⟩ := hw h
    exact ⟨rfl, hr⟩

end SelfDelimiting

namespace Json

section Escapes

variable {c : Char} {n : Nat}

-- What the letter after a backslash stands for.
def letters : List (Char × Char) :=
  [('"', '"'), ('\\', '\\'), ('n', '\n'), ('r', '\r'), ('t', '\t'), ('b', '\x08'), ('f', '\x0c')]

def unit? : Text → Option (Nat × Text)
  | '\\' :: 'u' :: s => some (Toml.valueIn 16 (s.take 4), s.drop 4)
  | _ => none

-- The first character of a text with escapes. Characters beyond the first plane are pairs of units.
def unescape? (s : Text) : Option (Char × Text) :=
  match unit? s with
  | some (n, r) =>
    if 0xd800 ≤ n ∧ n < 0xdc00 then
      (unit? r).map fun (m, r) => (Char.ofNat (0x10000 + (n - 0xd800) * 0x400 + (m - 0xdc00)), r)
    else some (Char.ofNat n, r)
  | none =>
    match s with
    | '\\' :: a :: r => (letters.lookup a).map (·, r)
    | a :: r => some (a, r)
    | [] => none

theorem unit?_unit16 (hn : n < 0x10000) (r : Text) : unit? (unit16 n ++ r) = some (n, r) := by
  have hl : (hexDigits 4 n).length = 4 :=
    length_hexDigits ((Nat.length_toDigits_le_iff (by decide) (by decide)).mpr hn)
  rw [unit16, List.cons_append, List.cons_append, unit?, List.take_left' hl, List.drop_left' hl,
    valueIn_hexDigits]

theorem unescape?_unit16 (hn : n < 0x10000) (hs : ¬(0xd800 ≤ n ∧ n < 0xdc00)) (r : Text) :
    unescape? (unit16 n ++ r) = some (Char.ofNat n, r) := by
  simp only [unescape?, unit?_unit16 hn, if_neg hs]

theorem unescape?_pair {hi lo : Nat} (hh : 0xd800 ≤ hi ∧ hi < 0xdc00) (hl : lo < 0x10000) (r : Text) :
    unescape? (unit16 hi ++ unit16 lo ++ r) =
      some (Char.ofNat (0x10000 + (hi - 0xd800) * 0x400 + (lo - 0xdc00)), r) := by
  rw [List.append_assoc]
  simp only [unescape?, unit?_unit16 (show hi < 0x10000 by omega), if_pos hh, unit?_unit16 hl,
    Option.map_some]

theorem unescape?_letter {a : Char} (ha : a ≠ 'u') (h : letters.lookup a = some c) (r : Text) :
    unescape? ('\\' :: a :: r) = some (c, r) := by
  have hu : unit? ('\\' :: a :: r) = none := by
    rw [unit?]
    rintro s ⟨⟩
    exact ha rfl
  simp only [unescape?, hu, h, Option.map_some]

theorem unescape?_plain (h : c ≠ '\\') (r : Text) : unescape? (c :: r) = some (c, r) := by
  have hu : unit? (c :: r) = none := by
    rw [unit?]
    rintro s ⟨⟩
    exact h rfl
  simp only [unescape?, hu]
  split <;> simp_all

theorem toNat_bounds (c : Char) : c.toNat < 0xd800 ∨ 0xdfff < c.toNat ∧ c.toNat < 0x110000 :=
  c.valid

theorem eq_ofNat_of_toNat {m : Nat} (h : c.toNat = m) : c = Char.ofNat m := by
  rw [←h, Char.ofNat_toNat]

theorem unescape?_escape (c : Char) (r : Text) : unescape? (escape c ++ r) = some (c, r) := by
  have hb := toNat_bounds c
  fun_cases escape c with
  | case1 h =>
    rcases h with rfl | rfl <;> exact unescape?_letter (by decide) rfl r
  | case2 | case3 | case4 =>
    subst c
    exact unescape?_letter (by decide) rfl r
  | case5 n _ _ _ _ h | case6 n _ _ _ _ _ h =>
    cases eq_ofNat_of_toNat h
    exact unescape?_letter (by decide) rfl r
  | case7 n h => exact unescape?_plain (fun hc => h (.inr hc)) r
  | case8 => rw [unescape?_unit16 ‹_› (by omega), Char.ofNat_toNat]
  | case9 n =>
    have hn : 0x10000 + (0xd800 + (n - 0x10000) / 0x400 - 0xd800) * 0x400 +
        (0xdc00 + (n - 0x10000) % 0x400 - 0xdc00) = n := by
      omega
    rw [unescape?_pair (by omega) (by omega), hn, Char.ofNat_toNat]

theorem selfDelimiting_escape : SelfDelimiting escape :=
  .of_reader unescape?_escape

theorem escape_ne_quote (c : Char) (r s : Text) : escape c ++ r ≠ '"' :: s := by
  intro h
  have hu := unescape?_escape c r
  rw [h, unescape?_plain (by decide), Option.some.injEq, Prod.mk.injEq] at hu
  cases hu.left
  cases h

end Escapes

theorem selfDelimiting_quote : SelfDelimiting quote := by
  intro a b r s h
  exact selfDelimiting_escape.flatMap escape_ne_quote (List.cons.inj h).right

theorem selfDelimiting_literal : SelfDelimiting literal := by
  rintro (_ | _) (_ | _) r s h
  · exact ⟨rfl, List.append_cancel_left h⟩
  · cases h
  · cases h
  · exact ⟨rfl, List.append_cancel_left h⟩

theorem quote_ne_null (t r s : Text) : quote t ++ r ≠ "null".toList ++ s :=
  fun h => by cases h

end Json

end Transclusion
