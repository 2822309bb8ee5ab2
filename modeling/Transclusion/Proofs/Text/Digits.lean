import Mathlib.Data.List.Induction
import Mathlib.Data.Nat.Digits.Defs
import Mathlib.Logic.Function.Defs
import Transclusion.Text.Digit
import Transclusion.Toml.Number

namespace Transclusion.Text

open Toml (hexValue valueIn)

variable {b n w : Nat}

theorem hexValue_digitChar : ∀ d < 16, hexValue d.digitChar = d := by
  decide

theorem valueIn_append_digit (s : Text) (hn : n < 16) :
    valueIn b (s ++ [n.digitChar]) = b * valueIn b s + n := by
  rw [valueIn, List.foldl_append, List.foldl_cons, List.foldl_nil, hexValue_digitChar n hn, valueIn]

theorem valueIn_toDigits (hb : 1 < b) (hb' : b ≤ 16) (n : Nat) :
    valueIn b (Nat.toDigits b n) = n := by
  induction n using Nat.base_induction b hb with
  | single m hm =>
    rw [Nat.toDigits_of_lt_base hm, ←List.nil_append [m.digitChar], valueIn_append_digit _ (by omega)]
    simp [valueIn]
  | digit d m hd hm hi =>
    rw [←Nat.toDigits_append_toDigits hb hm hd, Nat.toDigits_of_lt_base hd,
      valueIn_append_digit _ (by omega), hi]

theorem valueIn_replicate_zero (w : Nat) (s : Text) :
    valueIn b (List.replicate w '0' ++ s) = valueIn b s := by
  induction w with
  | zero => rfl
  | succ w hi =>
    rw [valueIn, List.replicate_succ, List.cons_append, List.foldl_cons, show hexValue '0' = 0 from rfl]
    exact hi

theorem valueIn_hexDigits (w n : Nat) : valueIn 16 (hexDigits w n) = n := by
  rw [hexDigits, valueIn_replicate_zero, valueIn_toDigits (by decide) (by decide)]

theorem length_hexDigits (h : (Nat.toDigits 16 n).length ≤ w) : (hexDigits w n).length = w := by
  rw [hexDigits, List.length_append, List.length_replicate]
  omega

theorem ofNat_injective : Function.Injective ofNat := by
  intro m n h
  have ht : Nat.toDigits 10 m = Nat.toDigits 10 n := h
  rw [←valueIn_toDigits (b := 10) (by decide) (by decide) m, ht,
    valueIn_toDigits (by decide) (by decide)]

theorem ofNat_ne_nil : ofNat n ≠ [] :=
  Nat.toDigits_ne_nil

theorem isDigit_of_mem_ofNat {c : Char} (h : c ∈ ofNat n) : c.isDigit :=
  Nat.isDigit_of_mem_toDigits (by decide) (by decide) h

theorem digitValue?_digitChar : ∀ d < 10, digitValue? d.digitChar = some d := by
  decide +kernel

theorem numeral_append_digit (s : Text) (hn : n < 10) :
    numeral (s ++ [n.digitChar]) = 10 * numeral s + n := by
  simp [numeral, List.filterMap_append, digitValue?_digitChar n hn]

theorem numeral_ofNat (n : Nat) : numeral (ofNat n) = n := by
  induction n using Nat.base_induction 10 (by decide) with
  | single m hm =>
    rw [ofNat, Nat.toDigits_of_lt_base hm, ←List.nil_append [m.digitChar], numeral_append_digit _ hm]
    simp [numeral]
  | digit d m hd hm hi =>
    rw [ofNat] at hi ⊢
    rw [←Nat.toDigits_append_toDigits (by decide) hm hd, Nat.toDigits_of_lt_base hd,
      numeral_append_digit _ hd, hi]

theorem numeral_lt (s : Text) : numeral s < 10 ^ s.length := by
  induction s using List.reverseRecOn
  case nil => decide
  case append_singleton s c hi =>
    rw [List.length_append, List.length_singleton, Nat.pow_succ]
    cases hc : digitValue? c
    case none =>
      have hs : numeral (s ++ [c]) = numeral s := by simp [numeral, List.filterMap_append, hc]
      omega
    case some d =>
      have hs : numeral (s ++ [c]) = 10 * numeral s + d := by simp [numeral, List.filterMap_append, hc]
      have hd := digitValue?_lt hc
      omega

-- A number is printed with no more digits than it was read from.
theorem length_ofNat_numeral_le {s : Text} (hw : 0 < w) (h : s.length ≤ w) :
    (ofNat (numeral s)).length ≤ w := by
  refine Nat.toDigits_length 10 _ w hw (Nat.lt_of_lt_of_le (numeral_lt s) ?_)
  exact Nat.pow_le_pow_right (by decide) h

theorem isDigit_of_char {c : Char} (h : c.isDigit) : isDigit c := by
  have ⟨hl, hu⟩ := Char.isDigit_iff_toNat.mp h
  have hv : 48 ≤ c.toNat ∧ c.toNat < 48 + 10 := ⟨hl, Nat.lt_succ_of_le hu⟩
  rw [isDigit, digitValue?, zeros, List.findSome?_cons, if_pos hv]
  rfl

theorem ofInt_injective : Function.Injective ofInt := by
  -- The sign is no digit.
  have hs {m n : Nat} (h : ofNat m = '-' :: ofNat n) : False :=
    absurd (isDigit_of_mem_ofNat (h ▸ List.mem_cons_self)) (by decide)
  intro a b h
  cases a <;> cases b
  case ofNat.ofNat     => exact congrArg _ (ofNat_injective h)
  case ofNat.negSucc   => exact (hs h).elim
  case negSucc.ofNat   => exact (hs h.symm).elim
  case negSucc.negSucc =>
    have hn := ofNat_injective (List.cons.inj h).right
    exact congrArg _ (Nat.succ.inj hn)

-- A number starts with a sign or with a digit.
theorem exists_ofInt_eq_cons (n : Int) : ∃ c s, ofInt n = c :: s ∧ (c = '-' ∨ c.isDigit) := by
  cases n
  case negSucc n => exact ⟨_, _, rfl, .inl rfl⟩
  case ofNat n =>
    obtain ⟨c, s, hs⟩ := List.exists_cons_of_ne_nil (ofNat_ne_nil (n := n))
    have hd : c ∈ ofNat n := hs ▸ List.mem_cons_self
    exact ⟨c, s, hs, .inr (isDigit_of_mem_ofNat hd)⟩

end Transclusion.Text
