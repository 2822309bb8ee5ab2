import Mathlib.Data.List.Forall2

namespace Transclusion

variable {ε ζ α β : Type} {f : α → Except ε β} {x : α} {xs : List α} {ys : List β}

@[simp] theorem mapError_ok (f : ε → ζ) (a : α) : (Except.ok a).mapError f = .ok a := rfl

@[simp] theorem mapError_error (f : ε → ζ) (e : ε) :
    (Except.error e : Except ε α).mapError f = .error (f e) := rfl

theorem mapError_eq_ok_iff {f : ε → ζ} {x : Except ε α} {a : α} : x.mapError f = .ok a ↔ x = .ok a := by
  cases x <;> simp

theorem toOption_eq_some_iff {x : Except ε α} {a : α} :
    x.toOption = some a ↔ x = .ok a := by
  cases x <;> simp [Except.toOption]

theorem mapM_cons_eq_ok_iff :
    (x :: xs).mapM f = .ok ys ↔ ∃ y zs, f x = .ok y ∧ xs.mapM f = .ok zs ∧ ys = y :: zs := by
  cases hx : f x <;> cases hs : xs.mapM f <;>
    simp [List.mapM_cons, hx, hs, bind, Except.bind, pure, Except.pure, eq_comm]

theorem mapM_eq_ok_iff : xs.mapM f = .ok ys ↔ List.Forall₂ (fun x y => f x = .ok y) xs ys := by
  induction xs generalizing ys
  case nil           => simp [pure, Except.pure]
  case cons x xs hi => simp only [mapM_cons_eq_ok_iff, hi, List.forall₂_cons_left_iff]

theorem exists_of_mapM_of_mem (h : xs.mapM f = .ok ys) (hx : x ∈ xs) : ∃ y ∈ ys, f x = .ok y := by
  induction xs generalizing ys
  case nil => cases hx
  case cons z xs hi =>
    obtain ⟨y, zs, hy, hs, rfl⟩ := mapM_cons_eq_ok_iff.mp h
    cases hx
    case head => exact ⟨y, List.mem_cons_self, hy⟩
    case tail hx =>
      have ⟨w, hm, hw⟩ := hi hs hx
      exact ⟨w, List.mem_cons_of_mem _ hm, hw⟩

-- The first failure is the result.
theorem mapM_eq_error {e : ε} (h : xs.mapM f = .error e) : ∃ x ∈ xs, f x = .error e := by
  induction xs
  case nil => cases h
  case cons x xs hi =>
    rw [List.mapM_cons] at h
    cases hx : f x
    case error =>
      simp only [hx, bind, Except.bind] at h
      cases h
      exact ⟨x, List.mem_cons_self, hx⟩
    case ok =>
      cases hs : xs.mapM f <;> simp only [hx, hs, bind, Except.bind] at h <;> cases h
      have ⟨y, hm, hy⟩ := hi hs
      exact ⟨y, List.mem_cons_of_mem _ hm, hy⟩

end Transclusion
