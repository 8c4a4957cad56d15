import Mathlib.Tactic
import Mathlib.Data.List.Nodup
import Mathlib.Logic.Function.Basic

/-!
This module contains families of duplicate free lists that classify elements.
-/

namespace Nyy

variable {α ι : Type} [DecidableEq α] [DecidableEq ι]

structure Indexed (f : ι → List α) (p : α → ι → Prop) : Prop where
  nodup : ∀ i, (f i).Nodup
  mem : ∀ x i, x ∈ f i ↔ p x i

namespace Indexed

variable {f : ι → List α} {p q : α → ι → Prop}

omit [DecidableEq α] [DecidableEq ι] in
theorem empty : Indexed (fun _ => []) (fun (_ : α) (_ : ι) => False) := by
  constructor
  . intro i
    exact List.nodup_nil
  . simp

omit [DecidableEq α] [DecidableEq ι] in
theorem congr (h : Indexed f p) (hpq : ∀ x i, p x i ↔ q x i) : Indexed f q := by
  constructor
  . exact h.nodup
  . intro x i
    rw [h.mem, hpq]

omit [DecidableEq ι] in
theorem erase (h : Indexed f p) (x : α)
    : Indexed (fun i => (f i).erase x) (fun y i => y ≠ x ∧ p y i) := by
  constructor
  . intro i
    exact (h.nodup i).erase x
  . intro y i
    rw [(h.nodup i).mem_erase_iff, h.mem]

omit [DecidableEq α] in
theorem insert (h : Indexed f p) {x : α} (i : ι) (hx : ∀ j, ¬ p x j)
    : Indexed (Function.update f i (x :: f i)) (fun y j => (y = x ∧ j = i) ∨ p y j) := by
  constructor
  . intro j
    by_cases hj : j = i
    . subst hj
      rw [Function.update_self]
      refine List.nodup_cons.mpr ⟨?_, h.nodup j⟩
      rw [h.mem]
      exact hx j
    . rw [Function.update_of_ne hj]
      exact h.nodup j
  . intro y j
    by_cases hj : j = i
    . subst hj
      rw [Function.update_self, List.mem_cons, h.mem]
      simp
    . rw [Function.update_of_ne hj, h.mem]
      simp [hj]

end Indexed
end Nyy
