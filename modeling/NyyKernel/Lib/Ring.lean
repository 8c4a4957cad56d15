import Mathlib.Tactic
import Mathlib.Logic.Function.Basic

/-!
This module contains queues in a ring of slots.
-/

namespace Nyy

namespace Fifo

variable {α : Type}

def write (capacity : Nat) (q : List α) (x : α) : List α :=
  if q.length < capacity then q ++ [x] else q

def read (q : List α) : Option α × List α :=
  match q with
  | [] => (none, [])
  | x :: q => (some x, q)

end Fifo

namespace Ring

variable {α : Type} {n : Nat} {slots : Nat → α} {head tail : Nat} {q : List α} {x : α}

structure Holds (n : Nat) (slots : Nat → α) (head tail : Nat) (q : List α) : Prop where
  room : q.length < n
  tailLt : tail < n
  head : head = (tail + q.length) % n
  slot : ∀ i x, q[i]? = some x → slots ((tail + i) % n) = x

namespace Holds

theorem nil (slots : Nat → α) (h : tail < n) : Holds n slots tail tail [] := by
  refine ⟨Nat.zero_lt_of_lt h, h, ?_, by simp⟩
  exact (Nat.mod_eq_of_lt h).symm

section

variable (h : Holds n slots head tail q)

include h

theorem offset_ne {i j : Nat} (hij : i < j) (hj : j < n) : (tail + i) % n ≠ (tail + j) % n := by
  have htail := h.tailLt
  intro heq
  have hi := Nat.div_add_mod (tail + i) n
  have hj' := Nat.div_add_mod (tail + j) n
  rw [heq] at hi
  have hdvd : n ∣ j - i := by
    refine ⟨(tail + j) / n - (tail + i) / n, ?_⟩
    rw [Nat.mul_sub]
    omega
  have := Nat.le_of_dvd (by omega) hdvd
  omega

theorem eq_nil_iff : tail = head ↔ q = [] := by
  constructor
  . intro heq
    by_contra hne
    have hpos := List.length_pos_of_ne_nil hne
    apply h.offset_ne hpos h.room
    rw [Nat.add_zero, Nat.mod_eq_of_lt h.tailLt, ← h.head]
    exact heq
  . intro heq
    rw [h.head, heq, List.length_nil, Nat.add_zero, Nat.mod_eq_of_lt h.tailLt]

theorem next_head : (head + 1) % n = (tail + (q.length + 1)) % n := by
  rw [h.head, Nat.mod_add_mod, Nat.add_assoc]

theorem full_iff : (head + 1) % n = tail ↔ q.length = n - 1 := by
  have hroom := h.room
  rw [h.next_head]
  constructor
  . intro heq
    by_contra hne
    apply h.offset_ne (Nat.succ_pos q.length) (by omega)
    rw [Nat.add_zero, Nat.mod_eq_of_lt h.tailLt]
    exact heq.symm
  . intro heq
    have hlen : q.length + 1 = n := by omega
    rw [hlen, Nat.add_mod_right, Nat.mod_eq_of_lt h.tailLt]

theorem push (hroom : q.length < n - 1)
    : Holds n (Function.update slots head x) ((head + 1) % n) tail (q ++ [x]) := by
  refine ⟨by simp; omega, h.tailLt, by simpa using h.next_head, ?_⟩
  intro i y hy
  rcases Nat.lt_trichotomy i q.length with hi | hi | hi
  . have hne : (tail + i) % n ≠ head := by
      rw [h.head]
      exact h.offset_ne hi h.room
    rw [Function.update_of_ne hne]
    rw [List.getElem?_append_left hi] at hy
    exact h.slot i y hy
  . subst hi
    rw [← h.head, Function.update_self]
    simpa using hy
  . rw [List.getElem?_eq_none (by simp; omega)] at hy
    cases hy

end

theorem pop (h : Holds n slots head tail (x :: q))
    : slots tail = x ∧ Holds n slots head ((tail + 1) % n) q := by
  have hpos := Nat.zero_lt_of_lt h.tailLt
  have hroom := h.room
  rw [List.length_cons] at hroom
  refine ⟨?_, by omega, Nat.mod_lt _ hpos, ?_, ?_⟩
  . have := h.slot 0 x rfl
    rwa [Nat.add_zero, Nat.mod_eq_of_lt h.tailLt] at this
  . rw [h.head, List.length_cons, Nat.mod_add_mod, Nat.add_assoc, Nat.add_comm 1]
  . intro i y hy
    rw [Nat.mod_add_mod, Nat.add_assoc, Nat.add_comm 1]
    exact h.slot (i + 1) y hy

end Holds
end Ring
end Nyy
