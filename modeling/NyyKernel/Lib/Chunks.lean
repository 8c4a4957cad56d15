import Mathlib.Tactic
import Mathlib.Data.List.Nodup

/-!
This module contains a memory range that is cut into chunks of one size.
-/

namespace Nyy

variable {a n b m base size cap x : Nat}

def Apart (a n b m : Nat) : Prop := a + n ≤ b ∨ b + m ≤ a

theorem Apart.symm (h : Apart a n b m) : Apart b m a n := Or.symm h

theorem Apart.mono {a' n' b' m' : Nat} (h : Apart a n b m) (ha : a ≤ a') (ha' : a' + n' ≤ a + n)
    (hb : b ≤ b') (hb' : b' + m' ≤ b + m)
    : Apart a' n' b' m' := by
  unfold Apart at h ⊢
  omega

theorem Apart.ne (h : Apart a n b m) (hn : 0 < n) (hm : 0 < m) : a ≠ b := by
  unfold Apart at h
  omega

def chunks (base size cap : Nat) : List Nat := (List.range cap).map fun i => base + i * size

theorem mem_chunks : x ∈ chunks base size cap ↔ ∃ i, i < cap ∧ x = base + i * size := by
  unfold chunks
  simp only [List.mem_map, List.mem_range]
  constructor
  . rintro ⟨i, hi, rfl⟩
    exact ⟨i, hi, rfl⟩
  . rintro ⟨i, hi, rfl⟩
    exact ⟨i, hi, rfl⟩

theorem length_chunks (base size cap : Nat) : (chunks base size cap).length = cap := by
  simp [chunks]

theorem nodup_chunks (hsize : 0 < size) : (chunks base size cap).Nodup := by
  unfold chunks
  apply List.Nodup.map
  . intro i j h
    exact Nat.eq_of_mul_eq_mul_right hsize (Nat.add_left_cancel h)
  . exact List.nodup_range

theorem chunk_inside (h : x ∈ chunks base size cap) : base ≤ x ∧ x + size ≤ base + cap * size := by
  rcases mem_chunks.mp h with ⟨i, hi, rfl⟩
  have : (i + 1) * size ≤ cap * size := Nat.mul_le_mul_right size hi
  rw [Nat.add_mul] at this
  omega

theorem chunk_apart {y : Nat} (hx : x ∈ chunks base size cap) (hy : y ∈ chunks base size cap) (hne : x ≠ y)
    : Apart x size y size := by
  rcases mem_chunks.mp hx with ⟨i, hi, rfl⟩
  rcases mem_chunks.mp hy with ⟨j, hj, rfl⟩
  have hij : i ≠ j := by
    rintro rfl
    exact hne rfl
  unfold Apart
  rcases Nat.lt_or_gt_of_ne hij with hlt | hlt
  . have : (i + 1) * size ≤ j * size := Nat.mul_le_mul_right size hlt
    rw [Nat.add_mul] at this
    omega
  . have : (j + 1) * size ≤ i * size := Nat.mul_le_mul_right size hlt
    rw [Nat.add_mul] at this
    omega

end Nyy
