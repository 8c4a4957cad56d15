import Mathlib.Tactic
import Mathlib.Data.List.FinRange
import Mathlib.Logic.Function.Basic

/-!
This module contains finite families of queues.
-/

namespace Nyy
namespace Buckets

variable {α : Type} {n : Nat} {q : Fin n → List α} {x : α} {i : Fin n}

def all (q : Fin n → List α) : List α := (List.finRange n).flatMap q

theorem mem_all : x ∈ all q ↔ ∃ i, x ∈ q i := by
  unfold all
  simp

theorem all_empty : all (fun _ : Fin n => ([] : List α)) = [] := by
  unfold all
  simp

theorem flatMap_update {l : List α} {is : List (Fin n)} (h : i ∉ is)
    : is.flatMap (Function.update q i l) = is.flatMap q := by
  apply List.flatMap_congr
  intro j hj
  apply Function.update_of_ne
  intro heq
  exact h (heq ▸ hj)

theorem all_update_perm (q : Fin n → List α) (i : Fin n) (l : List α)
    : (all (Function.update q i l) ++ q i).Perm (l ++ all q) := by
  unfold all
  rcases List.append_of_mem (List.mem_finRange i) with ⟨pre, post, heq⟩
  have hnodup := List.nodup_finRange n
  rw [heq, List.nodup_middle, List.nodup_cons, List.mem_append, not_or] at hnodup
  rw [heq]
  simp only [List.flatMap_append, List.flatMap_cons, Function.update_self,
    flatMap_update hnodup.1.1, flatMap_update hnodup.1.2]
  -- the two sides only differ in where `l` and `q i` stand
  calc
    (pre.flatMap q ++ (l ++ post.flatMap q)) ++ q i
    _ = pre.flatMap q ++ (l ++ (post.flatMap q ++ q i)) := by simp
    _ |>.Perm (pre.flatMap q ++ (l ++ (q i ++ post.flatMap q))) :=
      ((List.perm_append_comm).append_left l).append_left _
    _ = (pre.flatMap q ++ l) ++ (q i ++ post.flatMap q) := by simp
    _ |>.Perm ((l ++ pre.flatMap q) ++ (q i ++ post.flatMap q)) :=
      List.perm_append_comm.append_right _
    _ = l ++ (pre.flatMap q ++ (q i ++ post.flatMap q)) := by simp

theorem all_push (q : Fin n → List α) (i : Fin n) (x : α)
    : (all (Function.update q i (q i ++ [x]))).Perm (x :: all q) := by
  have h := all_update_perm q i (q i ++ [x])
  have h2 : ((q i ++ [x]) ++ all q).Perm ((x :: all q) ++ q i) := by
    rw [List.append_assoc]
    exact List.perm_append_comm
  exact (List.perm_append_right_iff _).mp (h.trans h2)

theorem all_pop {rest : List α} (h : q i = x :: rest)
    : (x :: all (Function.update q i rest)).Perm (all q) := by
  have h1 := all_update_perm q i rest
  rw [h] at h1
  have h2 : ((x :: all (Function.update q i rest)) ++ rest).Perm (all q ++ rest) :=
    List.perm_middle.symm.trans (h1.trans List.perm_append_comm)
  exact (List.perm_append_right_iff _).mp h2

theorem count_all [DecidableEq α] (h : ∀ j, j ≠ i → x ∉ q j) : (all q).count x = (q i).count x := by
  have hperm := (all_update_perm q i []).count_eq x
  rw [List.count_append, List.nil_append] at hperm
  have hzero : (all (Function.update q i [])).count x = 0 := by
    rw [List.count_eq_zero, mem_all]
    rintro ⟨j, hj⟩
    by_cases hji : j = i
    . subst hji
      simp at hj
    . rw [Function.update_of_ne hji] at hj
      exact h j hji hj
  omega

end Buckets
end Nyy
