import Mathlib.Tactic
import Mathlib.Data.List.Nodup

/-!
This module contains the operations of intrusive queues that lists do not have already.
-/

namespace Nyy
namespace Queue

variable {α : Type} [DecidableEq α] {pre post l : List α} {x : α}

def insertAfter (l : List α) (p x : α) : List α :=
  match l with
  | [] => []
  | y :: ys => if y = p then y :: x :: ys else y :: insertAfter ys p x

def next? (l : List α) (x : α) : Option α :=
  match l with
  | [] => none
  | y :: ys => if y = x then ys.head? else next? ys x

def prev? (l : List α) (x : α) : Option α :=
  go none l
where
  go (last : Option α) : List α → Option α
    | [] => none
    | y :: ys => if y = x then last else go (some y) ys

theorem insertAfter_append {p : α} (h : p ∉ pre)
    : insertAfter (pre ++ p :: post) p x = pre ++ p :: x :: post := by
  induction pre with
  | nil => simp [insertAfter]
  | cons y ys ih =>
    simp only [List.mem_cons, not_or] at h
    simp only [List.cons_append, insertAfter]
    rw [if_neg (fun heq => h.1 heq.symm)]
    rw [ih h.2]

theorem next?_append (h : x ∉ pre) : next? (pre ++ x :: post) x = post.head? := by
  induction pre with
  | nil => simp [next?]
  | cons y ys ih =>
    simp only [List.mem_cons, not_or] at h
    simp only [List.cons_append, next?]
    rw [if_neg (fun heq => h.1 heq.symm)]
    exact ih h.2

theorem prev?.go_append (h : x ∉ pre) (last : Option α)
    : prev?.go x last (pre ++ x :: post) = pre.getLast?.or last := by
  induction pre generalizing last with
  | nil => simp [prev?.go]
  | cons y ys ih =>
    simp only [List.mem_cons, not_or] at h
    simp only [List.cons_append, prev?.go]
    rw [if_neg (fun heq => h.1 heq.symm)]
    rw [ih h.2]
    cases ys with
    | nil => simp
    | cons z zs => simp [List.getLast?_cons]

theorem prev?_append (h : x ∉ pre) : prev? (pre ++ x :: post) x = pre.getLast? := by
  unfold prev?
  rw [prev?.go_append h]
  simp

theorem erase_append_cons (h : x ∉ pre) : (pre ++ x :: post).erase x = pre ++ post := by
  rw [List.erase_append_right _ h]
  simp

theorem perm_move {p : List α} (h : x ∈ l) : ((x :: p) ++ l.erase x).Perm (p ++ l) := by
  have h1 : ((x :: p) ++ l.erase x).Perm (p ++ x :: l.erase x) := List.perm_middle.symm
  apply h1.trans
  apply List.Perm.append_left
  exact (List.perm_cons_erase h).symm

omit [DecidableEq α] in
theorem split_of_mem (hx : x ∈ l) (hl : l.Nodup)
    : ∃ pre post, l = pre ++ x :: post ∧ x ∉ pre ∧ x ∉ post := by
  rcases List.append_of_mem hx with ⟨pre, post, rfl⟩
  have := List.nodup_append.mp hl
  refine ⟨pre, post, rfl, ?_, ?_⟩
  . intro hmem
    exact this.2.2 x hmem x List.mem_cons_self rfl
  . exact (List.nodup_cons.mp this.2.1).1

end Queue
end Nyy
