import Mathlib.Tactic

/-!
This module contains texts that are made of lines.
-/

namespace Nyy
namespace Lines

variable {α : Type} [DecidableEq α] {sep : α} {line l : List α}

def terminatedFrom (sep : α) : List α → List α → List (List α)
  | _, [] => []
  | line, c :: text =>
    if c = sep then
      line :: terminatedFrom sep [] text
    else
      terminatedFrom sep (line ++ [c]) text

def terminated (sep : α) (text : List α) : List (List α) := terminatedFrom sep [] text

theorem terminatedFrom_append (text : List α) (h : sep ∉ l)
    : terminatedFrom sep line (l ++ sep :: text) = (line ++ l) :: terminatedFrom sep [] text := by
  induction l generalizing line with
  | nil => simp [terminatedFrom]
  | cons c l ih =>
    simp only [List.mem_cons, not_or] at h
    rw [List.cons_append, terminatedFrom, if_neg (fun heq => h.1 heq.symm), ih h.2]
    simp

theorem terminated_flatMap {lines : List (List α)} (h : ∀ l ∈ lines, sep ∉ l)
    : terminated sep (lines.flatMap fun l => l ++ [sep]) = lines := by
  unfold terminated
  induction lines with
  | nil => rfl
  | cons l lines ih =>
    rw [List.flatMap_cons, List.append_assoc, List.singleton_append,
      terminatedFrom_append _ (h l List.mem_cons_self), List.nil_append,
      ih fun l' hl' => h l' (List.mem_cons_of_mem _ hl')]

theorem split_of_two_le_count (h : 2 ≤ l.count sep)
    : ∃ first mid last, l = first ++ sep :: mid ++ sep :: last ∧ sep ∉ first ∧ sep ∉ last := by
  have hmem : sep ∈ l := List.count_pos_iff.mp (by omega)
  rcases List.eq_append_cons_of_mem hmem with ⟨first, rest, rfl, hfirst⟩
  rw [List.count_append, List.count_cons_self, List.count_eq_zero_of_not_mem hfirst] at h
  have hrest : sep ∈ rest.reverse := by
    rw [List.mem_reverse]
    exact List.count_pos_iff.mp (by omega)
  rcases List.eq_append_cons_of_mem hrest with ⟨last, mid, heq, hlast⟩
  rw [List.reverse_eq_iff] at heq
  refine ⟨first, mid.reverse, last.reverse, ?_, hfirst, by simpa using hlast⟩
  rw [heq]
  simp

end Lines
end Nyy
