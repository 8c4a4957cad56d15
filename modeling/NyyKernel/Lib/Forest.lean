import Mathlib.Tactic

/-!
This module contains the traversal of a tree that is given by the children of each node.
-/

namespace Nyy

variable {β : Type}

def preorder (children : β → List β) : Nat → β → List β
  | 0, _ => []
  | n + 1, b => b :: (children b).flatMap (preorder children n)

inductive Descends (children : β → List β) (b : β) : β → Prop where
  | refl : Descends children b b
  | step {c d : β} : Descends children b c → d ∈ children c → Descends children b d

structure IsTree (children : β → List β) (rank : β → Nat) (bound : Nat) (root : β) : Prop where
  rank_lt : ∀ b c, Descends children root b → c ∈ children b → rank b < rank c
  bounded : ∀ b, Descends children root b → rank b < bound
  nodup : ∀ b, Descends children root b → (children b).Nodup
  parent : ∀ a b c, Descends children root a → Descends children root b → c ∈ children a →
    c ∈ children b → a = b

def Shallow (children : β → List β) : Nat → β → Prop
  | 0, _ => False
  | n + 1, b => ∀ c ∈ children b, Shallow children n c

def LoopFree (children : β → List β) (root : β) : Prop :=
  ∀ b c, Descends children root b → c ∈ children b → ¬ Descends children c b

def Ranked (children : β → List β) : Prop :=
  ∃ (rank : β → Nat) (bound : Nat), (∀ b, rank b < bound) ∧ ∀ b, ∀ c ∈ children b, rank b < rank c

namespace Descends

variable {children : β → List β} {a b c d : β}

theorem trans (h : Descends children a b) (h' : Descends children b c) : Descends children a c := by
  induction h' with
  | refl => exact h
  | step _ hmem ih => exact ih.step hmem

theorem head (h : Descends children b c) : c = b ∨ ∃ d ∈ children b, Descends children d c := by
  induction h with
  | refl => exact .inl rfl
  | step _ hmem ih =>
    rcases ih with rfl | ⟨d, hd, hbelow⟩
    . exact .inr ⟨_, hmem, .refl⟩
    . exact .inr ⟨d, hd, hbelow.step hmem⟩

end Descends

namespace Shallow

variable {children : β → List β} {n k : Nat} {b c : β}

theorem mono (h : Shallow children n b) (hle : n ≤ k) : Shallow children k b := by
  induction n generalizing b k with
  | zero => exact h.elim
  | succ n ih =>
    rcases Nat.exists_eq_succ_of_ne_zero (show k ≠ 0 by omega) with ⟨k, rfl⟩
    intro c hc
    exact ih (h c hc) (by omega)

theorem descends (h : Shallow children n b) (hbelow : Descends children b c) : Shallow children n c := by
  induction hbelow with
  | refl => exact h
  | step _ hmem ih =>
    cases n with
    | zero => exact ih.elim
    | succ n => exact (ih _ hmem).mono (Nat.le_succ n)

theorem of_rank {rank : β → Nat} {bound : Nat} (hbound : ∀ b, rank b < bound)
    (hlt : ∀ b, ∀ c ∈ children b, rank b < rank c) (hn : bound ≤ rank b + n)
    : Shallow children n b := by
  induction n generalizing b with
  | zero =>
    have := hbound b
    omega
  | succ n ih =>
    intro c hc
    have := hlt b c hc
    exact ih (by omega)

theorem loopFree (h : Shallow children n b) : LoopFree children b := by
  intro c d hc hd hup
  replace h := h.descends hc
  -- a loop is as deep one edge further on
  induction n with
  | zero => exact h
  | succ n ih => exact ih ((h d hd).descends hup)

end Shallow

theorem LoopFree.shallow {children : β → List β} {n : Nat} {b : β} (h : LoopFree children b) (S : Finset β)
    (hS : ∀ c, Descends children b c → c ∈ S) (hcard : S.card ≤ n)
    : Shallow children n b := by
  classical
  induction n generalizing b S with
  | zero =>
    have hb := hS b .refl
    rw [Finset.card_eq_zero.mp (Nat.le_zero.mp hcard)] at hb
    exact absurd hb (Finset.notMem_empty b)
  | succ n ih =>
    intro c hc
    have hdown : ∀ {d}, Descends children c d → Descends children b d :=
      (Descends.refl.step hc).trans
    refine ih (fun d e hd => h d e (hdown hd)) (S.erase b) ?_ ?_
    . intro d hd
      refine Finset.mem_erase.mpr ⟨?_, hS d (hdown hd)⟩
      rintro rfl
      exact h d c .refl hc hd
    . rw [Finset.card_erase_of_mem (hS b .refl)]
      omega

namespace IsTree

variable {children : β → List β} {rank : β → Nat} {bound n : Nat} {root b c d e : β}

section

variable (h : IsTree children rank bound root) (hb : Descends children root b)

include h hb

theorem rank_le (hbelow : Descends children b c) : rank b ≤ rank c := by
  induction hbelow with
  | refl => exact Nat.le_refl _
  | step hbelow hmem ih => exact ih.trans (h.rank_lt _ _ (hb.trans hbelow) hmem).le

theorem not_descends_child (hd : d ∈ children b) : ¬ Descends children d b := by
  intro hup
  have hle := h.rank_le (hb.step hd) hup
  have hlt := h.rank_lt b d hb hd
  omega

theorem child_unique (hd : d ∈ children b) (he : e ∈ children b) (hdc : Descends children d c)
    (hec : Descends children e c)
    : d = e := by
  induction hdc with
  | refl =>
    cases hec with
    | refl => rfl
    | step hef hmem =>
      -- the parent of `d` is `b`
      have := h.parent _ _ _ ((hb.step he).trans hef) hb hmem hd
      subst this
      exact absurd hef (h.not_descends_child hb he)
  | step hdf hmem ih =>
    cases hec with
    | refl =>
      have := h.parent _ _ _ ((hb.step hd).trans hdf) hb hmem he
      subst this
      exact absurd hdf (h.not_descends_child hb hd)
    | step heg hmem' =>
      have := h.parent _ _ _ ((hb.step hd).trans hdf) ((hb.step he).trans heg) hmem hmem'
      subst this
      exact ih heg

theorem mem_preorder (hn : bound ≤ rank b + n)
    : c ∈ preorder children n b ↔ Descends children b c := by
  induction n generalizing b with
  | zero =>
    have := h.bounded b hb
    omega
  | succ n ih =>
    have hchild : ∀ d ∈ children b, (c ∈ preorder children n d ↔ Descends children d c) := by
      intro d hd
      have := h.rank_lt b d hb hd
      exact ih (hb.step hd) (by omega)
    simp only [preorder, List.mem_cons, List.mem_flatMap]
    constructor
    . rintro (rfl | ⟨d, hd, hc⟩)
      . exact .refl
      . exact (Descends.refl.step hd).trans ((hchild d hd).mp hc)
    . intro hbelow
      rcases hbelow.head with rfl | ⟨d, hd, hc⟩
      . exact .inl rfl
      . exact .inr ⟨d, hd, (hchild d hd).mpr hc⟩

theorem nodup_preorder (hn : bound ≤ rank b + n) : (preorder children n b).Nodup := by
  induction n generalizing b with
  | zero =>
    have := h.bounded b hb
    omega
  | succ n ih =>
    have hdepth : ∀ d ∈ children b, bound ≤ rank d + n := by
      intro d hd
      have := h.rank_lt b d hb hd
      omega
    simp only [preorder, List.nodup_cons, List.mem_flatMap, not_exists, not_and]
    refine ⟨?_, List.nodup_flatMap.mpr ⟨?_, ?_⟩⟩
    . intro d hd hmem
      rw [h.mem_preorder (hb.step hd) (hdepth d hd)] at hmem
      exact h.not_descends_child hb hd hmem
    . intro d hd
      exact ih (hb.step hd) (hdepth d hd)
    . refine (h.nodup b hb).imp_of_mem ?_
      intro d e hd he hne c hdc hec
      rw [h.mem_preorder (hb.step hd) (hdepth d hd)] at hdc
      rw [h.mem_preorder (hb.step he) (hdepth e he)] at hec
      exact hne (h.child_unique hb hd he hdc hec)

end

end IsTree

namespace Ranked

variable {children children' : β → List β} {b d : β}

theorem link (h : Ranked children) (hparent : ∀ a b c, c ∈ children a → c ∈ children b → a = b)
    (hroot : ∀ a, d ∉ children a) (hbelow : ¬ Descends children d b)
    (hnew : ∀ a, ∀ c ∈ children' a, c ∈ children a ∨ a = b ∧ c = d)
    : Ranked children' := by
  classical
  obtain ⟨rank, bound, hbound, hlt⟩ := h
  -- all that is below `d` moves down behind `b`
  refine ⟨fun a => if Descends children d a then rank a + rank b + 1 else rank a, bound + bound, ?_, ?_⟩
  . intro a
    have ha := hbound a
    have hb := hbound b
    dsimp only
    split <;> omega
  . intro a c hc
    dsimp only
    rcases hnew a c hc with hc | ⟨rfl, rfl⟩
    . have := hlt a c hc
      have hiff : Descends children d c ↔ Descends children d a := by
        constructor
        . intro hdc
          cases hdc with
          | refl => exact absurd hc (hroot a)
          | step hup hmem =>
            rw [hparent a _ c hc hmem]
            exact hup
        . intro hda
          exact hda.step hc
      rw [if_congr hiff rfl rfl]
      split <;> omega
    . rw [if_neg hbelow, if_pos .refl]
      omega

end Ranked
end Nyy
