import Mathlib.Tactic
import NyyKernel.Paging.Lemmas.Walk

namespace Nyy
namespace Paging

open Radix (descend find)

variable {σ : Type} {pmAllocateN : PmAllocate σ} {Ok : σ → Prop} {used : σ → Set Addr} {mem : PageMem}
  {cr3 v table : Addr} {m m' : Mmu σ} {flags : WalkFlags} {f : Fault} {path : List (BitVec 9)}
  {cfg : Config} {features : Features} {i : BitVec 9}

def pagePath (v : Addr) : List (BitVec 9) := [index v 3, index v 2, index v 1]

theorem slotPath_page (create : Bool) (v : Addr)
    : slotPath ⟨create, false, false⟩ v = pagePath v := by
  rfl

theorem same_slot_iff {w : Addr} (hv : Canonical v) (hw : Canonical w)
    : pagePath w = pagePath v ∧ index w 0 = index v 0 ↔ page w = page v := by
  constructor
  . rintro ⟨hpath, h0⟩
    simp only [pagePath, List.cons.injEq, and_true] at hpath
    obtain ⟨h3, h2, h1⟩ := hpath
    apply page_eq_of_index hw hv
    intro level hlevel
    interval_cases level
    . exact h0
    . exact h1
    . exact h2
    . exact h3
  . intro hpage
    unfold pagePath
    rw [index_eq_of_page hpage 3, index_eq_of_page hpage 2, index_eq_of_page hpage 1,
      index_eq_of_page hpage 0]
    exact ⟨rfl, rfl⟩

theorem clear_pagePath (h3 : find tableBelow mem cr3 isLarge [] (index v 3) = none)
    (h2 : find tableBelow mem cr3 isLarge [index v 3] (index v 2) = none)
    (h1 : find tableBelow mem cr3 isLarge [index v 3, index v 2] (index v 1) = none)
    : Clear mem cr3 (pagePath v) := by
  intro p i hp
  unfold pagePath at hp
  rcases p with _ | ⟨x, _ | ⟨y, _ | ⟨z, p⟩⟩⟩
  . simp only [List.nil_append, List.cons_prefix_cons, List.nil_prefix, and_true] at hp
    rw [hp]
    exact h3
  . simp only [List.cons_append, List.nil_append, List.cons_prefix_cons, List.nil_prefix,
      and_true] at hp
    rw [hp.1, hp.2]
    exact h2
  . simp only [List.cons_append, List.nil_append, List.cons_prefix_cons, List.nil_prefix,
      and_true] at hp
    rw [hp.1, hp.2.1, hp.2.2]
    exact h1
  . have hlen := hp.length_le
    simp at hlen
    omega

theorem hardwareWalk_of_clear (hclear : Clear mem cr3 (pagePath v))
    : hardwareWalk mem cr3 v
        =
      (find tableBelow mem cr3 present (pagePath v) (index v 0)).map Leaf.page4K := by
  have h2 := hclear [index v 3] (index v 2)
    (List.prefix_append [index v 3, index v 2] [index v 1])
  have h1 := hclear [index v 3, index v 2] (index v 1) (List.prefix_refl _)
  rw [hardwareWalk_eq, h2, h1]
  rfl

structure Remapped (pmAllocateN : PmAllocate σ) (used : σ → Set Addr) (cr3 v : Addr) (m m' : Mmu σ)
    (leaf : Option Leaf) : Prop where
  taken : Relation.ReflTransGen (Takes pmAllocateN) m.pm m'.pm
  sound : Sound m'.mem cr3 (used m'.pm)
  large : ∀ q j, q.length ≤ 2
    → find tableBelow m'.mem cr3 isLarge q j = find tableBelow m.mem cr3 isLarge q j
  here : ∀ w, page w = page v → hardwareWalk m'.mem cr3 w = leaf
  elsewhere : ∀ w, Canonical w → page w ≠ page v
    → hardwareWalk m'.mem cr3 w = hardwareWalk m.mem cr3 w

theorem pteNext_error (h : pteNext pmAllocateN m table i flags = .error f)
    : flags.createNew = true ∧ ∃ a, pmAllocateN a = .error f := by
  unfold pteNext at h
  split at h
  . cases h
  . split at h
    . cases h
    . next hc =>
      refine ⟨by simpa using hc, m.pm, ?_⟩
      unfold pmAllocateZeroed at h
      cases ha : pmAllocateN m.pm with
      | error f' =>
        rw [ha] at h
        cases h
        rfl
      | ok r =>
        rw [ha] at h
        cases h

theorem walkPath_error {t : Addr} (h : walkPath pmAllocateN flags m t path = .error f)
    : flags.createNew = true ∧ ∃ a, pmAllocateN a = .error f := by
  induction path generalizing m t with
  | nil => cases h
  | cons i path ih =>
    unfold walkPath at h
    cases hnext : pteNext pmAllocateN m t i flags with
    | error f' =>
      rw [hnext] at h
      cases h
      exact pteNext_error hnext
    | ok r =>
      obtain ⟨r, m₁⟩ := r
      rw [hnext, Except.ok_bind] at h
      cases r with
      | none => cases h
      | some t₁ => exact ih h

theorem walkPath_none {t : Addr} (h : walkPath pmAllocateN flags m t path = .ok (none, m'))
    : flags.createNew = false := by
  induction path generalizing m t with
  | nil => cases h
  | cons i path ih =>
    obtain ⟨⟨r, m₁⟩, hnext, h⟩ := Except.bind_eq_ok h
    cases pteNext_cases hnext with
    | there _ => exact ih h
    | missing _ hc => exact hc
    | made _ _ _ => exact ih h

theorem pteWalk_error (h : pteWalk pmAllocateN m cr3 v flags = .error f)
    : flags.createNew = true ∧ ∃ a, pmAllocateN a = .error f := by
  rw [pteWalk_eq] at h
  cases hpath : walkPath pmAllocateN flags m cr3 (slotPath flags v) with
  | error f' =>
    rw [hpath] at h
    cases h
    exact walkPath_error hpath
  | ok r =>
    rw [hpath] at h
    cases h

theorem mapEntry_error {entry : BitVec 64} (hcreate : flags.createNew = true)
    (h : mapEntry pmAllocateN m cr3 v flags entry = .error f)
    : ∃ a, pmAllocateN a = .error f := by
  unfold mapEntry at h
  cases hwalk : pteWalk pmAllocateN m cr3 v flags with
  | error f' =>
    rw [hwalk] at h
    cases h
    exact (pteWalk_error hwalk).2
  | ok r =>
    obtain ⟨r, m₁⟩ := r
    rw [hwalk, Except.ok_bind] at h
    cases r with
    | none =>
      rw [pteWalk_eq] at hwalk
      obtain ⟨⟨s, m₂⟩, hpath, heq⟩ := Except.map_eq_ok hwalk
      cases s with
      | none =>
        rw [walkPath_none hpath] at hcreate
        cases hcreate
      | some t => cases heq
    | some s => cases h

end Paging
end Nyy
