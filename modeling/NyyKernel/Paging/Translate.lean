import Mathlib.Tactic
import NyyKernel.Paging.Run

namespace Nyy
namespace Paging

open Radix (descend find)

variable {σ π : Type} {pmAllocateN : PmAllocate σ} {pmLookup : Addr → Option π} {m : Mmu σ} {cr3 v : Addr}

def Agrees (pmAllocateN : PmAllocate σ) (pmLookup : Addr → Option π) (m : Mmu σ) (cr3 v : Addr)
    : Prop :=
  ∃ paddr, vmPortTranslatePaddr pmAllocateN m cr3 v = .ok (paddr, m)
    ∧ (paddr = -1 ↔ hardwareWalk m.mem cr3 v = none)
    ∧ (∀ leaf, hardwareWalk m.mem cr3 v = some leaf → paddr = leaf.frame v)
    ∧ vmPortTranslate pmAllocateN pmLookup m cr3 v
        = .ok ((hardwareWalk m.mem cr3 v).bind (fun leaf => pmLookup (leaf.frame v)), m)

theorem pteNext_lookup {table : Addr} {i : BitVec 9} (h : isLarge (m.mem table i) = false)
    : pteNext pmAllocateN m table i ⟨false, false, false⟩
        =
      .ok (tableBelow (m.mem table i), m) := by
  unfold pteNext
  split
  . next hpres => rw [tableBelow_of_present hpres h]
  . next hpres => rw [tableBelow_of_not_present (by simpa using hpres)]; rfl

theorem walkPath_lookup {p path : List (BitVec 9)} {t : Addr} (hp : descend tableBelow m.mem cr3 p = some t)
    (hclear : Clear m.mem cr3 (p ++ path))
    : walkPath pmAllocateN ⟨false, false, false⟩ m t path
        =
      .ok (descend tableBelow m.mem cr3 (p ++ path), m) := by
  induction path generalizing p t with
  | nil => rw [List.append_nil, hp, walkPath]
  | cons i path ih =>
    have hpath : p ++ [i] <+: p ++ i :: path := by simp
    have hlarge := (find_isLarge_eq_none hp).mp (hclear p i hpath)
    have hd := Radix.descend_snoc_of i hp
    rw [walkPath, pteNext_lookup hlarge, Except.ok_bind, ← hd]
    cases hnext : descend tableBelow m.mem cr3 (p ++ [i]) with
    | none => rw [descend_none_of_isPrefix hpath hnext]
    | some t' =>
      rw [List.append_cons] at hclear ⊢
      exact ih hnext hclear

theorem pteWalk_lookup (hclear : Clear m.mem cr3 (pagePath v))
    : pteWalk pmAllocateN m cr3 v ⟨false, false, false⟩
        =
      .ok ((descend tableBelow m.mem cr3 (pagePath v)).map (·, index v 0), m) := by
  have hpath := @walkPath_lookup σ pmAllocateN m cr3 [] (pagePath v) cr3 Radix.descend_nil hclear
  rw [pteWalk_eq, slotPath_page, hpath]
  rfl

theorem and_pteAddress_ne (entry : BitVec 64) : entry &&& pteAddress ≠ -1 := by
  intro h
  have hbit : (entry &&& pteAddress).getLsbD 0 = true := by
    rw [h]
    decide
  have hzero : pteAddress.getLsbD 0 = false := by decide
  rw [BitVec.getLsbD_and, hzero, Bool.and_false] at hbit
  cases hbit

theorem vmPortTranslatePaddr_eq (hclear : Clear m.mem cr3 (pagePath v))
    : vmPortTranslatePaddr pmAllocateN m cr3 v
        =
      match descend tableBelow m.mem cr3 (pagePath v) with
      | none => .ok (-1, m)
      | some t => .ok (m.mem t (index v 0) &&& pteAddress, m) := by
  unfold vmPortTranslatePaddr
  rw [pteWalk_lookup hclear, Except.ok_bind]
  cases descend tableBelow m.mem cr3 (pagePath v) with
  | none => rfl
  | some t => rfl

theorem vmPortTranslate_of {paddr : Addr} (h : vmPortTranslatePaddr pmAllocateN m cr3 v = .ok (paddr, m))
    : vmPortTranslate pmAllocateN pmLookup m cr3 v
        =
      .ok (if paddr = -1 then none else pmLookup paddr, m) := by
  unfold vmPortTranslate
  rw [h, Except.ok_bind]
  dsimp only
  split
  . rfl
  . rfl

theorem translate_agrees_iff (hclear : Clear m.mem cr3 (pagePath v))
    : Agrees pmAllocateN pmLookup m cr3 v
        ↔
      ∀ t, descend tableBelow m.mem cr3 (pagePath v) = some t
        → present (m.mem t (index v 0)) = true := by
  have hwalk := hardwareWalk_of_clear hclear
  have hsoft : vmPortTranslatePaddr pmAllocateN m cr3 v = _ := vmPortTranslatePaddr_eq hclear
  cases hd : descend tableBelow m.mem cr3 (pagePath v) with
  | none =>
    rw [Radix.find_none _ hd] at hwalk
    rw [hd] at hsoft
    constructor
    . intro _ t ht
      cases ht
    . intro _
      refine ⟨-1, hsoft, ?_, ?_, ?_⟩
      . rw [hwalk]
        simp
      . intro leaf hleaf
        rw [hwalk] at hleaf
        cases hleaf
      . rw [vmPortTranslate_of hsoft, hwalk]
        rfl
  | some t =>
    rw [Radix.find_of _ hd] at hwalk
    rw [hd] at hsoft
    dsimp only at hsoft
    have hne := and_pteAddress_ne (m.mem t (index v 0))
    constructor
    . rintro ⟨paddr, hpaddr, hiff, _⟩ t' ht'
      cases ht'
      rw [hsoft] at hpaddr
      cases hpaddr
      by_contra hpres
      rw [Option.filter_some_neg (by simpa using hpres)] at hwalk
      exact hne (hiff.mpr hwalk)
    . intro hpres
      rw [Option.filter_some_pos (hpres t rfl)] at hwalk
      refine ⟨_, hsoft, ?_, ?_, ?_⟩
      . rw [hwalk]
        constructor
        . intro heq
          exact absurd heq hne
        . intro hnone
          cases hnone
      . intro leaf hleaf
        rw [hwalk] at hleaf
        cases hleaf
        rfl
      . rw [vmPortTranslate_of hsoft, hwalk, if_neg hne]
        rfl

def unmapOps : List PageOp :=
  [.map 0x5000 0xFFFFE00000000000 .writethrough kVmAll, .unmap 0xFFFFE00000000000 0]

theorem unmapped_page_translated
    : ∃ m m', vmPortInitMap bumpPage ⟨fun _ _ => 0, 1⟩ = .ok (0x1000, m)
      ∧ runOps bumpPage ⟨false⟩ ⟨true, true, true⟩ 0x1000 m unmapOps = .ok m'
      ∧ Canonical 0xFFFFE00000000000
      ∧ hardwareWalk m'.mem 0x1000 0xFFFFE00000000000 = none
      ∧ vmPortTranslatePaddr bumpPage m' 0x1000 0xFFFFE00000000000 = .ok (0, m')
      ∧ ¬ Agrees bumpPage (fun paddr => some paddr) m' 0x1000 0xFFFFE00000000000 := by
  refine ⟨_, _, rfl, rfl, by decide, rfl, rfl, ?_⟩
  rintro ⟨paddr, hsoft, hiff, _⟩
  have heq : paddr = 0 := congrArg Prod.fst (Except.ok.inj hsoft).symm
  have hminus : paddr = -1 := hiff.mpr rfl
  rw [heq] at hminus
  exact absurd hminus (by decide)

-- Inside a page of 2 MiB the software reads the page itself as a table.
example
    : ((vmPortMap bumpPage ⟨false⟩ ⟨true, true, true⟩ ⟨fun _ _ => 0, 2⟩ 0x1000 0x40000000
        0xFFFF800040000000 .writeback (kVmAll ||| kVmHuge2MB)).toOption.map (fun m =>
          ((hardwareWalk m.mem 0x1000 0xFFFF800040003000).map (Leaf.frame 0xFFFF800040003000),
            (vmPortTranslatePaddr bumpPage m 0x1000 0xFFFF800040003000).toOption.map Prod.fst)))
      = some (some 0x40003000, some 0) := by
  rfl

theorem translate_agrees_iff_sample
    : ∃ m m', vmPortInitMap bumpPage ⟨fun _ _ => 0, 1⟩ = .ok (0x1000, m)
      ∧ runOps bumpPage ⟨false⟩ ⟨true, true, true⟩ 0x1000 m sampleOps = .ok m'
      ∧ Agrees bumpPage (fun paddr => some paddr) m' 0x1000 0xFFFFE00000000123 := by
  obtain ⟨m', hrun⟩ := sampleOps_run
  obtain ⟨_, href⟩ := firstMap_refines.run pageSource_bumpPage (by decide) (by decide) hrun
  refine ⟨firstMap, m', firstMap_init, hrun, (translate_agrees_iff (href.clear _)).mpr ?_⟩
  intro t ht
  cases hrun
  cases ht
  rfl

end Paging
end Nyy
