import NyyKernel.Paging.Emulate

namespace Nyy
namespace Paging

open Radix (descend find)

variable {σ : Type} {pmAllocateN : PmAllocate σ} {Ok : σ → Prop} {used : σ → Set Addr} {cr3 v paddr : Addr}
  {m m₁ : Mmu σ} {cfg : Config} {features : Features} {cache : CacheMode} {flags : BitVec 64}
  {size : PageSize} {mem : PageMem}

def Undone (pmAllocateN : PmAllocate σ) (cfg : Config) (features : Features) (m m₁ : Mmu σ) (cr3 v : Addr)
    (flags : BitVec 64) : Prop :=
  ∃ m₂, vmPortUnmap pmAllocateN cfg features m₁ cr3 v flags = .ok m₂
    ∧ (∀ w, Canonical w → InPage (pageSizeOf flags) v w → hardwareWalk m₂.mem cr3 w = none)
    ∧ (∀ w, Canonical w → ¬ InPage (pageSizeOf flags) v w
        → hardwareWalk m₂.mem cr3 w = hardwareWalk m.mem cr3 w)

structure Supported (features : Features) (mem : PageMem) (cr3 : Addr) : Prop where
  root : ∀ i, isLarge (mem cr3 i) = false
  gib1 : features.gbpages = false → ∀ i j, find tableBelow mem cr3 isLarge [i] j = none

def NotInside (mem : PageMem) (cr3 v : Addr) (size : PageSize) : Prop :=
  ∀ leaf, hardwareWalk mem cr3 v = some leaf → leaf.size.bytes ≤ size.bytes

theorem NotInside.clear (h : NotInside m.mem cr3 v size) (hroot : ∀ i, isLarge (m.mem cr3 i) = false)
    : Clear m.mem cr3 (slotPath size.flags v) := by
  unfold NotInside at h
  rw [hardwareWalk_eq] at h
  have hgib : size ≠ .gib1 → find tableBelow m.mem cr3 isLarge [index v 3] (index v 2) = none := by
    intro hsize
    cases hfind : find tableBelow m.mem cr3 isLarge [index v 3] (index v 2) with
    | none => rfl
    | some e =>
      rw [hfind] at h
      have hle : PageSize.gib1.bytes ≤ size.bytes := h (.page1G e) rfl
      exfalso
      revert hsize hle
      cases size <;> decide
  cases size with
  | gib1 => exact clear_gib1 hroot
  | mib2 => exact clear_mib2 hroot (hgib (by decide))
  | kib4 =>
    have hgib := hgib (by decide)
    apply clear_pagePath ((find_isLarge_eq_none Radix.descend_nil).mpr (hroot _)) hgib
    cases hfind : find tableBelow m.mem cr3 isLarge [index v 3, index v 2] (index v 1) with
    | none => rfl
    | some e =>
      rw [hgib, hfind] at h
      have hle : PageSize.mib2.bytes ≤ PageSize.kib4.bytes := h (.page2M e) rfl
      exact absurd hle (by decide)

theorem unmapFlags_of (hflags : Accepted flags)
    (hallowed : Emulated features flags → cfg.disableAsserts = true)
    : unmapFlags cfg features flags = .ok (pageSizeOf flags).lookup := by
  unfold Emulated at hallowed
  unfold unmapFlags
  unfold pageSizeOf at hallowed ⊢
  by_cases hhuge : flags &&& kVmHuge = 0
  . simp only [if_pos hhuge]
    rfl
  . simp only [if_neg hhuge] at hallowed ⊢
    rcases hflags.resolve_left hhuge with hshift | hshift
    . have hne : flags >>> kVmHugeShift ≠ 12 := by
        rw [hshift]
        decide
      simp only [if_neg hne, if_pos hshift]
      rfl
    . have hne : flags >>> kVmHugeShift ≠ 12 := by
        rw [hshift]
        decide
      have hne' : flags >>> kVmHugeShift ≠ 21 := by
        rw [hshift]
        decide
      simp only [if_neg hne, if_neg hne', if_pos hshift] at hallowed ⊢
      have hcheck : check cfg features.gbpages = .ok () := by
        unfold check
        rw [if_pos]
        cases hgb : features.gbpages with
        | true => rw [Bool.or_true]
        | false => rw [hallowed ⟨trivial, hgb⟩, Bool.true_or]
      rw [hcheck]
      rfl

theorem unmapFlags_emulated (hemulated : Emulated features flags) (hcfg : cfg.disableAsserts = false)
    : unmapFlags cfg features flags = .error .assertion := by
  obtain ⟨hsize, hgb⟩ := hemulated
  obtain ⟨hhuge, hshift⟩ := pageSizeOf_eq_gib1 hsize
  unfold unmapFlags check
  rw [if_neg hhuge, if_neg (by rw [hshift]; decide), if_neg (by rw [hshift]; decide), if_pos hshift,
    hcfg, hgb]
  rfl

theorem undone_of (hsrc : PageSource pmAllocateN Ok used) (hok : Ok m.pm)
    (hsound : Sound m.mem cr3 (used m.pm)) (hsupported : Supported features m.mem cr3)
    (hflags : Accepted flags) (hcanonical : Canonical v)
    (hpaddr : paddr.toNat % (pageSizeOf flags).bytes = 0) (hv : v.toNat % (pageSizeOf flags).bytes = 0)
    (hmap : vmPortMap pmAllocateN cfg features m cr3 paddr v cache flags = .ok m₁)
    (hinside : NotInside m.mem cr3 v (pageSizeOf flags))
    (hallowed : Emulated features flags → cfg.disableAsserts = true)
    : Undone pmAllocateN cfg features m m₁ cr3 v flags := by
  have hclear := hinside.clear hsupported.root
  have hleaf : Clear m.mem cr3 (slotPath (leafSize features flags).flags v) := by
    unfold leafSize
    split
    . next hemulated => exact clear_mib2 hsupported.root (hsupported.gib1 hemulated.2 _ _)
    . exact hclear
  have hall := vmPortMap_placed hsrc hok hsound hflags hpaddr hv hleaf hmap
  have hclear₁ := hall.outside.clear (slotPath_length ..) (slot_not_isPrefix _ _) hclear
  obtain ⟨m₂, hunmap⟩ := vmPortUnmap_returns (unmapFlags_of hflags hallowed) rfl
  have hplaced := (vmPortUnmap_placed hsrc (hsrc.ok_of_taken hok hall.taken) hall.sound hclear₁ hunmap).1
  refine ⟨m₂, hunmap, ?_, ?_⟩
  . intro w hw hin
    exact hplaced.here w ((slot_eq_iff hcanonical hw).mpr hin).symm
  . intro w hw hout
    exact (hall.outside.trans hplaced.outside).hardwareWalk
      (fun hpre => hout (inPage_of_path hcanonical hw hpre))

theorem exists_neighbour {larger : PageSize} (hcanonical : Canonical v) (hv : v.toNat % size.bytes = 0)
    (hlt : size.bytes < larger.bytes)
    : ∃ w, Canonical w ∧ InPage larger v w ∧ ¬ InPage size v w := by
  have hcanonical := (canonical_iff v).mp hcanonical
  have hbound := v.isLt
  -- the page of the same size next to this one, in the same block of two
  obtain ⟨x, hlt64, hcanonical', hsame, hother⟩ : ∃ x, x < 2 ^ 64
      ∧ (x < 2 ^ 47 ∨ 2 ^ 64 - 2 ^ 47 ≤ x)
      ∧ v.toNat / larger.bytes = x / larger.bytes ∧ v.toNat / size.bytes ≠ x / size.bytes := by
    revert hlt hv
    generalize v.toNat = n at hcanonical hbound ⊢
    cases size <;> cases larger <;> simp only [PageSize.bytes, PageSize.level] <;> intro hv hlt
    . omega
    . by_cases heven : n / 2 ^ 12 % 2 = 0
      . exact ⟨n + 2 ^ 12, by omega⟩
      . exact ⟨n - 2 ^ 12, by omega⟩
    . by_cases heven : n / 2 ^ 12 % 2 = 0
      . exact ⟨n + 2 ^ 12, by omega⟩
      . exact ⟨n - 2 ^ 12, by omega⟩
    . omega
    . omega
    . by_cases heven : n / 2 ^ 21 % 2 = 0
      . exact ⟨n + 2 ^ 21, by omega⟩
      . exact ⟨n - 2 ^ 21, by omega⟩
    . omega
    . omega
    . omega
  have htoNat : (BitVec.ofNat 64 x).toNat = x := by
    rw [BitVec.toNat_ofNat, Nat.mod_eq_of_lt hlt64]
  refine ⟨BitVec.ofNat 64 x, ?_, ?_, ?_⟩
  . rw [canonical_iff, htoNat]
    exact hcanonical'
  . unfold InPage
    rw [htoNat]
    exact hsame
  . unfold InPage
    rw [htoNat]
    exact hother

theorem unmap_undoes_iff (hsrc : PageSource pmAllocateN Ok used) (hok : Ok m.pm)
    (hsound : Sound m.mem cr3 (used m.pm)) (hsupported : Supported features m.mem cr3)
    (hflags : Accepted flags) (hcanonical : Canonical v)
    (hpaddr : paddr.toNat % (pageSizeOf flags).bytes = 0) (hv : v.toNat % (pageSizeOf flags).bytes = 0)
    : (∀ f, vmPortMap pmAllocateN cfg features m cr3 paddr v cache flags = .error f
        → ∃ a, pmAllocateN a = .error f)
      ∧ ∀ m₁, vmPortMap pmAllocateN cfg features m cr3 paddr v cache flags = .ok m₁
        → (Undone pmAllocateN cfg features m m₁ cr3 v flags
            ↔ NotInside m.mem cr3 v (pageSizeOf flags)
              ∧ (Emulated features flags → cfg.disableAsserts = true)) := by
  refine ⟨fun f h => vmPortMap_error hflags hpaddr h, ?_⟩
  intro m₁ hmap
  constructor
  . rintro ⟨m₂, hunmap, hin, hout⟩
    constructor
    . intro leaf hleaf
      by_contra hlarger
      obtain ⟨w, hw, hsame, hother⟩ := exists_neighbour hcanonical hv (Nat.lt_of_not_le hlarger)
      have hslot := (slot_eq_iff hcanonical hw).mpr hsame
      have hwalk : hardwareWalk m₂.mem cr3 w = some leaf := by
        rw [hout w hw hother]
        exact hardwareWalk_of_slot hleaf hslot.symm
      have := hardwareWalk_of_slot hwalk hslot
      rw [hin v hcanonical rfl] at this
      cases this
    . intro hemulated
      by_contra hcfg
      unfold vmPortUnmap at hunmap
      rw [unmapFlags_emulated hemulated (by simpa using hcfg)] at hunmap
      cases hunmap
  . rintro ⟨hinside, hallowed⟩
    exact undone_of hsrc hok hsound hsupported hflags hcanonical hpaddr hv hmap hinside hallowed

theorem supported_of_blank (h : ∀ j, mem cr3 j = 0) : Supported features mem cr3 := by
  constructor
  . intro i
    rw [h, isLarge_zero]
  . intro _ i j
    apply Radix.find_none
    simp only [descend, h, tableBelow_zero]

theorem unmap_undoes_iff_large
    : ∃ m m₁, vmPortInitMap bumpPage ⟨fun _ _ => 0, 1⟩ = .ok (0x1000, m)
      ∧ vmPortMap bumpPage ⟨false⟩ sampleFeatures m 0x1000 0x40000000 0xFFFF800080000000 .writeback
          (kVmAll ||| kVmHuge2MB) = .ok m₁
      ∧ Undone bumpPage ⟨false⟩ sampleFeatures m m₁ 0x1000 0xFFFF800080000000
          (kVmAll ||| kVmHuge2MB) := by
  obtain ⟨m₁, hmap⟩ : ∃ m₁, vmPortMap bumpPage ⟨false⟩ sampleFeatures firstMap 0x1000 0x40000000
      0xFFFF800080000000 .writeback (kVmAll ||| kVmHuge2MB) = .ok m₁ := ⟨_, rfl⟩
  have hsupported : Supported sampleFeatures firstMap.mem 0x1000 := supported_of_blank fun _ => rfl
  refine ⟨firstMap, m₁, firstMap_init, hmap, ?_⟩
  refine ((unmap_undoes_iff pageSource_bumpPage (by decide) firstMap_refines.sound hsupported
    (by decide) (by decide) (by decide) (by decide)).2 m₁ hmap).mpr ⟨?_, by decide⟩
  intro leaf hleaf
  rw [firstMap_refines.walk _ (by decide)] at hleaf
  cases hleaf

theorem mapping_not_undone
    : (∀ m₁ : Mmu Nat, vmPortUnmap bumpPage ⟨false⟩ ⟨false, true, true⟩ m₁ 0x1000 0xFFFF800080000000
          (kVmAll ||| kVmHuge1GB) = .error .assertion)
      ∧ ((do
            let m ← vmPortMap bumpPage ⟨false⟩ sampleFeatures ⟨fun _ _ => 0, 2⟩ 0x1000 0x40000000
              0xFFFF800080000000 .writeback (kVmAll ||| kVmHuge2MB)
            let m ← vmPortMap bumpPage ⟨false⟩ sampleFeatures m 0x1000 0x5000 0xFFFF800080003000
              .writeback kVmAll
            vmPortUnmap bumpPage ⟨false⟩ sampleFeatures m 0x1000 0xFFFF800080003000 kVmAll).map
          (fun m : Mmu Nat => hardwareWalk m.mem 0x1000 0xFFFF800080003000))
        = .ok (some (.page2M 0x8000000040000083)) := by
  refine ⟨fun m₁ => rfl, ?_⟩
  decide

end Paging
end Nyy
