import NyyKernel.Kmem.Arena
import NyyKernel.Kmem.Pages
import NyyKernel.Paging.Run
import NyyKernel.Pci.Access

/-!
This module contains `port_pci_init`, which maps the configuration space that the MCFG table
describes.
-/

namespace Nyy
namespace Pci

open Paging

-- MCFG_MAPPING_SIZE(end_bus - start_bus), a `long` that becomes a `size_t`
def mcfgMappingSize (entry : McfgEntry) : Nat :=
  (4096 * 8 * 32 * ((entry.endBus.val : Int) - entry.startBus.val) % 2 ^ 64).toNat

structure Mapping where
  entry : McfgEntry
  virt : Nat

namespace Mapping

variable (x : Mapping)

def mapsz : Nat := mcfgMappingSize x.entry

def poff : Nat := x.entry.address % 4096

def phys : Nat := Word.alignDown x.entry.address 4096

def ops : List PageOp :=
  (List.range (Word.alignUp (Word.add x.mapsz x.poff) 4096 / 4096)).map fun i =>
    .map (BitVec.ofNat 64 (x.phys + i * 4096)) (BitVec.ofNat 64 (x.virt + i * 4096)) .uncached
      (kVmRead ||| kVmWrite)

def mapped : McfgEntry := { x.entry with address := Word.add x.virt x.poff }

end Mapping

section Init

variable {α σ : Type} (vmMapAllocate : α → Nat → Except Fault (Nat × α)) (Ok : α → Prop)
  (pmAllocateN : PmAllocate σ) (cfg : Config) (features : Features) (cr3 : Addr)

def portPciInit : α → Mmu σ → List McfgEntry → Except Fault (List Mapping × α × Mmu σ)
  | a, m, [] => .ok ([], a, m)
  | a, m, entry :: entries => do
    let (virt, a) ← vmMapAllocate a (mcfgMappingSize entry)
    let m ← runOps pmAllocateN cfg features cr3 m (Mapping.ops ⟨entry, virt⟩)
    let (rest, a, m) ← portPciInit a m entries
    return (⟨entry, virt⟩ :: rest, a, m)

def Allocates : Prop :=
  ∀ a n virt a', Ok a → 4096 ∣ n → n < 2 ^ 64 → vmMapAllocate a n = .ok (virt, a') →
    Ok a' ∧ virt % 4096 = 0 ∧ virt + n < 2 ^ 64

theorem mcfgMappingSize_pages (entry : McfgEntry)
    : 4096 ∣ mcfgMappingSize entry ∧ mcfgMappingSize entry < 2 ^ 64 := by
  unfold mcfgMappingSize
  omega

variable {vmMapAllocate Ok pmAllocateN cfg features cr3} {entries : List McfgEntry} {a a' : α} {m m' : Mmu σ}
  {maps : List Mapping}

theorem portPciInit_eq_ok (halloc : Allocates vmMapAllocate Ok) (hok : Ok a)
    (hrun : portPciInit vmMapAllocate pmAllocateN cfg features cr3 a m entries = .ok (maps, a', m'))
    : maps.map Mapping.entry = entries ∧
        runOps pmAllocateN cfg features cr3 m (maps.flatMap Mapping.ops) = .ok m' ∧
        ∀ x ∈ maps, x.virt % 4096 = 0 ∧ x.virt + x.mapsz < 2 ^ 64 := by
  induction entries generalizing a m maps with
  | nil =>
    cases hrun
    exact ⟨rfl, rfl, by simp⟩
  | cons entry entries ih =>
    unfold portPciInit at hrun
    rcases Except.bind_eq_ok hrun with ⟨⟨virt, a1⟩, hvirt, hrun⟩
    rcases Except.bind_eq_ok hrun with ⟨m1, hops, hrun⟩
    rcases Except.bind_eq_ok hrun with ⟨⟨rest, a2, m2⟩, hrest, hret⟩
    cases hret
    rcases mcfgMappingSize_pages entry with ⟨hdvd, hlt⟩
    rcases halloc _ _ _ _ hok hdvd hlt hvirt with ⟨hok, hfit⟩
    rcases ih hok hrest with ⟨hentries, hruns, hfits⟩
    refine ⟨by simp [hentries], ?_, ?_⟩
    . rw [List.flatMap_cons]
      unfold runOps at hops hruns ⊢
      rw [List.foldlM_append, hops]
      exact hruns
    . intro x hx
      rcases List.mem_cons.mp hx with rfl | hx
      . exact hfit
      . exact hfits x hx

end Init

section Access

variable {x : Mapping} {bus slot function offset : Nat}

namespace Mapping

def place (x : Mapping) (bus slot function : Nat) : Nat :=
  (bus - x.entry.startBus.val) * 2 ^ 20 + slot * 2 ^ 15 + function * 2 ^ 12

structure Lands (x : Mapping) (bus : Nat) : Prop where
  size : x.mapsz ≠ 0
  address : ∀ slot < 32, ∀ function < 8, ∀ offset < 4096, mcfgAddress bus slot function offset x.mapped =
    x.mapped.address + (x.place bus slot function + offset / 4 * 4)
  inside : ∀ slot < 32, ∀ function < 8, ∀ offset < 4096,
    x.virt ≤ mcfgAddress bus slot function offset x.mapped ∧
      mcfgAddress bus slot function offset x.mapped < x.virt + x.mapsz
  page : ∀ slot < 32, ∀ function < 8, ∀ offset < 4096, ∃ op ∈ x.ops,
    page op.vaddr = page (BitVec.ofNat 64 (mcfgAddress bus slot function offset x.mapped)) ∧
      op.frame = some (BitVec.ofNat 64
        ((x.entry.address + x.place bus slot function + offset / 4 * 4) / 4096 * 4096))
  bounded : ∀ op ∈ x.ops, x.virt ≤ op.vaddr.toNat ∧ op.vaddr.toNat + 4096 ≤ x.virt + x.mapsz

theorem mapsz_eq (hle : x.entry.startBus ≤ x.entry.endBus)
    : x.mapsz = (x.entry.endBus.val - x.entry.startBus.val) * 2 ^ 20 := by
  have hle : x.entry.startBus.val ≤ x.entry.endBus.val := hle
  unfold mapsz mcfgMappingSize
  omega

theorem mem_ops (hle : x.entry.startBus ≤ x.entry.endBus) {op : PageOp}
    : op ∈ x.ops ↔ ∃ i < (x.mapsz + x.poff + 4095) / 4096, op = .map (BitVec.ofNat 64 (x.phys + i * 4096))
        (BitVec.ofNat 64 (x.virt + i * 4096)) .uncached (kVmRead ||| kVmWrite) := by
  have hsize := mapsz_eq hle
  have hpoff : x.poff < 4096 := Nat.mod_lt _ (by decide)
  have hcount : Word.alignUp (Word.add x.mapsz x.poff) 4096 / 4096 = (x.mapsz + x.poff + 4095) / 4096 := by
    rw [Word.add_eq (by omega), show 4096 = 2 ^ 12 from rfl, Word.alignUp_two_pow (by omega) (by decide)]
    omega
  unfold ops
  rw [hcount]
  simp only [List.mem_map, List.mem_range]
  grind

theorem page_ofNat {a : Nat} {v : Addr} (ha : a < 2 ^ 64)
    : page (BitVec.ofNat 64 a) = page v ↔ a / 4096 = v.toNat / 4096 := by
  unfold Paging.page
  rw [← BitVec.toNat_inj, BitVec.toNat_ushiftRight, BitVec.toNat_ushiftRight, BitVec.toNat_ofNat,
    Nat.mod_eq_of_lt ha, Nat.shiftRight_eq_div_pow, Nat.shiftRight_eq_div_pow]

theorem lands_iff (hle : x.entry.startBus ≤ x.entry.endBus) (haddr : x.entry.address < 2 ^ 64)
    (hvirt : x.virt % 4096 = 0) (hfits : x.virt + x.mapsz < 2 ^ 64)
    (hbus : x.entry.startBus.val ≤ bus ∧ bus ≤ x.entry.endBus.val)
    : x.Lands bus ↔ bus < x.entry.endBus.val ∧ x.entry.address % 4096 = 0 := by
  have hsize := mapsz_eq hle
  have hend := x.entry.endBus.isLt
  have hpoff : x.poff < 4096 := Nat.mod_lt _ (by decide)
  have hbase : x.mapped.address = x.virt + x.poff := Word.add_eq (by omega)
  constructor
  . intro h
    constructor
    . -- the last bus would start where the range ends
      have haddress := h.address 0 (by decide) 0 (by decide) 0 (by decide)
      have hinside := (h.inside 0 (by decide) 0 (by decide) 0 (by decide)).2
      rw [haddress, hbase] at hinside
      unfold place at hinside
      by_contra hlast
      have hd : bus - x.entry.startBus.val = x.entry.endBus.val - x.entry.startBus.val := by omega
      rw [hd] at hinside
      omega
    . -- with an offset into its first page the entry takes one page more than it has
      by_contra hne
      have hpos : 0 < x.poff := Nat.pos_of_ne_zero hne
      have hlast := (h.bounded _ ((mem_ops hle).mpr ⟨x.mapsz / 4096, by omega, rfl⟩)).2
      simp only [PageOp.vaddr, BitVec.toNat_ofNat] at hlast
      omega
  . rintro ⟨hlt, hzero⟩
    have hpoff : x.poff = 0 := hzero
    rw [hpoff, Nat.add_zero] at hbase
    have hphys : x.phys = x.entry.address := by
      unfold phys
      rw [show 4096 = 2 ^ 12 from rfl, Word.alignDown_two_pow haddr (by decide)]
      omega
    have hplace : ∀ slot < 32, ∀ function < 8, x.place bus slot function + 4096 ≤ x.mapsz ∧
        x.place bus slot function % 4096 = 0 := by
      intro slot hslot function hfunction
      unfold place
      omega
    have haddress : ∀ slot < 32, ∀ function < 8, ∀ offset < 4096,
        mcfgAddress bus slot function offset x.mapped =
          x.virt + (x.place bus slot function + offset / 4 * 4) := by
      intro slot hslot function hfunction offset hoffset
      have := hplace slot hslot function hfunction
      rw [mcfgAddress_eq (e := x.mapped) (by show bus - x.entry.startBus.val < 256; omega)
        (by omega) hslot hfunction hoffset, hbase]
      show Word.add x.virt (x.place bus slot function) + _ = _
      rw [Word.add_eq (by omega)]
      omega
    refine ⟨by omega, ?_, ?_, ?_, ?_⟩
    . intro slot hslot function hfunction offset hoffset
      rw [hbase]
      exact haddress slot hslot function hfunction offset hoffset
    . intro slot hslot function hfunction offset hoffset
      have := hplace slot hslot function hfunction
      rw [haddress slot hslot function hfunction offset hoffset]
      omega
    . intro slot hslot function hfunction offset hoffset
      have := hplace slot hslot function hfunction
      rw [haddress slot hslot function hfunction offset hoffset]
      refine ⟨_, (mem_ops hle).mpr ⟨x.place bus slot function / 4096, by omega, rfl⟩, ?_, ?_⟩
      . rw [PageOp.vaddr, page_ofNat (by omega), BitVec.toNat_ofNat]
        omega
      . simp only [PageOp.frame, hphys]
        congr 2
        omega
    . intro op hop
      rcases (mem_ops hle).mp hop with ⟨i, hi, rfl⟩
      simp only [PageOp.vaddr, BitVec.toNat_ofNat]
      omega

end Mapping
end Access

section Table

variable {maps : List Mapping}

def Apart (x y : Mapping) : Prop := x.virt + x.mapsz ≤ y.virt ∨ y.virt + y.mapsz ≤ x.virt

def finalMap (maps : List Mapping) : PageMap :=
  (maps.flatMap Mapping.ops).foldl PageMap.apply fun _ => none

theorem lastOn_of_unique {ops : List PageOp} {op : PageOp} {v : Addr} (hop : op ∈ ops)
    (hv : page op.vaddr = page v) (hunique : ∀ op' ∈ ops, page op'.vaddr = page v → op' = op)
    : lastOn ops v = some op := by
  unfold lastOn
  cases h : (ops.filter fun op => page op.vaddr == page v).getLast? with
  | none =>
    rw [List.getLast?_eq_none_iff, List.filter_eq_nil_iff] at h
    exact absurd hv (by simpa using h op hop)
  | some op' =>
    have hmem := List.mem_of_getLast? h
    simp only [List.mem_filter, beq_iff_eq] at hmem
    rw [hunique op' hmem.1 hmem.2]

theorem finalMap_eq (hle : ∀ x ∈ maps, x.entry.startBus ≤ x.entry.endBus)
    (hvirt : ∀ x ∈ maps, x.virt % 4096 = 0 ∧ x.virt + x.mapsz < 2 ^ 64)
    (halign : ∀ x ∈ maps, x.entry.address % 4096 = 0) (hapart : maps.Pairwise Apart)
    : (∀ x ∈ maps, ∀ op ∈ x.ops, finalMap maps (page op.vaddr) = op.frame) ∧
        ∀ v, finalMap maps (page v) ≠ none →
          ∃ x ∈ maps, x.virt ≤ v.toNat ∧ v.toNat < x.virt + x.mapsz := by
  have hop : ∀ x ∈ maps, ∀ op ∈ x.ops, ∃ i, i * 4096 + 4096 ≤ x.mapsz ∧
      op = .map (BitVec.ofNat 64 (x.phys + i * 4096)) (BitVec.ofNat 64 (x.virt + i * 4096)) .uncached
        (kVmRead ||| kVmWrite) := by
    intro x hx op hop
    rcases (Mapping.mem_ops (hle x hx)).mp hop with ⟨i, hi, rfl⟩
    have hpoff : x.poff = 0 := halign x hx
    have hsize := Mapping.mapsz_eq (hle x hx)
    exact ⟨i, by omega, rfl⟩
  constructor
  . intro x hx op hmem
    rw [finalMap, foldl_apply, lastOn_of_unique (List.mem_flatMap.mpr ⟨x, hx, hmem⟩) rfl]
    . rfl
    . intro op' hmem' hpage
      rcases List.mem_flatMap.mp hmem' with ⟨y, hy, hmem'⟩
      rcases hop x hx op hmem with ⟨i, hi, rfl⟩
      rcases hop y hy op' hmem' with ⟨j, hj, rfl⟩
      have hfits := hvirt x hx
      have hfits' := hvirt y hy
      rw [PageOp.vaddr, PageOp.vaddr, Mapping.page_ofNat (by omega), BitVec.toNat_ofNat] at hpage
      by_cases hxy : x = y
      . subst hxy
        rw [show j = i by omega]
      . have hsymm : Std.Symm Apart := ⟨fun _ _ => Or.symm⟩
        have := hapart.forall hx hy hxy
        unfold Apart at this
        omega
  . intro v hne
    rw [finalMap, foldl_apply] at hne
    cases hlast : lastOn (maps.flatMap Mapping.ops) v with
    | none =>
      rw [hlast] at hne
      exact absurd rfl hne
    | some op =>
      have hmem := List.mem_of_getLast? hlast
      simp only [List.mem_filter, beq_iff_eq] at hmem
      rcases List.mem_flatMap.mp hmem.1 with ⟨x, hx, hmemx⟩
      rcases hop x hx op hmemx with ⟨i, hi, rfl⟩
      have hfits := hvirt x hx
      have hpage := hmem.2
      rw [PageOp.vaddr, Mapping.page_ofNat (by omega)] at hpage
      exact ⟨x, hx, by omega, by omega⟩

theorem mcfg_access_lands {α σ : Type} {vmMapAllocate : α → Nat → Except Fault (Nat × α)}
    {pmAllocateN : PmAllocate σ} {cfg : Config} {features : Features} {cr3 : Addr}
    {entries : List McfgEntry} {Ok : α → Prop} {a a' : α} {m m' : Mmu σ}
    (halloc : Allocates vmMapAllocate Ok) (hok : Ok a)
    (hentries : ∀ e ∈ entries, e.startBus ≤ e.endBus ∧ e.address < 2 ^ 64)
    (hrun : portPciInit vmMapAllocate pmAllocateN cfg features cr3 a m entries = .ok (maps, a', m'))
    : maps.map Mapping.entry = entries ∧
        runOps pmAllocateN cfg features cr3 m (maps.flatMap Mapping.ops) = .ok m' ∧
        (∀ segment bus e, mcfgBus (maps.map Mapping.mapped) segment bus = some e →
          ∃ x ∈ maps, x.mapped = e ∧
            (x.Lands bus ↔ bus < x.entry.endBus.val ∧ x.entry.address % 4096 = 0)) ∧
        ((∀ x ∈ maps, x.entry.address % 4096 = 0) → maps.Pairwise Apart →
          (∀ x ∈ maps, ∀ op ∈ x.ops, finalMap maps (page op.vaddr) = op.frame) ∧
            ∀ v, finalMap maps (page v) ≠ none →
              ∃ x ∈ maps, x.virt ≤ v.toNat ∧ v.toNat < x.virt + x.mapsz) := by
  rcases portPciInit_eq_ok halloc hok hrun with ⟨hmaps, hops, hfits⟩
  have hentry : ∀ x ∈ maps, x.entry.startBus ≤ x.entry.endBus ∧ x.entry.address < 2 ^ 64 := by
    intro x hx
    apply hentries
    rw [← hmaps]
    exact List.mem_map_of_mem hx
  refine ⟨hmaps, hops, ?_, finalMap_eq (fun x hx => (hentry x hx).1) hfits⟩
  intro segment bus e he
  rcases List.mem_map.mp (List.mem_of_find?_eq_some he) with ⟨x, hx, rfl⟩
  have hfound := List.find?_some he
  simp only [Bool.and_eq_true, beq_iff_eq, decide_eq_true_eq] at hfound
  exact ⟨x, hx, rfl, Mapping.lands_iff (hentry x hx).1 (hentry x hx).2 (hfits x hx).1 (hfits x hx).2
    ⟨hfound.1.2, hfound.2⟩⟩

end Table

section Kernel

open Kmem

-- The arena of `vm_kmap()` is `vmem_va`.
def vmMapAllocate (k : Kmem.Setup) (fuel : Nat) (a : Vmem × World (Mmu Pm.State)) (length : Nat)
    : Except Fault (Nat × Vmem × World (Mmu Pm.State)) :=
  vmemAlloc k.cfg (vaOps k) fuel a.1 a.2 length vmInstantfit

theorem allocates_vmMapAllocate {k : Kmem.Setup} (hcfg : k.cfg.disableAsserts = false) (fuel : Nat)
    (mine : List SegId)
    : Allocates (vmMapAllocate k fuel) fun a => VaOk a.1 ∧ a.2.pool.Ok (a.1.segqueue ++ mine) := by
  rintro ⟨va, pool, irql, mmu⟩ n virt ⟨va', wva⟩ ⟨hva, hpool⟩ hdvd hlt he
  have hpos := (hva.serves hpool irql mmu).alloc_pos (vaSource k mine) hcfg he
  have h := hva.alloc hcfg hpool hpos hlt hdvd he
  rcases h.range with ⟨hpage, hinside, _⟩
  have htop := kernelTop_lt
  exact ⟨⟨h.ok, h.pool⟩, Nat.mod_eq_zero_of_dvd hpage, by omega⟩

end Kernel

def freshPage (n : Nat) : Except Fault (Addr × Nat) := .ok (BitVec.ofNat 64 (n * 4096), n + 1)

def twoBuses : Mapping := ⟨⟨0xE0000000, 0, (0#8).toFin, (1#8).toFin⟩, 0xFFFFE00000000000⟩

def bootVa : Except Fault (Vmem × World (Mmu Pm.State)) := do
  let (_, mmu) ← Kmem.smallMap
  let (va, pool) ← Vmem.arenaAt Kmem.memKernelStart Kmem.memKernelSize 4096 false
  return (va, ⟨pool, 0, mmu⟩)

def twoBusesInit (a : Vmem × World (Mmu Pm.State)) :=
  portPciInit (vmMapAllocate Kmem.smallSetup 1) freshPage ⟨false⟩ ⟨true, true, true⟩ 0x1000 a ⟨fun _ _ => 0, 2⟩
    [twoBuses.entry]

theorem twoBusesInit_eq_ok : ∃ a a' m, bootVa = .ok a ∧ twoBusesInit a = .ok ([twoBuses], a', m) := by
  have hrun : (do
      let a ← bootVa
      let (virt, _) ← vmMapAllocate Kmem.smallSetup 1 a (mcfgMappingSize twoBuses.entry)
      return virt) = .ok twoBuses.virt := by
    decide +kernel
  rcases Except.bind_eq_ok hrun with ⟨a, ha, hrun⟩
  rcases Except.bind_eq_ok hrun with ⟨⟨virt, a'⟩, halloc, hrun⟩
  cases hrun
  have hops : ∃ m, runOps freshPage ⟨false⟩ ⟨true, true, true⟩ 0x1000 ⟨fun _ _ => 0, 2⟩ twoBuses.ops =
      .ok m := runOps_eq_ok (fun n => ⟨_, rfl⟩) (by decide +kernel)
  rcases hops with ⟨m, hm⟩
  refine ⟨a, a', m, ha, ?_⟩
  unfold twoBusesInit portPciInit
  rw [halloc, Except.ok_bind]
  show (runOps freshPage _ _ _ _ twoBuses.ops >>= _) = _
  rw [hm]
  rfl

theorem mcfg_access_lands_first
    : ∃ a maps a' m, bootVa = .ok a ∧ twoBusesInit a = .ok (maps, a', m) ∧ ∃ x ∈ maps, x.Lands 0 := by
  rcases twoBusesInit_eq_ok with ⟨a, a', m, ha, hrun⟩
  rcases Except.bind_eq_ok ha with ⟨⟨_, mmu⟩, _, hva⟩
  rcases Except.bind_eq_ok hva with ⟨⟨va, pool⟩, hinit, hva⟩
  cases hva
  have hok := Kmem.VaOk.init .vmemBootstrap hinit
  rw [← List.append_nil va.segqueue] at hok
  rcases mcfg_access_lands (allocates_vmMapAllocate rfl 1 []) hok (by decide) hrun with
    ⟨_, _, hlands, _⟩
  rcases hlands 0 0 twoBuses.mapped (by decide) with ⟨x, hx, _, hiff⟩
  rw [List.mem_singleton] at hx
  subst hx
  exact ⟨_, _, _, _, ha, hrun, twoBuses, List.mem_singleton_self _, hiff.mpr (by decide)⟩

theorem mcfg_last_bus_outside
    : ∃ a maps a' m, bootVa = .ok a ∧ twoBusesInit a = .ok (maps, a', m) ∧
          mcfgBus (maps.map Mapping.mapped) 0 1 = some twoBuses.mapped ∧
          mcfgAddress 1 0 0 0 twoBuses.mapped = twoBuses.virt + twoBuses.mapsz ∧
          ¬ twoBuses.Lands 1 ∧ mcfgMappingSize ⟨0xE0000000, 0, 0, 0⟩ = 0 := by
  rcases twoBusesInit_eq_ok with ⟨a, a', m, ha, hrun⟩
  have hend : mcfgAddress 1 0 0 0 twoBuses.mapped = twoBuses.virt + twoBuses.mapsz := by decide
  refine ⟨a, _, a', m, ha, hrun, by decide, hend, ?_, by decide⟩
  intro h
  have hinside := (h.inside 0 (by decide) 0 (by decide) 0 (by decide)).2
  rw [hend] at hinside
  exact absurd hinside (Nat.lt_irrefl _)

end Pci
end Nyy
