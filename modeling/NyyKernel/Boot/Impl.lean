import Mathlib.Tactic
import NyyKernel.Paging.Impl

/-!
This module contains the model of the code that maps physical memory into the higher half when the
kernel starts.
-/

namespace Nyy
namespace Boot

open Paging

structure Setup where
  cfg : Config
  features : Features
  hhdmHugepages : Bool
  hhdmStart : Addr
  cr3 : Addr

section

variable {σ : Type} (pmAllocateN : PmAllocate σ) (b : Setup) (cache : CacheMode)

def remapHead : Nat → Mmu σ → Addr → Addr → Except Fault (Addr × Mmu σ)
  | 0, _, _, _ => .error .fuel
  | fuel + 1, m, base, stop =>
    if base < stop then
      if b.hhdmHugepages && base % mib2 == 0 then
        .ok (base, m)
      else do
        let m ← vmPortMap pmAllocateN b.cfg b.features m b.cr3 base (b.hhdmStart + base) cache
          (kVmGlobal ||| kVmAll)
        remapHead fuel m (base + 0x1000) stop
    else
      .ok (base, m)

def remapLarge : Nat → Mmu σ → Addr → Addr → Except Fault (Addr × Mmu σ)
  | 0, _, _, _ => .error .fuel
  | fuel + 1, m, base, stop =>
    if base < stop then
      if base % gib1 == 0 && base + gib1 ≤ stop then do
        let m ← vmPortMap pmAllocateN b.cfg b.features m b.cr3 base (b.hhdmStart + base) cache
          (kVmGlobal ||| kVmAll ||| kVmHuge1GB)
        remapLarge fuel m (base + gib1) stop
      else if base % mib2 == 0 && base + mib2 ≤ stop then do
        let m ← vmPortMap pmAllocateN b.cfg b.features m b.cr3 base (b.hhdmStart + base) cache
          (kVmGlobal ||| kVmAll ||| kVmHuge2MB)
        remapLarge fuel m (base + mib2) stop
      else do
        let m ← vmPortMap pmAllocateN b.cfg b.features m b.cr3 base (b.hhdmStart + base) cache
          (kVmGlobal ||| kVmAll)
        remapLarge fuel m (base + 0x1000) stop
    else
      .ok (base, m)

def remapFuel (length : BitVec 64) : Nat := length.toNat / 0x1000 + 1

def remapMemmapEntry (m : Mmu σ) (base : Addr) (length : BitVec 64) : Except Fault (Mmu σ) := do
  let stop := base + length
  let (base, m) ← remapHead pmAllocateN b cache (remapFuel length) m base stop
  let (base, m) ← if b.hhdmHugepages then
      remapLarge pmAllocateN b cache (remapFuel length) m base stop
    else
      .ok (base, m)
  check b.cfg (decide (base ≤ stop))
  .ok m

end

structure Entry where
  base : Addr
  length : BitVec 64
  cache : CacheMode
  deriving DecidableEq, Repr

def remapEntries {σ : Type} (pmAllocateN : PmAllocate σ) (b : Setup) (m : Mmu σ) (entries : List Entry)
    : Except Fault (Mmu σ) :=
  entries.foldlM (fun m e => remapMemmapEntry pmAllocateN b e.cache m e.base e.length) m

end Boot
end Nyy
