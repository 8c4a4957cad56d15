import NyyKernel.Paging.Impl
import NyyKernel.Pm.Impl
import NyyKernel.Slab.Impl
import NyyKernel.Vmem.Impl.Alloc

/-!
This module contains the model of `kernel/vm/kmem.c` as far as pages go.
-/

namespace Nyy
namespace Kmem

open Paging (Addr Mmu Features)
open Slab (pageSize)

structure Setup where
  cfg : Config
  features : Features
  kmap : Addr

def memKernelStart : Nat := 0xFFFFE00000000000
def memKernelSize : Nat := 2 ^ 40

-- `vmem_alloc_pages(1)`, the memory of the page holds boundary tags from then on.
def vmemAllocPages (cfg : Config) (m : Mmu Pm.State) : Except Fault (Mmu Pm.State) := do
  let (_, pm) ← Pm.pmAllocateN cfg m.pm 1 .vm
  return { m with pm := pm }

def tablePage (cfg : Config) (s : Pm.State) : Except Fault (Addr × Pm.State) := do
  let (p, s) ← Pm.pmAllocate cfg s .vm
  match s.page? p with
  | none => .error .undefined
  | some page => return (Pm.pg2p page, s)

-- The loop `for (i = start; i < stop; i += PAGE_SIZE)`, every round takes one unit of fuel.
def forPages {σ : Type} (body : Nat → σ → Except Fault σ) (fuel i stop : Nat) (s : σ)
    : Except Fault σ :=
  match fuel with
  | 0 => .error .fuel
  | fuel + 1 =>
    if i < stop then do
      let s ← body i s
      forPages body fuel (Word.add i pageSize) stop s
    else
      return s

def pageFuel (size : Nat) : Nat := size / pageSize + 2

section

variable (k : Setup)

-- The body of the loop in `allocwired`.
def wirePage (i : Nat) (m : Mmu Pm.State) : Except Fault (Mmu Pm.State) := do
  let (p, pm) ← Pm.pmAllocate k.cfg m.pm .wired
  match pm.page? p with
  | none => .error .undefined
  | some page =>
    Paging.vmPortMap (tablePage k.cfg) k.cfg k.features { m with pm := pm } k.kmap (Pm.pg2p page)
      (BitVec.ofNat 64 i) .writethrough Paging.kVmAll

def unwirePage (i : Nat) (m : Mmu Pm.State) : Except Fault (Mmu Pm.State) := do
  let (page, m) ← Paging.vmPortTranslate (tablePage k.cfg) (Pm.pmLookup m.pm) m k.kmap
    (BitVec.ofNat 64 i)
  check k.cfg page.isSome
  match page with
  | none => .error .undefined
  | some page =>
    let m ← Paging.vmPortUnmap (tablePage k.cfg) k.cfg k.features m k.kmap (BitVec.ofNat 64 i) 0
    let pm ← Pm.pmFree k.cfg m.pm page
    return { m with pm := pm }

def vaOps : VmemOps (Mmu Pm.State) := ⟨vmemAllocPages k.cfg, none, none⟩

structure Behind where
  va : Vmem
  mmu : Mmu Pm.State

def allocwired (fuel size : Nat) (vmflag : BitVec 32) (w : World Behind) (seg : SegAlloc := segAlloc k.cfg)
    : Except Fault (Nat × World Behind) := do
  let (p, va, wva) ← vmemAlloc k.cfg (vaOps k) fuel w.ext.va ⟨w.pool, w.irql, w.ext.mmu⟩ size vmflag seg
  let mmu ← forPages (wirePage k) (pageFuel size) p (Word.add p size) wva.ext
  return (p, ⟨wva.pool, wva.irql, ⟨va, mmu⟩⟩)

def freewired (ptr size : Nat) (w : World Behind) : Except Fault (World Behind) := do
  let mmu ← forPages (unwirePage k) (pageFuel size) ptr (Word.add ptr size) w.ext.mmu
  let (va, wva) ← vmemFree k.cfg (vaOps k) w.ext.va ⟨w.pool, w.irql, mmu⟩ ptr size
  return ⟨wva.pool, wva.irql, ⟨va, wva.ext⟩⟩

def wiredOps (fuel : Nat) (seg : SegAlloc := segAlloc k.cfg) : VmemOps Behind where
  allocPages ext := do
    let mmu ← vmemAllocPages k.cfg ext.mmu
    return { ext with mmu := mmu }
  alloc := some fun size vmflag w => allocwired k fuel size vmflag w seg
  free := some (freewired k)

def vmKalloc (fuel : Nat) (wired : Vmem) (w : World Behind) (count : Nat) (flags : BitVec 32)
    : Except Fault (Nat × Vmem × World Behind) :=
  vmemAlloc k.cfg (wiredOps k fuel) fuel wired w (Word.mul count pageSize) flags

def vmKfree (fuel : Nat) (wired : Vmem) (w : World Behind) (addr count : Nat)
    : Except Fault (Vmem × World Behind) :=
  vmemFree k.cfg (wiredOps k fuel) wired w addr (Word.mul count pageSize)

def vaKernelInit (va wired : Vmem) (pool : SegPool) (irql : Nat) (mmu : Mmu Pm.State)
    : Except Fault (Vmem × World Behind) := do
  let pool := vmemBootstrap pool
  let (va, pool) ← vmemInit k.cfg va pool memKernelStart memKernelSize pageSize false
  let (wired, pool) ← vmemInit k.cfg wired pool 0 0 pageSize true
  return (wired, ⟨pool, irql, ⟨va, mmu⟩⟩)

end

end Kmem
end Nyy
