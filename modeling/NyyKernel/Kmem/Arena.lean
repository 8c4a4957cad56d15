import NyyKernel.Kmem.Impl
import NyyKernel.Vmem.Arena
import Mathlib.Order.CompletePartialOrder

namespace Nyy
namespace Kmem

open Vmem
open Paging (Mmu)
open Slab (pageSize)

variable {r : Nat × Nat}

def kernelTop : Nat := memKernelStart + memKernelSize

def InKernel (_ : Mmu Pm.State) (held : Set (Nat × Nat)) : Prop :=
  ∀ r ∈ held, memKernelStart ≤ r.1 ∧ r.1 + r.2 ≤ kernelTop

structure VaOk (va : Vmem) : Prop where
  inv : Inv va []
  lock : va.lock = false
  quantum : va.quantum = pageSize
  spans : ∀ r ∈ va.ranges [] .span, pageSize ∣ r.1 ∧ pageSize ∣ r.2
  allocs : ∀ r ∈ va.ranges [] .allocated, pageSize ∣ r.1 ∧ pageSize ∣ r.2
  inside : ∀ r ∈ va.ranges [] .span, memKernelStart ≤ r.1 ∧ r.1 + r.2 ≤ kernelTop

theorem VaOk.alloc_inside {va : Vmem} (h : VaOk va) (hr : r ∈ va.ranges [] .allocated)
    : memKernelStart ≤ r.1 ∧ r.1 + r.2 ≤ kernelTop := by
  rcases h.inv.ranges_inside (by simp) hr with ⟨s, hs, hlow, hhigh⟩
  have := h.inside s hs
  omega

variable {k : Setup} {va va' : Vmem} {pool : SegPool} {irql addr : Nat} {mmu : Mmu Pm.State}
  {wva : World (Mmu Pm.State)} {mine : List SegId} {w w' : World Behind} {rest held : Set (Nat × Nat)}
  {e : Behind}

theorem pageSize_eq : pageSize = 2 ^ 12 := rfl

theorem vaSource (k : Setup) (mine : List SegId)
    : Source (vaOps k) pageSize (fun _ => mine) InKernel := by
  constructor
  . intro ext ext' held hheld _
    exact ⟨hheld, rfl⟩
  . intro alloc h
    cases h
  . intro free h
    cases h

theorem VaOk.serves (h : VaOk va) (hpool : pool.Ok (va.segqueue ++ mine)) (irql : Nat) (mmu : Mmu Pm.State)
    : Serves pageSize (fun _ => mine) InKernel va ⟨pool, irql, mmu⟩ := by
  refine ⟨⟨h.inv, ?_, h.inside, h.spans, h.allocs⟩, h.lock, h.quantum⟩
  rw [List.append_nil]
  exact hpool

theorem VaOk.of_serves (h : Serves pageSize (fun _ => mine) InKernel va wva)
    : VaOk va ∧ wva.pool.Ok (va.segqueue ++ mine) := by
  refine ⟨⟨h.good.inv, h.lock, h.quantum, h.good.spans, h.good.allocs, h.good.source⟩, ?_⟩
  have hpool := h.good.pool
  rw [List.append_nil] at hpool
  exact hpool

structure VaAlloc (va : Vmem) (mine : List SegId) (addr size : Nat) (va' : Vmem)
    (wva : World (Mmu Pm.State)) : Prop where
  ok : VaOk va'
  pool : wva.pool.Ok (va'.segqueue ++ mine)
  allocs : va'.ranges [] .allocated = insert (addr, size) (va.ranges [] .allocated)
  new : (addr, size) ∉ va.ranges [] .allocated

theorem VaOk.init {cfg : Config} {pool' : SegPool} (hpool : pool.Ok [])
    (he : vmemInit cfg va pool memKernelStart memKernelSize pageSize false = .ok (va', pool'))
    : VaOk va' ∧ pool'.Ok va'.segqueue := by
  rcases vmemInit_spec hpool (by decide) (by decide) he with ⟨hopened, hquantum⟩
  have hspans : va'.ranges [] .span = {(memKernelStart, memKernelSize)} := hopened.spans
  refine ⟨⟨hopened.inv, hopened.lock, hquantum, ?_, ?_, ?_⟩, ?_⟩
  . rw [hspans]
    rintro r rfl
    decide
  . simp [hopened.allocs]
  . rw [hspans]
    rintro r rfl
    decide
  . simpa using SegPool.Ok.of_moves (q := []) hpool hopened.moves

theorem VaOk.alloc (hcfg : k.cfg.disableAsserts = false) (h : VaOk va)
    (hpool : pool.Ok (va.segqueue ++ mine)) {fuel addr size : Nat} {flag : BitVec 32} (hpos : 0 < size)
    (hlt : size < 2 ^ 64) (hdvd : pageSize ∣ size)
    (he : vmemAlloc k.cfg (vaOps k) fuel va ⟨pool, irql, mmu⟩ size flag = .ok (addr, va', wva))
    : VaAlloc va mine addr size va' wva := by
  rcases (h.serves hpool irql mmu).alloc (vaSource k mine) (by decide) pageSize_eq hcfg hpos hlt hdvd he
    with ⟨hserves, hallocs, hnew, _⟩
  rcases VaOk.of_serves hserves with ⟨hok, hpool'⟩
  exact ⟨hok, hpool', hallocs, hnew⟩

theorem VaOk.free (h : VaOk va) (hpool : pool.Ok (va.segqueue ++ mine)) {addr size : Nat}
    (hr : (addr, size) ∈ va.ranges [] .allocated)
    (he : vmemFree k.cfg (vaOps k) va ⟨pool, irql, mmu⟩ addr size = .ok (va', wva))
    : VaOk va' ∧ wva.pool.Ok (va'.segqueue ++ mine) ∧
        va'.ranges [] .allocated = va.ranges [] .allocated \ {(addr, size)} := by
  rcases (h.serves hpool irql mmu).free (vaSource k mine) (by decide) hr he with ⟨hserves, hallocs, _⟩
  rcases VaOk.of_serves hserves with ⟨hok, hpool'⟩
  exact ⟨hok, hpool', hallocs⟩

theorem allocwired_eq_ok {fuel size : Nat} {flag : BitVec 32}
    (he : allocwired k fuel size flag w = .ok (addr, w'))
    : ∃ va' wva mmu',
        vmemAlloc k.cfg (vaOps k) fuel w.ext.va ⟨w.pool, w.irql, w.ext.mmu⟩ size flag =
          .ok (addr, va', wva) ∧
        forPages (wirePage k) (pageFuel size) addr (Word.add addr size) wva.ext = .ok mmu' ∧
        w' = ⟨wva.pool, wva.irql, ⟨va', mmu'⟩⟩ := by
  unfold allocwired at he
  rcases Except.bind_eq_ok he with ⟨⟨p, va', wva⟩, halloc, he⟩
  rcases Except.bind_eq_ok he with ⟨mmu', hwire, he⟩
  cases he
  exact ⟨va', wva, mmu', halloc, hwire, rfl⟩

theorem freewired_eq_ok {ptr size : Nat} (he : freewired k ptr size w = .ok w')
    : ∃ mmu' va' wva,
        forPages (unwirePage k) (pageFuel size) ptr (Word.add ptr size) w.ext.mmu = .ok mmu' ∧
        vmemFree k.cfg (vaOps k) w.ext.va ⟨w.pool, w.irql, mmu'⟩ ptr size = .ok (va', wva) ∧
        w' = ⟨wva.pool, wva.irql, ⟨va', wva.ext⟩⟩ := by
  unfold freewired at he
  rcases Except.bind_eq_ok he with ⟨mmu', hunwire, he⟩
  rcases Except.bind_eq_ok he with ⟨⟨va', wva⟩, hfree, he⟩
  cases he
  exact ⟨mmu', va', wva, hunwire, hfree, rfl⟩

def tags (e : Behind) : List SegId := e.va.segqueue

structure Holds (rest : Set (Nat × Nat)) (e : Behind) (held : Set (Nat × Nat)) : Prop where
  va : VaOk e.va
  allocs : e.va.ranges [] .allocated = held ∪ rest
  disjoint : Disjoint held rest

theorem Holds.mem (h : Holds rest e held) (hr : r ∈ held) : r ∈ e.va.ranges [] .allocated :=
  h.allocs ▸ Set.mem_union_left _ hr

theorem Holds.symm (h : Holds rest e held) : Holds held e rest :=
  ⟨h.va, h.allocs.trans (Set.union_comm _ _), h.disjoint.symm⟩

theorem VaAlloc.range {size : Nat} (h : VaAlloc va mine addr size va' wva)
    : pageSize ∣ addr ∧ (memKernelStart ≤ addr ∧ addr + size ≤ kernelTop) ∧
        ∀ r ∈ va.ranges [] .allocated, RangeDisjoint (addr, size) r := by
  have hmem : (addr, size) ∈ va'.ranges [] .allocated := h.allocs ▸ Set.mem_insert _ _
  refine ⟨(h.ok.allocs _ hmem).1, h.ok.alloc_inside hmem, ?_⟩
  intro r hr
  have hr' : r ∈ va'.ranges [] .allocated := h.allocs ▸ Set.mem_insert_of_mem _ hr
  apply h.ok.inv.ranges_pairwise (by simp) hmem hr'
  rintro rfl
  exact h.new hr

section Holds

variable {rest held : Set (Nat × Nat)} {addr size : Nat}

theorem Holds.alloc {e : Behind} (h : Holds rest e held) (ha : VaAlloc e.va mine addr size va' wva)
    (mmu' : Mmu Pm.State)
    : Holds rest ⟨va', mmu'⟩ (insert (addr, size) held) := by
  refine ⟨ha.ok, ?_, ?_⟩
  . rw [ha.allocs, h.allocs, Set.insert_union]
  . rw [Set.disjoint_insert_left]
    refine ⟨?_, h.disjoint⟩
    intro hmem
    exact ha.new (h.allocs ▸ Set.mem_union_right _ hmem)

theorem Holds.free {e : Behind} (h : Holds rest e held) (hr : (addr, size) ∈ held) (hok : VaOk va')
    (hallocs : va'.ranges [] .allocated = e.va.ranges [] .allocated \ {(addr, size)}) (mmu' : Mmu Pm.State)
    : Holds rest ⟨va', mmu'⟩ (held \ {(addr, size)}) := by
  refine ⟨hok, ?_, h.disjoint.mono_left Set.sdiff_subset⟩
  have hrest : (addr, size) ∉ rest := Set.disjoint_left.mp h.disjoint hr
  rw [hallocs, h.allocs, Set.union_sdiff_distrib, Set.sdiff_singleton_eq_self hrest]

end Holds

theorem kernelTop_lt : kernelTop < 2 ^ 64 := by decide

theorem memKernelStart_pos : 0 < memKernelStart := by decide

theorem wiredSource (hcfg : k.cfg.disableAsserts = false) (fuel : Nat) (rest : Set (Nat × Nat))
    : Source (wiredOps k fuel) pageSize tags (Holds rest) := by
  constructor
  . intro ext ext' held hheld he
    rcases Except.bind_eq_ok he with ⟨mmu, _, he⟩
    cases he
    exact ⟨⟨hheld.va, hheld.allocs, hheld.disjoint⟩, rfl⟩
  . intro alloc halloc w w' size flag addr held mine hheld hpool hpos hlt hdvd he
    cases halloc
    rcases allocwired_eq_ok he with ⟨va', wva, mmu', hva, _, rfl⟩
    have hpool' : w.pool.Ok (w.ext.va.segqueue ++ mine) := hpool.of_perm List.perm_append_comm
    have h := hheld.va.alloc hcfg hpool' hpos hlt hdvd hva
    rcases h.range with ⟨hpage, hinside, hdis⟩
    have htop := kernelTop_lt
    have hstart := memKernelStart_pos
    refine ⟨h.pool.of_perm List.perm_append_comm, ?_, ?_⟩
    . intro hzero
      omega
    . intro _
      exact ⟨hpage, by omega, fun r hr => hdis r (hheld.mem hr), hheld.alloc h mmu'⟩
  . intro free hfree w w' held mine r hheld hpool hr he
    cases hfree
    rcases freewired_eq_ok he with ⟨mmu', va', wva, _, hva, rfl⟩
    have hpool' : w.pool.Ok (w.ext.va.segqueue ++ mine) := hpool.of_perm List.perm_append_comm
    rcases hheld.va.free hpool' (hheld.mem hr) hva with ⟨hok, hpool'', hallocs⟩
    exact ⟨hpool''.of_perm List.perm_append_comm, hheld.free hr hok hallocs _⟩

end Kmem
end Nyy
