import NyyKernel.Vmem.Imports

/-!
This module contains the calls of `vmem_xalloc` that find no segment, in a build in which the
assertion at the end of the search is not compiled in.
-/

namespace Nyy
namespace Vmem

variable {τ : Type} {ops : VmemOps τ} {vmp vmp' : Vmem} {w w' : World τ} {req : XallocReq} {fuel : Nat}
  {cfg : Config}

structure NoTrace (vmp : Vmem) (w : World τ) (addr : Nat) (vmp' : Vmem) (w' : World τ) : Prop where
  null : addr = 0
  seg : vmp'.seg = vmp.seg
  segqueue : vmp'.segqueue = vmp.segqueue
  freelist : vmp'.freelist = vmp.freelist
  hashtable : vmp'.hashtable = vmp.hashtable
  stat : vmp'.stat = vmp.stat
  pool : w'.pool.freeSegs.length = w.pool.freeSegs.length ∧ w'.pool.nfreesegs = w.pool.nfreesegs
  lock : vmp'.lock = false
  irql : w'.irql = w.irql

structure Exhausted (cfg : Config) (ops : VmemOps τ) (vmp : Vmem) (w : World τ) (req : XallocReq)
    : Prop where
  search : ∀ first, freelistForSize req.size = .ok first →
    bestFit cfg (effective vmp.quantum req) vmp (listsFrom first.val) = .ok none
  source : ∀ alloc, ops.alloc = some alloc → ∀ v w1, (v, w1) ∈ xallocImports cfg ops 1 vmp w req →
    ∀ addr w', alloc req.size (effective vmp.quantum req).vmflag w1 = .ok (addr, w') → addr = 0

theorem Exhausted.loop {first : Fin 64} {newSeg newSeg2 : SegId} {found : Option (SegId × Nat)}
    {w1 : World τ} (h : Exhausted cfg ops vmp w req)
    (henter : xallocEnter cfg ops vmp w req =
      .ok (first, newSeg, newSeg2, { vmp with lock := true }, w1))
    (he : xallocLoop cfg ops (effective vmp.quantum req) fuel first.val { vmp with lock := true } w1 =
      .ok (found, vmp', w'))
    : found = none ∧ vmp' = { vmp with lock := true } ∧ (ops.alloc = none → w' = w1) := by
  rcases xallocEnter_eq_ok henter with ⟨_, _, _, hfirst, _⟩
  have hpass : xallocPass cfg (effective vmp.quantum req) first.val { vmp with lock := true } =
      .ok (none, first.val) := by
    rw [xallocPass_eq, bestFit_lock, h.search first hfirst]
    rfl
  have hmem : ({ vmp with lock := true }, w1) ∈ xallocImports cfg ops 1 vmp w req := by
    unfold xallocImports
    rw [henter]
    exact mem_loopImports hpass
  cases fuel with
  | zero => cases he
  | succ fuel =>
    unfold xallocLoop at he
    rw [hpass, Except.ok_bind] at he
    rcases Except.bind_eq_ok he with ⟨⟨imported, vmp2, w2⟩, himport, he⟩
    have hfailed : imported = false ∧ vmp2 = { vmp with lock := true } ∧ (ops.alloc = none → w2 = w1) := by
      unfold vmemImport at himport
      split at himport
      . cases himport
        exact ⟨rfl, rfl, fun _ => rfl⟩
      . next alloc halloc =>
        rcases Except.bind_eq_ok himport with ⟨⟨addr, w3⟩, hcall, himport⟩
        rw [h.source alloc halloc _ w1 hmem addr w3 hcall] at himport
        cases himport
        refine ⟨rfl, rfl, ?_⟩
        intro hnone
        rw [hnone] at halloc
        cases halloc
    rcases hfailed with ⟨rfl, rfl, hworld⟩
    rcases Except.bind_eq_ok he with ⟨_, _, he⟩
    cases he
    exact ⟨rfl, rfl, hworld⟩

theorem segAlloc_eq_ok {pool pool' : SegPool} {x : SegId} (he : segAlloc cfg pool = .ok (x, pool'))
    : pool = { pool' with freeSegs := x :: pool'.freeSegs, nfreesegs := pool'.nfreesegs + 1 } := by
  unfold segAlloc at he
  rcases Except.bind_eq_ok he with ⟨_, _, he⟩
  split at he
  . cases he
  . next vsp rest hfree =>
    cases he
    rcases pool with ⟨free, n, npages⟩
    cases hfree
    simp

/--
A call that fails does not touch the arena. But it never releases the lock, does not lower the IRQL,
and keeps two boundary tags.
-/
theorem failed_xalloc_leaves_trace (h : Exhausted ⟨true⟩ ops vmp w req)
    : (¬ ∃ addr vmp' w', vmemXalloc ⟨true⟩ ops fuel vmp w req = .ok (addr, vmp', w') ∧
          NoTrace vmp w addr vmp' w') ∧
        ∀ addr vmp' w', vmemXalloc ⟨true⟩ ops fuel vmp w req = .ok (addr, vmp', w') →
          addr = 0 ∧ vmp' = { vmp with lock := true } ∧
          (ops.alloc = none → w'.irql = irqlDispatch ∧
            w.pool.freeSegs.length = w'.pool.freeSegs.length + 2 ∧
            w.pool.nfreesegs = w'.pool.nfreesegs + 2) := by
  have hreturn : ∀ addr vmp' w', vmemXalloc ⟨true⟩ ops fuel vmp w req = .ok (addr, vmp', w') →
      addr = 0 ∧ vmp' = { vmp with lock := true } ∧
        (ops.alloc = none → w'.irql = irqlDispatch ∧
          w.pool.freeSegs.length = w'.pool.freeSegs.length + 2 ∧
          w.pool.nfreesegs = w'.pool.nfreesegs + 2) := by
    intro addr vmp' w' he
    rw [vmemXalloc_eq] at he
    rcases Except.bind_eq_ok he with ⟨⟨first, newSeg, newSeg2, vmp1, w1⟩, henter, he⟩
    rcases Except.bind_eq_ok he with ⟨⟨found, vmp3, w3⟩, hloop, he⟩
    rcases xallocEnter_eq_ok henter with ⟨w2, pool1, pool2, _, _, hrepop, hseg1, hseg2, _, rfl, rfl⟩
    rcases h.loop henter hloop with ⟨rfl, rfl, hworld⟩
    cases he
    -- the call of `repopulate_segments` is in an assertion
    have hsame : w2 = { w with irql := irqlDispatch } := by
      unfold xallocRepopulate assertRepopulate at hrepop
      split at hrepop <;> cases hrepop <;> rfl
    subst hsame
    refine ⟨rfl, rfl, ?_⟩
    intro halloc
    have hpool := segAlloc_eq_ok hseg1
    rw [segAlloc_eq_ok hseg2] at hpool
    have hpool : w.pool = ⟨newSeg :: newSeg2 :: pool2.freeSegs, pool2.nfreesegs + 1 + 1, pool2.npages⟩ :=
      hpool
    rw [hworld halloc, hpool]
    refine ⟨rfl, rfl, ?_⟩
    show pool2.nfreesegs + 1 + 1 = pool2.nfreesegs + 2
    omega
  refine ⟨?_, hreturn⟩
  rintro ⟨addr, vmp', w', he, htrace⟩
  rcases hreturn addr vmp' w' he with ⟨_, rfl, _⟩
  have hlock : true = false := htrace.lock
  cases hlock

def smallArena : Except Fault (Vmem × SegPool) :=
  vmemInit ⟨true⟩ blankVmem (vmemBootstrap ⟨[], 0, 0⟩) 0x8000 0x10000 4096 false

def largeReq : XallocReq := ⟨0x20000, 0, 0, 0, vmemAddrMin, vmemAddrMax, 0⟩

theorem smallArena_exhausted
    : ∃ vmp pool, smallArena = .ok (vmp, pool) ∧ Exhausted ⟨true⟩ ownSpan vmp ⟨pool, 0, ()⟩ largeReq := by
  have hrun : (do
      let r ← smallArena
      let first ← freelistForSize largeReq.size
      let found ← bestFit ⟨true⟩ (effective r.1.quantum largeReq) r.1 (listsFrom first.val)
      return (r.1, r.2, found)).map
        (fun r : Vmem × SegPool × Option (SegId × Nat) => r.2.2) = .ok none := by
    decide
  rcases Except.map_eq_ok hrun with ⟨⟨_, _, found⟩, hrun, hnone⟩
  rcases Except.bind_eq_ok hrun with ⟨⟨vmp, pool⟩, hinit, hrun⟩
  rcases Except.bind_eq_ok hrun with ⟨first, hfirst, hrun⟩
  rcases Except.bind_eq_ok hrun with ⟨_, hfound, hrun⟩
  cases hrun
  cases hnone
  refine ⟨vmp, pool, hinit, ?_, ?_⟩
  . intro first' hfirst'
    rw [hfirst] at hfirst'
    cases hfirst'
    exact hfound
  . intro alloc halloc
    cases halloc

theorem failed_xalloc_leaves_trace_small
    : ∃ vmp pool, smallArena = .ok (vmp, pool) ∧
        ¬ ∃ addr vmp' w', vmemXalloc ⟨true⟩ ownSpan 1 vmp ⟨pool, 0, ()⟩ largeReq =
          .ok (addr, vmp', w') ∧ NoTrace vmp ⟨pool, 0, ()⟩ addr vmp' w' := by
  rcases smallArena_exhausted with ⟨vmp, pool, hinit, hexhausted⟩
  exact ⟨vmp, pool, hinit, (failed_xalloc_leaves_trace hexhausted).1⟩

theorem failed_xalloc_keeps_lock
    : ∃ vmp pool vmp' w', smallArena = .ok (vmp, pool) ∧
        Exhausted ⟨true⟩ ownSpan vmp ⟨pool, 0, ()⟩ largeReq ∧
        vmemXalloc ⟨true⟩ ownSpan 1 vmp ⟨pool, 0, ()⟩ largeReq = .ok (0, vmp', w') ∧
        vmp'.lock = true ∧ w'.irql = irqlDispatch ∧ pool.freeSegs.length = 126 ∧
        w'.pool.freeSegs.length = 124 ∧ ¬ NoTrace vmp ⟨pool, 0, ()⟩ 0 vmp' w' := by
  have hrun : (do
      let r ← smallArena
      let alloc ← vmemXalloc ⟨true⟩ ownSpan 1 r.1 ⟨r.2, 0, ()⟩ largeReq
      return (r.2, alloc)).map (fun r : SegPool × Nat × Vmem × World Unit =>
        decide (r.2.1 = 0 ∧ r.2.2.1.lock = true ∧ r.2.2.2.irql = irqlDispatch ∧
          r.1.freeSegs.length = 126 ∧ r.2.2.2.pool.freeSegs.length = 124)) = .ok true := by
    set_option maxRecDepth 4096 in decide
  rcases Except.map_eq_ok hrun with ⟨⟨_, addr, vmp', w'⟩, hrun, hfacts⟩
  rcases Except.bind_eq_ok hrun with ⟨⟨vmp, pool⟩, hinit, hrun⟩
  rcases Except.bind_eq_ok hrun with ⟨⟨_, _, _⟩, hxalloc, hrun⟩
  cases hrun
  rcases of_decide_eq_true hfacts with ⟨rfl, hlock, hirql, hbefore, hafter⟩
  rcases smallArena_exhausted with ⟨vmp1, pool1, hinit1, hexhausted⟩
  rw [hinit] at hinit1
  cases hinit1
  refine ⟨vmp, pool, vmp', w', hinit, hexhausted, hxalloc, hlock, hirql, hbefore, hafter, ?_⟩
  intro htrace
  exact absurd (hlock.symm.trans htrace.lock) (by decide)

end Vmem
end Nyy
