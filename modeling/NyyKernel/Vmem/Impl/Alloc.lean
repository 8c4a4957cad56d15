import NyyKernel.Vmem.Impl.Basic

/-!
This module contains the allocation functions of `kernel/lib/vmem.c`. The search loop of
`vmem_xalloc` is bounded by fuel, every import takes one unit.
-/

namespace Nyy

structure XallocReq where
  size : Nat
  align : Nat
  phase : Nat
  nocross : Nat
  minaddr : Nat
  maxaddr : Nat
  vmflag : BitVec 32
  deriving DecidableEq, Repr

def XallocReq.fit (cfg : Config) (req : XallocReq) (vmp : Vmem) (x : SegId)
    : Except Fault (Option Nat) :=
  segFit cfg (vmp.seg x) req.size req.align req.phase req.nocross req.minaddr req.maxaddr

def bestFitList (cfg : Config) (req : XallocReq) (vmp : Vmem)
    : List SegId → Except Fault (Option (SegId × Nat))
  | [] => return none
  | x :: xs => do
    if req.size ≤ (vmp.seg x).size then
      match ← req.fit cfg vmp x with
      | some start => return some (x, start)
      | none => bestFitList cfg req vmp xs
    else
      bestFitList cfg req vmp xs

def bestFit (cfg : Config) (req : XallocReq) (vmp : Vmem)
    : List (Fin 64) → Except Fault (Option (SegId × Nat))
  | [] => return none
  | i :: is => do
    match ← bestFitList cfg req vmp (vmp.freelist i) with
    | some found => return some found
    | none => bestFit cfg req vmp is

-- The loop of the instant fit search, which only looks at the first tag of every list.
def instantFit (cfg : Config) (req : XallocReq) (vmp : Vmem)
    : List (Fin 64) → Except Fault (Option (SegId × Nat))
  | [] => return none
  | i :: is => do
    match (vmp.freelist i).head? with
    | some x =>
      match ← req.fit cfg vmp x with
      | some start => return some (x, start)
      | none => instantFit cfg req vmp is
    | none => instantFit cfg req vmp is

def listsFrom (first : Nat) : List (Fin 64) := (List.finRange 64).filter fun i => first ≤ i.val

-- One pass of the loop: what it found, and `first_list` after it.
def xallocPass (cfg : Config) (req : XallocReq) (first : Nat) (vmp : Vmem)
    : Except Fault (Option (SegId × Nat) × Nat) := do
  if req.vmflag &&& vmInstantfit ≠ 0 then
    let first := if req.size &&& (req.size - 1) ≠ 0 then first + 1 else first
    let found ← instantFit cfg req vmp (listsFrom first)
    return (found, first)
  else if req.vmflag &&& vmBestfit ≠ 0 then
    let found ← bestFit cfg req vmp (listsFrom first)
    return (found, first)
  else
    check cfg (req.vmflag &&& vmNextfit == 0)
    return (none, first)

-- It is left with a segment, or without one if the final assertion is not compiled in.
def xallocLoop {τ : Type} (cfg : Config) (ops : VmemOps τ) (req : XallocReq) (fuel first : Nat) (vmp : Vmem)
    (w : World τ) (seg : SegAlloc := segAlloc cfg)
    : Except Fault (Option (SegId × Nat) × Vmem × World τ) :=
  match fuel with
  | 0 => .error .fuel
  | fuel + 1 => do
    let (found, first) ← xallocPass cfg req first vmp
    match found with
    | some found => return (some found, vmp, w)
    | none =>
      let (imported, vmp, w) ← vmemImport cfg ops vmp w req.size req.vmflag seg
      if imported then
        xallocLoop cfg ops req fuel first vmp w seg
      else
        check cfg false
        return (none, vmp, w)

def xallocSplitFront (vmp : Vmem) (x newSeg2 : SegId) (start : Nat) : Except Fault Vmem := do
  let s := vmp.seg x
  let front := Word.sub start s.base
  let vmp := vmp.setSeg newSeg2
    { vmp.seg newSeg2 with type := .free, base := s.base, size := front }
  let vmp := vmp.setSeg x { s with base := start, size := Word.sub s.size front }
  let vmp ← vmemAddToFreelist vmp newSeg2
  vmemInsertSegment vmp newSeg2 (Queue.prev? vmp.segqueue x)

def xallocFront (vmp : Vmem) (x newSeg2 : SegId) (start : Nat) : Except Fault Vmem :=
  if (vmp.seg x).base ≠ start then xallocSplitFront vmp x newSeg2 start else .ok vmp

-- The free segment `x` gives its first `size` bytes to `newSeg`, which becomes the allocation.
def xallocSplitTail (vmp : Vmem) (x newSeg : SegId) (size : Nat) : Except Fault Vmem := do
  let s := vmp.seg x
  let vmp := vmp.setSeg newSeg
    { vmp.seg newSeg with type := .allocated, base := s.base, size := size }
  let vmp := vmp.setSeg x { s with base := Word.add s.base size, size := Word.sub s.size size }
  let vmp ← vmemAddToFreelist vmp x
  let vmp ← vmemInsertSegment vmp newSeg (Queue.prev? vmp.segqueue x)
  return hashtabInsert vmp newSeg

def xallocTakeWhole (vmp : Vmem) (x : SegId) : Vmem :=
  hashtabInsert (vmp.setSeg x { vmp.seg x with type := .allocated }) x

-- The choice between the two: a rest of less than a quantum is not split off.
def xallocPlace (vmp : Vmem) (pool : SegPool) (x newSeg : SegId) (size : Nat)
    : Except Fault (SegId × Vmem × SegPool) := do
  let rest := Word.sub (vmp.seg x).size size
  if (vmp.seg x).size ≠ size ∧ rest > Word.sub vmp.quantum 1 then
    let vmp ← xallocSplitTail vmp x newSeg size
    return (newSeg, vmp, pool)
  else
    return (x, xallocTakeWhole vmp x, segFree newSeg pool)

def xallocFinish (vmp : Vmem) (new : SegId) : Vmem :=
  let vmp := { vmp with stat := { vmp.stat with
    free := Word.sub vmp.stat.free (vmp.seg new).size
    inUse := Word.add vmp.stat.inUse (vmp.seg new).size } }
  vmp.setSeg new { vmp.seg new with type := .allocated }

-- The part of `vmem_xalloc` behind the label `found`, up to the release of the lock.
def xallocFound (cfg : Config) (vmp : Vmem) (pool : SegPool) (x : SegId) (start : Nat)
    (newSeg newSeg2 : SegId) (size : Nat)
    : Except Fault (Nat × Vmem × SegPool) := do
  check cfg ((vmp.seg x).type == .free)
  check cfg (size ≤ (vmp.seg x).size)
  let vmp := vmp.listRemove x
  let split := (vmp.seg x).base ≠ start
  let vmp ← xallocFront vmp x newSeg2 start
  check cfg ((vmp.seg x).base == start)
  let (new, vmp, pool) ← xallocPlace vmp pool x newSeg size
  let pool := if split then pool else segFree newSeg2 pool
  check cfg (size ≤ (vmp.seg new).size)
  let vmp := xallocFinish vmp new
  return ((vmp.seg new).base, vmp, pool)

-- `ASSERT(repopulate_segments() == 0)`: the call is inside of the assertion.
def assertRepopulate {τ : Type} (cfg : Config) (ops : VmemOps τ) (w : World τ)
    : Except Fault (World τ) :=
  if cfg.disableAsserts then return w else repopulateSegments ops w

def xallocRepopulate {τ : Type} (cfg : Config) (ops : VmemOps τ) (vmflag : BitVec 32) (w : World τ)
    : Except Fault (World τ) :=
  if vmflag &&& vmBootstrap = 0 then assertRepopulate cfg ops w else return w

-- `assert((align % vmp->quantum) == 0)`, which divides.
def assertAligned (cfg : Config) (align quantum : Nat) : Except Fault Unit :=
  if cfg.disableAsserts then
    return ()
  else if quantum = 0 then
    .error .undefined
  else
    check cfg (align % quantum == 0)

def vmemXalloc {τ : Type} (cfg : Config) (ops : VmemOps τ) (fuel : Nat) (vmp : Vmem) (w : World τ)
    (req : XallocReq) (seg : SegAlloc := segAlloc cfg)
    : Except Fault (Nat × Vmem × World τ) := do
  let irql := w.irql
  let (vmp, w) ← spinlockAcquireRaise cfg vmp w
  let first ← freelistForSize req.size
  check cfg (req.nocross == 0)
  let align := if req.align = 0 then vmp.quantum else req.align
  assertAligned cfg align vmp.quantum
  -- the workaround of the source: instant fit is replaced by best fit
  let vmflag := (req.vmflag &&& ~~~ vmInstantfit) ||| vmBestfit
  let w ← xallocRepopulate cfg ops vmflag w
  let (newSeg, pool) ← seg w.pool
  let (newSeg2, pool) ← seg pool
  let w := { w with pool := pool }
  let req := { req with align := align, vmflag := vmflag }
  let (found, vmp, w) ← xallocLoop cfg ops req fuel first.val vmp w seg
  match found with
  | none => return (0, vmp, w)
  | some (x, start) =>
    let (ret, vmp, pool) ← xallocFound cfg vmp w.pool x start newSeg newSeg2 req.size
    let (vmp, w) := spinlockReleaseLower vmp { w with pool := pool } irql
    return (ret, vmp, w)

def vmemAlloc {τ : Type} (cfg : Config) (ops : VmemOps τ) (fuel : Nat) (vmp : Vmem) (w : World τ)
    (size : Nat) (vmflag : BitVec 32) (seg : SegAlloc := segAlloc cfg)
    : Except Fault (Nat × Vmem × World τ) :=
  vmemXalloc cfg ops fuel vmp w ⟨size, 0, 0, 0, vmemAddrMin, vmemAddrMax, vmflag⟩ seg

def xfreeFind (vmp : Vmem) (addr : Nat) : Option SegId :=
  (vmp.hashtable (hashtableForAddr addr)).find? fun x => (vmp.seg x).base == addr

def xfreeUnlink (vmp : Vmem) (nb : SegId) : Vmem := (vmp.listRemove nb).queueRemove nb

def xfreeCoalesceRight (vmp : Vmem) (pool : SegPool) (x : SegId) : Vmem × SegPool :=
  match Queue.next? vmp.segqueue x with
  | none => (vmp, pool)
  | some nb =>
    if (vmp.seg nb).type = .free then
      let size := (vmp.seg nb).size
      let vmp := xfreeUnlink vmp nb
      (vmp.setSeg x { vmp.seg x with size := Word.add (vmp.seg x).size size }, segFree nb pool)
    else
      (vmp, pool)

def xfreeCoalesceLeft (vmp : Vmem) (pool : SegPool) (x : SegId) : Except Fault (Vmem × SegPool) :=
  match Queue.prev? vmp.segqueue x with
  | none => .error .undefined
  | some nb =>
    if (vmp.seg nb).type = .free then
      let s := vmp.seg nb
      let vmp := xfreeUnlink vmp nb
      return (vmp.setSeg x { vmp.seg x with size := Word.add (vmp.seg x).size s.size, base := s.base },
        segFree nb pool)
    else
      return (vmp, pool)

-- The end of `vmem_xfree`: a span that was imported and is now free as a whole goes back.
def xfreeFinish {τ : Type} (cfg : Config) (ops : VmemOps τ) (vmp : Vmem) (w : World τ) (x : SegId)
    : Except Fault (Vmem × World τ) :=
  match Queue.prev? vmp.segqueue x with
  | none => .error .undefined
  | some nb => do
    check cfg ((vmp.seg nb).type == .span || (vmp.seg nb).type == .allocated)
    let vmp := vmp.setSeg x { vmp.seg x with type := .free }
    match ops.free with
    | some free =>
      if (vmp.seg nb).type = .span ∧ (vmp.seg nb).imported = true
          ∧ (vmp.seg nb).size = (vmp.seg x).size then
        let addr := (vmp.seg x).base
        let size := (vmp.seg x).size
        let vmp := (vmp.queueRemove x).queueRemove nb
        let w ← free addr size { w with pool := segFree nb (segFree x w.pool) }
        return (vmp, w)
      else
        return (← vmemAddToFreelist vmp x, w)
    | none => return (← vmemAddToFreelist vmp x, w)

def xfreeStat (vmp : Vmem) (size : Nat) : Vmem :=
  { vmp with stat := { vmp.stat with
    inUse := Word.sub vmp.stat.inUse size
    free := Word.add vmp.stat.free size } }

def vmemXfree {τ : Type} (cfg : Config) (ops : VmemOps τ) (vmp : Vmem) (w : World τ) (addr size : Nat)
    : Except Fault (Vmem × World τ) := do
  let irql := w.irql
  let (vmp, w) ← spinlockAcquireRaise cfg vmp w
  match xfreeFind vmp addr with
  | none => .error .undefined
  | some x =>
    check cfg ((vmp.seg x).size == size)
    let vmp := vmp.listRemove x
    let (vmp, pool) := xfreeCoalesceRight vmp w.pool x
    let (vmp, pool) ← xfreeCoalesceLeft vmp pool x
    let (vmp, w) ← xfreeFinish cfg ops vmp { w with pool := pool } x
    return spinlockReleaseLower (xfreeStat vmp size) w irql

def vmemFree {τ : Type} (cfg : Config) (ops : VmemOps τ) (vmp : Vmem) (w : World τ) (addr size : Nat)
    : Except Fault (Vmem × World τ) :=
  vmemXfree cfg ops vmp w addr size

end Nyy
