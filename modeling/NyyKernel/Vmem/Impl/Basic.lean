import Mathlib.Logic.Function.Basic
import NyyKernel.Lib.Fault
import NyyKernel.Lib.Word
import NyyKernel.Lib.Queue

/-!
This module contains the data model of `kernel/lib/vmem.c`.
-/

namespace Nyy

inductive SegType where
  | allocated
  | free
  | span
  deriving DecidableEq, Repr

structure VmemSegment where
  type : SegType
  imported : Bool
  base : Nat
  size : Nat
  deriving DecidableEq, Repr

-- An element of `static_segs`, or one of the 64 tags in a page, in the order in which they came.
inductive SegId where
  | static (i : Nat)
  | block (page i : Nat)
  deriving DecidableEq, Repr

structure SegPool where
  freeSegs : List SegId
  nfreesegs : Int
  npages : Nat

-- The part `ext` belongs to the page allocator and the source of an importing arena.
structure World (τ : Type) where
  pool : SegPool
  irql : Nat
  ext : τ

structure VmemOps (τ : Type) where
  allocPages : τ → Except Fault τ
  alloc : Option (Nat → BitVec 32 → World τ → Except Fault (Nat × World τ))
  free : Option (Nat → Nat → World τ → Except Fault (World τ))

structure VmemStat where
  inUse : Nat
  importSize : Nat
  total : Nat
  free : Nat
  deriving DecidableEq, Repr

structure Vmem where
  base : Nat
  size : Nat
  quantum : Nat
  lock : Bool
  seg : SegId → VmemSegment
  segqueue : List SegId
  freelist : Fin 64 → List SegId
  hashtable : Fin 16 → List SegId
  stat : VmemStat

def vmBestfit : BitVec 32 := 1
def vmInstantfit : BitVec 32 := 2
def vmNextfit : BitVec 32 := 4
def vmBootstrap : BitVec 32 := 32

def irqlDispatch : Nat := 2

def vmemAddrMin : Nat := 0
def vmemAddrMax : Nat := 2 ^ 64 - 1

def segAlloc (cfg : Config) (pool : SegPool) : Except Fault (SegId × SegPool) := do
  check cfg (!pool.freeSegs.isEmpty)
  match pool.freeSegs with
  | [] => .error .undefined
  | vsp :: rest => return (vsp, { pool with freeSegs := rest, nfreesegs := pool.nfreesegs - 1 })

abbrev SegAlloc := SegPool → Except Fault (SegId × SegPool)

def segFree (seg : SegId) (pool : SegPool) : SegPool :=
  { pool with freeSegs := seg :: pool.freeSegs, nfreesegs := pool.nfreesegs + 1 }

def repopulateSegments {τ : Type} (ops : VmemOps τ) (w : World τ) : Except Fault (World τ) :=
  if w.pool.nfreesegs ≥ 128 then
    return w
  else do
    let ext ← ops.allocPages w.ext
    let page := w.pool.npages
    let pool := (List.range 64).foldl (fun pool i => segFree (.block page i) pool) w.pool
    return { w with pool := { pool with npages := page + 1 }, ext := ext }

def vmemBootstrap (pool : SegPool) : SegPool :=
  (List.range 128).foldl (fun pool i => segFree (.static i) pool) pool

def vmemAlignup (addr align : Nat) : Nat := Word.alignUp addr align

def segFit (cfg : Config) (segment : VmemSegment) (size align phase nocross minaddr maxaddr : Nat)
    : Except Fault (Option Nat) := do
  check cfg (0 < size)
  check cfg (size ≤ segment.size)
  let start := max segment.base minaddr
  let fin := min (Word.add segment.base segment.size) maxaddr
  if start > fin then
    return none
  else
    let start := Word.add (vmemAlignup (Word.sub start phase) align) phase
    let start := if start < segment.base then Word.add start align else start
    check cfg (nocross == 0)
    if start ≤ fin ∧ size ≤ Word.sub fin start then
      return some start
    else
      return none

def murmur64 (h : Nat) : Nat :=
  let h := h ^^^ (h >>> 33)
  let h := Word.mul h 0xff51afd7ed558ccd
  let h := h ^^^ (h >>> 33)
  let h := Word.mul h 0xc4ceb9fe1a85ec53
  h ^^^ (h >>> 33)

def hashtableForAddr (addr : Nat) : Fin 16 := ⟨murmur64 addr % 16, Nat.mod_lt _ (by decide)⟩

def clzl (x : Nat) : Nat := 63 - Nat.log2 x

def getList (size : Nat) : Int := 64 - clzl size - 1

-- The builtin `clzl` is undefined at 0, and an index outside of the array is not a list of the arena.
def freelistForSize (size : Nat) : Except Fault (Fin 64) :=
  if size = 0 then
    .error .undefined
  else
    let idx := getList size - 1
    if h : 0 ≤ idx ∧ idx < 64 then
      .ok ⟨idx.toNat, by omega⟩
    else
      .error .undefined

def Vmem.setSeg (vmp : Vmem) (x : SegId) (s : VmemSegment) : Vmem :=
  { vmp with seg := Function.update vmp.seg x s }

-- `LIST_REMOVE(seg, seglist)`: a tag has a single link, so it leaves the list that it is on.
def Vmem.listRemove (vmp : Vmem) (x : SegId) : Vmem :=
  { vmp with
    freelist := fun i => (vmp.freelist i).erase x
    hashtable := fun i => (vmp.hashtable i).erase x }

def Vmem.queueRemove (vmp : Vmem) (x : SegId) : Vmem :=
  { vmp with segqueue := vmp.segqueue.erase x }

def hashtabInsert (vmp : Vmem) (x : SegId) : Vmem :=
  let idx := hashtableForAddr (vmp.seg x).base
  { vmp with hashtable := Function.update vmp.hashtable idx (x :: vmp.hashtable idx) }

def vmemAddToFreelist (vmp : Vmem) (x : SegId) : Except Fault Vmem := do
  let idx ← freelistForSize (vmp.seg x).size
  return { vmp with freelist := Function.update vmp.freelist idx (x :: vmp.freelist idx) }

def vmemInsertSegment (vmp : Vmem) (x : SegId) (prev : Option SegId) : Except Fault Vmem :=
  match prev with
  | none => .error .undefined
  | some prev => return { vmp with segqueue := Queue.insertAfter vmp.segqueue prev x }

def vmemContains (vmp : Vmem) (start size : Nat) : Bool :=
  vmp.segqueue.any fun x =>
    start ≥ (vmp.seg x).base && Word.add start size ≤ Word.add (vmp.seg x).base (vmp.seg x).size

-- `spinlock_acquire_raise(&vmp->lock)`; the IRQL to go back to is `w.irql`.
def spinlockAcquireRaise {τ : Type} (cfg : Config) (vmp : Vmem) (w : World τ)
    : Except Fault (Vmem × World τ) := do
  check cfg (w.irql ≤ irqlDispatch)
  if vmp.lock then
    .error .deadlock
  else
    return ({ vmp with lock := true }, { w with irql := irqlDispatch })

def spinlockReleaseLower {τ : Type} (vmp : Vmem) (w : World τ) (irql : Nat) : Vmem × World τ :=
  ({ vmp with lock := false }, { w with irql := irql })

-- From here on the functions that take boundary tags have `seg_alloc` as an argument.
def vmemAddInternal (cfg : Config) (vmp : Vmem) (pool : SegPool) (base size : Nat) (imported : Bool)
    (seg : SegAlloc := segAlloc cfg)
    : Except Fault (SegId × Vmem × SegPool) := do
  let (newspan, pool) ← seg pool
  let vmp := vmp.setSeg newspan ⟨.span, imported, base, size⟩
  let (newfree, pool) ← seg pool
  let vmp := vmp.setSeg newfree { vmp.seg newfree with type := .free, base := base, size := size }
  let vmp := { vmp with segqueue := vmp.segqueue ++ [newspan] }
  let vmp ← vmemInsertSegment vmp newfree (some newspan)
  let vmp ← vmemAddToFreelist vmp newfree
  return (newfree, vmp, pool)

/--
Whether `vmem_import` returned 0. The call of `free` in the source is dead code: what
`vmem_add_internal` returns is never null.
-/
def vmemImport {τ : Type} (cfg : Config) (ops : VmemOps τ) (vmp : Vmem) (w : World τ) (size : Nat)
    (vmflag : BitVec 32) (seg : SegAlloc := segAlloc cfg)
    : Except Fault (Bool × Vmem × World τ) :=
  match ops.alloc with
  | none => return (false, vmp, w)
  | some alloc => do
    let (addr, w) ← alloc size vmflag w
    if addr = 0 then
      return (false, vmp, w)
    else
      let (_, vmp, pool) ← vmemAddInternal cfg vmp w.pool addr size true seg
      return (true, vmp, { w with pool := pool })

def vmemAdd (cfg : Config) (vmp : Vmem) (pool : SegPool) (addr size : Nat)
    : Except Fault (Vmem × SegPool) := do
  check cfg (!vmemContains vmp addr size)
  let vmp := { vmp with stat := { vmp.stat with
    free := Word.add vmp.stat.free size
    total := Word.add vmp.stat.total size } }
  let (_, vmp, pool) ← vmemAddInternal cfg vmp pool addr size false
  return (vmp, pool)

def vmemInit (cfg : Config) (ret : Vmem) (pool : SegPool) (base size quantum : Nat) (source : Bool)
    : Except Fault (Vmem × SegPool) :=
  let vmp : Vmem := { ret with
    base := base
    size := size
    quantum := quantum
    lock := false
    stat := ⟨0, 0, Word.add ret.stat.total size, size⟩
    segqueue := []
    freelist := fun _ => []
    hashtable := fun _ => [] }
  if !source && size != 0 then
    vmemAdd cfg vmp pool base size
  else
    return (vmp, pool)

end Nyy
