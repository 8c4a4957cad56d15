import NyyKernel.Asserts.Slab
import NyyKernel.Asserts.Vmem
import NyyKernel.Lib.Run

/-!
This module contains runs of the operations of `kernel/lib/vmem.c` and `kernel/lib/slab.c` in a build
with assertions and in one without.
-/

namespace Nyy

-- What the slab allocator's memory holds, among it the arenas and the pool that they share.
structure Memory (α τ μ : Type) where
  arena : α → Vmem
  world : World τ
  contents : μ

abbrev Allocators (α τ μ : Type) := Slab.Kmem (Memory α τ μ)

inductive AllocOp (α ν : Type) where
  | vmemInit (a : α) (base size quantum : Nat) (source : Bool)
  | vmemAdd (a : α) (addr size : Nat)
  | vmemXalloc (a : α) (fuel : Nat) (req : XallocReq)
  | vmemXfree (a : α) (addr size : Nat)
  | kmemSlabInit (fuel : Nat)
  | kmemCacheCreate (fuel bufsize align : Nat) (constructor : Option (Nat → ν → Int × ν))
    (destructor : Option (Nat → ν → ν))
  | kmemCacheAlloc (fuel cp : Nat) (kmflags : BitVec 32)
  | kmemCacheFree (cp obj : Nat)

namespace Allocators

section Exec

variable {α τ μ : Type} [DecidableEq α]

def setArena (s : Allocators α τ μ) (a : α) (vmp : Vmem) (w : World τ) : Allocators α τ μ :=
  { s with mem := { s.mem with arena := Function.update s.mem.arena a vmp, world := w } }

variable (cfg : Config) (ops : α → VmemOps τ) (wired : α)

def vmKalloc (fuel : Nat) (flags : BitVec 32) : Slab.PageAlloc (Memory α τ μ) := fun s count => do
  let (addr, vmp, w) ← vmemAlloc cfg (ops wired) fuel (s.mem.arena wired) s.mem.world
    (Word.mul count Slab.pageSize) flags
  if addr = 0 then
    .error .noMemory
  else
    return (addr, { setArena s wired vmp w with ranges := (addr, count) :: s.ranges })

def exec (s : Allocators α τ μ)
    : AllocOp α (Memory α τ μ) → Except Fault (Nat × Allocators α τ μ)
  | .vmemInit a base size quantum source => do
    let (vmp, pool) ← vmemInit cfg (s.mem.arena a) s.mem.world.pool base size quantum source
    return (0, setArena s a vmp { s.mem.world with pool := pool })
  | .vmemAdd a addr size => do
    let (vmp, pool) ← vmemAdd cfg (s.mem.arena a) s.mem.world.pool addr size
    return (0, setArena s a vmp { s.mem.world with pool := pool })
  | .vmemXalloc a fuel req => do
    let (ret, vmp, w) ← vmemXalloc cfg (ops a) fuel (s.mem.arena a) s.mem.world req
    return (ret, setArena s a vmp w)
  | .vmemXfree a addr size => do
    let (vmp, w) ← vmemXfree cfg (ops a) (s.mem.arena a) s.mem.world addr size
    return (0, setArena s a vmp w)
  | .kmemSlabInit fuel => do
    let s ← Slab.kmemSlabInit cfg (vmKalloc cfg ops wired fuel 0) s
    return (0, s)
  | .kmemCacheCreate fuel bufsize align constructor destructor =>
    Slab.kmemCacheCreate cfg (vmKalloc cfg ops wired fuel 0) s bufsize align constructor destructor
  | .kmemCacheAlloc fuel cp kmflags =>
    Slab.kmemCacheAlloc cfg (vmKalloc cfg ops wired fuel kmflags) fuel s cp
  | .kmemCacheFree cp obj => do
    let s ← Slab.kmemCacheFree cfg s cp obj
    return (0, s)

def Step (s : Allocators α τ μ) (e : AllocOp α (Memory α τ μ) × Nat) (s' : Allocators α τ μ) : Prop :=
  exec cfg ops wired s e.1 = .ok (e.2, s')

end Exec

section Follow

variable {α τ μ : Type} {ops ops' : α → VmemOps τ} {wired : α} {cost : α → Nat} {fuel : Nat}
  {s : Allocators α τ μ}

-- 128 tags are left when `n` are taken
def Spare (s : Allocators α τ μ) (n : Nat) : Prop := 128 + (n : Int) ≤ s.mem.world.pool.nfreesegs

def Stocked (wired : α) (cost : α → Nat) (s : Allocators α τ μ) : AllocOp α (Memory α τ μ) → Prop
  | .vmemXalloc a fuel req =>
    req.vmflag &&& vmBootstrap ≠ 0 ∨ Spare s (xallocCost fuel (cost a))
  | .kmemSlabInit fuel => Spare s (2 * xallocCost fuel (cost wired))
  | .kmemCacheCreate fuel .. => Spare s (xallocCost fuel (cost wired))
  | .kmemCacheAlloc fuel cp kmflags =>
    (∀ cp' ∈ [cp, s.slabCache, s.bufctlCache], Slab.WritesNothing (s.cache cp').constructor) ∧
      ((s.cache cp).slablist ≠ [] ∨ kmflags &&& vmBootstrap ≠ 0 ∨
        Spare s (Slab.pageCalls s fuel cp * xallocCost fuel (cost wired)))
  | _ => True

def memoryMeter (flags : BitVec 32) : Meter (Memory α τ μ) :=
  ⟨fun m => m.world.pool.nfreesegs, flags &&& vmBootstrap ≠ 0, 128⟩

variable [DecidableEq α]

theorem vmKalloc_follows (hops : ∀ a, SameCalls (ops a) (ops' a) (cost a)) {flags : BitVec 32}
    {s₀ : Allocators α τ μ} (h : Slab.Fixed s₀ s) {count : Nat}
    : Slab.AllocFollows (memoryMeter flags) s₀ s (xallocCost fuel (cost wired))
        (vmKalloc ⟨false⟩ ops wired fuel flags s count)
        (vmKalloc ⟨true⟩ ops' wired fuel flags s count) := by
  unfold vmKalloc vmemAlloc
  intro r hr
  rcases Except.bind_eq_ok hr with ⟨⟨addr, vmp, w⟩, hx, hr⟩
  rcases vmemXalloc_follows (hops wired) _ hx with ⟨_, hle, hfollow⟩
  dsimp only at hr
  split at hr
  . cases hr
  . next hne =>
    cases hr
    refine ⟨⟨h.slabCache, h.bufctlCache, h.bare⟩, hle, ?_⟩
    intro hn
    rw [hfollow hn, Except.ok_bind]
    dsimp only
    rw [if_neg hne]
    rfl

theorem exec_follows {op : AllocOp α (Memory α τ μ)} (hops : ∀ a, SameCalls (ops a) (ops' a) (cost a))
    (hstock : Stocked wired cost s op)
    : Follows (fun _ => True) (exec ⟨false⟩ ops wired s op) (exec ⟨true⟩ ops' wired s op) := by
  cases op with
  | vmemInit a base size quantum source =>
    exact vmemInit_follows.bind fun _ _ => Follows.pure trivial
  | vmemAdd a addr size => exact vmemAdd_follows.bind fun _ _ => Follows.pure trivial
  | vmemXalloc a fuel req =>
    exact ((vmemXalloc_follows (hops a)).toFollows hstock).bind fun _ _ => Follows.pure trivial
  | vmemXfree a addr size => exact (vmemXfree_follows (hops a)).bind fun _ _ => Follows.pure trivial
  | kmemSlabInit fuel =>
    exact ((Slab.kmemSlabInit_follows (m := memoryMeter 0) fun s =>
      vmKalloc_follows hops (Slab.Fixed.refl s)).toFollows (.inr hstock)).bind fun _ _ => Follows.pure trivial
  | kmemCacheCreate fuel bufsize align constructor destructor =>
    exact (Slab.kmemCacheCreate_follows (m := memoryMeter 0)
      (vmKalloc_follows hops (Slab.Fixed.refl s))).toFollows (.inr hstock)
  | kmemCacheAlloc fuel cp kmflags =>
    exact Slab.kmemCacheAlloc_follows (m := memoryMeter kmflags)
      (fun _ _ h => vmKalloc_follows hops h) hstock.1 hstock.2
  | kmemCacheFree cp obj => exact Slab.kmemCacheFree_follows.bind fun _ _ => Follows.pure trivial

/--
A run in which no assertion fails, no operation comes near the last 128 boundary tags and no
constructor that writes is called is one of the build without assertions.
-/
theorem same_run_without_asserts {es : List ((AllocOp α (Memory α τ μ) × Nat) × Allocators α τ μ)}
    (hops : ∀ a, SameCalls (ops a) (ops' a) (cost a))
    (h : Trace (Guarded (fun s e => Stocked wired cost s e.1) (Step ⟨false⟩ ops wired)) s es)
    : Trace (Step ⟨true⟩ ops' wired) s es := by
  refine h.simulate (fun _ => True) ?_ trivial
  rintro s e s' _ ⟨hstock, h⟩
  exact exec_follows hops hstock _ h

end Follow

section Examples

def flat : Unit → VmemOps Unit := fun _ => ⟨fun _ => .ok (), none, none⟩

theorem flat_sameCalls (a : Unit) : SameCalls (flat a) (flat a) 0 := by
  refine ⟨fun _ => rfl, ?_, fun _ => rfl, ?_⟩
  . intro f h
    cases h
  . intro f h
    cases h

abbrev FlatOp := AllocOp Unit (Memory Unit Unit Nat)

def boot (pool : SegPool) : Allocators Unit Unit Nat where
  mem :=
    { arena _ := ⟨0, 0, 0, false, fun _ => ⟨.free, false, 0, 0⟩, [], fun _ => [], fun _ => [],
        ⟨0, 0, 0, 0⟩⟩
      world := ⟨pool, 0, ()⟩
      contents := 0 }
  cache _ := ⟨0, 0, 0, 0, 0, none, none, [], 0, [], []⟩
  slab _ := ⟨[], 0, 0, 0⟩
  bufctl _ := ⟨0, 0⟩
  slabCache := 0
  bufctlCache := 0
  ranges := []

def store (value : Nat) (_ : Nat) (m : Memory Unit Unit Nat) : Int × Memory Unit Unit Nat :=
  (0, { m with contents := value })

def page : XallocReq := ⟨4096, 0, 0, 0, vmemAddrMin, vmemAddrMax, 0⟩

def execAll (cfg : Config) : List FlatOp → Allocators Unit Unit Nat →
    Except Fault (Allocators Unit Unit Nat)
  | [], s => return s
  | op :: ops, s => do
    let (_, s) ← exec cfg flat () s op
    execAll cfg ops s

def after (s : Allocators Unit Unit Nat) (op : FlatOp) : Allocators Unit Unit Nat :=
  match exec ⟨false⟩ flat () s op with
  | .ok (_, s') => s'
  | .error _ => s

theorem step_after {s : Allocators Unit Unit Nat} {op : FlatOp} {ret : Nat}
    (h : (exec ⟨false⟩ flat () s op).map Prod.fst = .ok ret)
    : Step ⟨false⟩ flat () s (op, ret) (after s op) := by
  rcases Except.map_eq_ok h with ⟨r, hr, rfl⟩
  unfold Step after
  rw [hr]

def arenaInit : FlatOp := .vmemInit () 4096 1048576 4096 false

def stocked : Allocators Unit Unit Nat := after (boot (vmemBootstrap ⟨[], 0, 0⟩).refilled) arenaInit

def plain : Allocators Unit Unit Nat :=
  after (after stocked (.kmemCacheCreate 1 64 0 (some (store 7)) none))
    (.kmemCacheCreate 1 64 0 none none)

theorem plain_inert : ∀ cp ∈ [8192, plain.slabCache, plain.bufctlCache],
    Slab.WritesNothing (plain.cache cp).constructor := by
  have h : ∀ cp ∈ [8192, plain.slabCache, plain.bufctlCache],
      (plain.cache cp).constructor.isNone = true := by decide +kernel
  intro cp hcp f hf
  have := h cp hcp
  rw [hf] at this
  cases this

theorem same_run_without_asserts_plain
    : ∃ es, es.map (fun e => e.1) =
        [(.kmemCacheCreate 1 64 0 (some (store 7)) none, 4096),
          (.kmemCacheCreate 1 64 0 none none, 8192), (.kmemCacheAlloc 1 8192 0, 16256)] ∧
        Trace (Step ⟨true⟩ flat ()) stocked es := by
  have hcreate : Step ⟨false⟩ flat () stocked (.kmemCacheCreate 1 64 0 (some (store 7)) none, 4096) _ :=
    step_after (by decide +kernel)
  have hcreate' : Step ⟨false⟩ flat () _ (.kmemCacheCreate 1 64 0 none none, 8192) plain :=
    step_after (by decide +kernel)
  have halloc : Step ⟨false⟩ flat () plain (.kmemCacheAlloc 1 8192 0, 16256) _ :=
    step_after (by decide +kernel)
  have hspare : 130 ≤ stocked.mem.world.pool.nfreesegs ∧
      130 ≤ (after stocked (.kmemCacheCreate 1 64 0 (some (store 7)) none)).mem.world.pool.nfreesegs ∧
      130 ≤ plain.mem.world.pool.nfreesegs := by decide +kernel
  have hcalls : Slab.pageCalls plain 1 8192 = 1 := by decide +kernel
  have hstock : Stocked () (fun _ => 0) plain (.kmemCacheAlloc 1 8192 0) := by
    refine ⟨plain_inert, .inr (.inr ?_)⟩
    rw [hcalls]
    exact hspare.2.2
  have hrun : Trace (Guarded (fun s e => Stocked () (fun _ => 0) s e.1) (Step ⟨false⟩ flat ())) stocked
      [((.kmemCacheCreate 1 64 0 (some (store 7)) none, 4096), _),
        ((.kmemCacheCreate 1 64 0 none none, 8192), plain), ((.kmemCacheAlloc 1 8192 0, 16256), _)] :=
    .cons ⟨hspare.1, hcreate⟩ (.cons ⟨hspare.2.1, hcreate'⟩ (.cons ⟨hstock, halloc⟩ .nil))
  exact ⟨_, rfl, same_run_without_asserts flat_sameCalls hrun⟩

theorem refill_and_constructor_lost
    : (execAll ⟨false⟩ [arenaInit, .vmemXalloc () 1 page] (boot (vmemBootstrap ⟨[], 0, 0⟩))).map
          (fun s => (s.mem.world.pool.npages, s.mem.world.pool.nfreesegs)) = .ok (1, 189) ∧
        (execAll ⟨true⟩ [arenaInit, .vmemXalloc () 1 page] (boot (vmemBootstrap ⟨[], 0, 0⟩))).map
          (fun s => (s.mem.world.pool.npages, s.mem.world.pool.nfreesegs)) = .ok (0, 125) ∧
        (execAll ⟨false⟩ [.kmemCacheCreate 1 64 0 (some (store 7)) none, .kmemCacheAlloc 1 4096 0]
          stocked).map (fun s => (s.mem.world.pool.nfreesegs, s.mem.contents)) = .ok (188, 7) ∧
        (execAll ⟨true⟩ [.kmemCacheCreate 1 64 0 (some (store 7)) none, .kmemCacheAlloc 1 4096 0]
          stocked).map (fun s => (s.mem.world.pool.nfreesegs, s.mem.contents)) = .ok (188, 0) := by
  refine ⟨?_, ?_, ?_, ?_⟩
  all_goals decide +kernel

end Examples

end Allocators
end Nyy
