import NyyKernel.Kmem.Arena
import NyyKernel.Kmem.Pages
import NyyKernel.Slab.Lemmas.Grow
import NyyKernel.Vmem.Conserve
import NyyKernel.Vmem.Enough

namespace Nyy
namespace Kmem

open Vmem
open Paging (Mmu)
open Slab (pageSize)

variable {k : Setup} {seg : SegAlloc} {s : Arenas} {n : Nat}

theorem vaSameImport (k : Setup) : SameImport (vaOps k) (vaOps k) := by
  refine ⟨rfl, fun h => h, ?_⟩
  intro alloc h
  cases h

theorem wiredSameImport (hcfg : k.cfg.disableAsserts = false) (hseg : LikeSegAlloc k.cfg seg) (fuel : Nat)
    : SameImport (wiredOps k fuel) (wiredOps k fuel seg) := by
  refine ⟨rfl, fun h => (nomatch h), ?_⟩
  intro alloc halloc
  cases halloc
  refine ⟨_, rfl, ?_⟩
  intro size flag w hflag hpool
  constructor
  . unfold allocwired vmemAlloc
    rw [vmemXalloc_seg hseg (vaSameImport k) hcfg hflag fuel w.ext.va hpool]
  . intro addr w' he
    rcases allocwired_eq_ok he with ⟨va', wva, mmu', hva, _, rfl⟩
    exact vmemXalloc_pool (w := ⟨w.pool, w.irql, w.ext.mmu⟩) hcfg rfl hflag hpool hva

theorem vaConserves (k : Setup) (mine : List SegId)
    : Conserves (vaOps k) pageSize (fun _ => mine) InKernel := by
  constructor
  . intro alloc h
    cases h
  . intro free h
    cases h

section Va

variable {va va' : Vmem} {pool : SegPool} {irql addr : Nat} {mmu : Mmu Pm.State}
  {wva : World (Mmu Pm.State)} {mine : List SegId} {n : Nat}

theorem VaOk.alloc_conserved (hcfg : k.cfg.disableAsserts = false) (h : VaOk va)
    (hpool : pool.Conserved n (va.segqueue ++ mine)) {fuel size : Nat} {flag : BitVec 32} (hpos : 0 < size)
    (hlt : size < 2 ^ 64) (hdvd : pageSize ∣ size)
    (he : vmemAlloc k.cfg (vaOps k) fuel va ⟨pool, irql, mmu⟩ size flag = .ok (addr, va', wva))
    : wva.pool.Conserved n (va'.segqueue ++ mine) :=
  (h.serves hpool.ok irql mmu).alloc_kept (vaSource k mine) ((vaConserves k mine).kept (vaSource k mine) n)
    (by decide) pageSize_eq hcfg hpos hlt hdvd hpool he

theorem VaOk.free_conserved (h : VaOk va) (hpool : pool.Conserved n (va.segqueue ++ mine)) {size : Nat}
    (hr : (addr, size) ∈ va.ranges [] .allocated)
    (he : vmemFree k.cfg (vaOps k) va ⟨pool, irql, mmu⟩ addr size = .ok (va', wva))
    : wva.pool.Conserved n (va'.segqueue ++ mine) :=
  (h.serves hpool.ok irql mmu).free_kept ((vaConserves k mine).kept (vaSource k mine) n) (by decide) hr
    hpool he

end Va

theorem wiredConserves (hcfg : k.cfg.disableAsserts = false) (fuel : Nat) (rest : Set (Nat × Nat))
    : Conserves (wiredOps k fuel) pageSize tags (Holds rest) := by
  constructor
  . intro alloc halloc w w' size flag addr held mine n hheld hpool hpos hlt hdvd he
    cases halloc
    rcases allocwired_eq_ok he with ⟨va', wva, mmu', hva, _, rfl⟩
    have hpool' : w.pool.Conserved n (w.ext.va.segqueue ++ mine) :=
      hpool.of_perm List.perm_append_comm
    exact (hheld.va.alloc_conserved hcfg hpool' hpos hlt hdvd hva).of_perm List.perm_append_comm
  . intro free hfree w w' held mine n r hheld hpool hr he
    cases hfree
    rcases freewired_eq_ok he with ⟨mmu', va', wva, _, hva, rfl⟩
    have hpool' : w.pool.Conserved n (w.ext.va.segqueue ++ mine) :=
      hpool.of_perm List.perm_append_comm
    exact (hheld.va.free_conserved hpool' (hheld.mem hr) hva).of_perm List.perm_append_comm

structure Arenas where
  wired : Vmem
  world : World Behind
  liveVa : List (Nat × Nat)
  liveWired : List (Nat × Nat)

inductive ArenasOp where
  | vaAlloc (size : Nat) (vmflag : BitVec 32)
  | vaFree (addr size : Nat)
  | wiredAlloc (size : Nat) (vmflag : BitVec 32)
  | wiredFree (addr size : Nat)

namespace Arenas

def vaWorld (s : Arenas) : World (Mmu Pm.State) := ⟨s.world.pool, s.world.irql, s.world.ext.mmu⟩

def va (s : Arenas) : Vmem := s.world.ext.va

end Arenas

section Run

variable (k : Setup)

def ArenasStart (s : Arenas) : Prop :=
  ∃ va wired irql mmu, vaKernelInit k va wired ⟨[], 0, 0⟩ irql mmu = .ok (s.wired, s.world) ∧
    s.liveVa = [] ∧ s.liveWired = []

structure Allowed (size : Nat) (vmflag : BitVec 32) : Prop where
  pos : 0 < size
  lt : size < 2 ^ 64
  pages : pageSize ∣ size
  flag : vmflag &&& vmBootstrap = 0

def ArenasStep (s : Arenas) : ArenasOp → Arenas → Prop
  | .vaAlloc size vmflag, s' => Allowed size vmflag ∧ ∃ fuel addr va' wva,
    vmemAlloc k.cfg (vaOps k) fuel s.va s.vaWorld size vmflag = .ok (addr, va', wva) ∧
    s' = { s with
      world := ⟨wva.pool, wva.irql, ⟨va', wva.ext⟩⟩
      liveVa := (addr, size) :: s.liveVa }
  | .vaFree addr size, s' => (addr, size) ∈ s.liveVa ∧ ∃ va' wva,
    vmemFree k.cfg (vaOps k) s.va s.vaWorld addr size = .ok (va', wva) ∧
    s' = { s with
      world := ⟨wva.pool, wva.irql, ⟨va', wva.ext⟩⟩
      liveVa := s.liveVa.erase (addr, size) }
  | .wiredAlloc size vmflag, s' => Allowed size vmflag ∧ ∃ fuel addr wired' w',
    vmemAlloc k.cfg (wiredOps k fuel) fuel s.wired s.world size vmflag = .ok (addr, wired', w') ∧
    s' = { s with wired := wired', world := w', liveWired := (addr, size) :: s.liveWired }
  | .wiredFree addr size, s' => (addr, size) ∈ s.liveWired ∧ ∃ fuel wired' w',
    vmemFree k.cfg (wiredOps k fuel) s.wired s.world addr size = .ok (wired', w') ∧
    s' = { s with wired := wired', world := w', liveWired := s.liveWired.erase (addr, size) }

end Run

structure ArenasInv (n : Nat) (s : Arenas) : Prop where
  serves : Serves pageSize tags (Holds {r | r ∈ s.liveVa}) s.wired s.world
  conserved : s.world.pool.Conserved n (s.wired.segqueue ++ s.va.segqueue)
  nodup : s.liveVa.Nodup
  wired : Lists s.liveWired (s.wired.ranges [] .allocated)

theorem ArenasInv.init (hs : ArenasStart k s) : ArenasInv 0 s := by
  rcases hs with ⟨va, wired, irql, mmu, he, hva, hwired⟩
  unfold vaKernelInit at he
  rcases Except.bind_eq_ok he with ⟨⟨va1, pool1⟩, he1, he⟩
  rcases Except.bind_eq_ok he with ⟨⟨wired1, pool2⟩, he2, he⟩
  injection he with he
  injection he with hwired1 hworld
  have hpool0 : (vmemBootstrap ⟨[], 0, 0⟩).Conserved 0 ([] ++ []) := .vmemBootstrap
  rcases vmemInit_spec hpool0.ok (by decide) (by decide) he1 with ⟨hva1, _⟩
  have hpool1 : pool1.Conserved 0 ([] ++ va1.segqueue) :=
    (hpool0.of_moves hva1.moves).of_perm (by simp)
  rcases vmemInit_spec hpool1.ok (by decide) (by decide) he2 with ⟨hwired2, hquantum2⟩
  have hpool2 : pool2.Conserved 0 (wired1.segqueue ++ va1.segqueue) := hpool1.of_moves hwired2.moves
  have hspans2 : wired1.ranges [] .span = ∅ := hwired2.spans
  have hvaOk := (VaOk.init hpool0.ok he1).1
  rcases s with ⟨wired', world, liveVa, liveWired⟩
  cases hwired1
  cases hworld
  cases hva
  cases hwired
  refine ⟨⟨⟨hwired2.inv, ?_, ⟨hvaOk, ?_, ?_⟩, ?_, ?_⟩, hwired2.lock, hquantum2⟩, hpool2, ?_, ?_⟩
  . rw [List.append_nil]
    exact hpool2.ok
  . dsimp only
    rw [hva1.allocs, hspans2]
    simp
  . simp
  . simp [hspans2]
  . simp [hwired2.allocs]
  . exact List.nodup_nil
  . rw [hwired2.allocs]
    exact ⟨by simp, List.nodup_nil⟩

namespace ArenasInv

variable {s : Arenas} {n addr : Nat} {va' : Vmem} {wva : World (Mmu Pm.State)}

theorem pool_va (h : ArenasInv n s)
    : s.world.pool.Conserved n (s.va.segqueue ++ s.wired.segqueue) :=
  h.conserved.of_perm List.perm_append_comm

theorem holds (h : ArenasInv n s)
    : Holds {r | r ∈ s.liveVa} s.world.ext (s.wired.ranges [] .span) :=
  h.serves.good.source

theorem lists_va (h : ArenasInv n s) : Lists s.liveVa {r | r ∈ s.liveVa} := ⟨fun _ => Iff.rfl, h.nodup⟩

theorem of_va (h : ArenasInv n s) {e : Behind} {pool : SegPool} {live : List (Nat × Nat)}
    {rest : Set (Nat × Nat)} (hholds : Holds rest e (s.wired.ranges [] .span))
    (hpool : pool.Conserved n (e.va.segqueue ++ s.wired.segqueue)) (hlive : Lists live rest) (irql : Nat)
    : ArenasInv n ⟨s.wired, ⟨pool, irql, e⟩, live, s.liveWired⟩ := by
  have hrest : rest = {r | r ∈ live} := by
    ext r
    exact (hlive.mem r).symm
  have hpool' : pool.Conserved n (s.wired.segqueue ++ e.va.segqueue) :=
    hpool.of_perm List.perm_append_comm
  have hgood := h.serves.good
  refine ⟨⟨⟨hgood.inv, ?_, hrest ▸ hholds, hgood.spans, hgood.allocs⟩, h.serves.lock, h.serves.quantum⟩,
    hpool', hlive.nodup, h.wired⟩
  rw [List.append_nil]
  exact hpool'.ok

theorem vaAlloc (hcfg : k.cfg.disableAsserts = false) (h : ArenasInv n s) {fuel size : Nat}
    {flag : BitVec 32} (hsize : Allowed size flag)
    (he : vmemAlloc k.cfg (vaOps k) fuel s.va s.vaWorld size flag = .ok (addr, va', wva))
    : ArenasInv n { s with
        world := ⟨wva.pool, wva.irql, ⟨va', wva.ext⟩⟩
        liveVa := (addr, size) :: s.liveVa } := by
  have halloc := h.holds.va.alloc hcfg h.pool_va.ok hsize.pos hsize.lt hsize.pages he
  have hpool := h.holds.va.alloc_conserved hcfg h.pool_va hsize.pos hsize.lt hsize.pages he
  have hnew : (addr, size) ∉ {r | r ∈ s.liveVa} := by
    intro hmem
    exact halloc.new (h.holds.allocs ▸ Set.mem_union_right _ hmem)
  exact h.of_va (h.holds.symm.alloc halloc wva.ext).symm hpool (h.lists_va.cons hnew) wva.irql

theorem vaFree (h : ArenasInv n s) {size : Nat} (hmem : (addr, size) ∈ s.liveVa)
    (he : vmemFree k.cfg (vaOps k) s.va s.vaWorld addr size = .ok (va', wva))
    : ArenasInv n { s with
        world := ⟨wva.pool, wva.irql, ⟨va', wva.ext⟩⟩
        liveVa := s.liveVa.erase (addr, size) } := by
  have hr := h.holds.symm.mem hmem
  rcases h.holds.va.free h.pool_va.ok hr he with ⟨hok, _, hallocs⟩
  have hpool := h.holds.va.free_conserved h.pool_va hr he
  exact h.of_va (h.holds.symm.free hmem hok hallocs wva.ext).symm hpool (h.lists_va.erase _) wva.irql

theorem step (hcfg : k.cfg.disableAsserts = false) {op : ArenasOp} {s' : Arenas} (h : ArenasInv n s)
    (hstep : ArenasStep k s op s')
    : ArenasInv n s' := by
  cases op with
  | vaAlloc size flag =>
    rcases hstep with ⟨hsize, fuel, addr, va', wva, he, rfl⟩
    exact h.vaAlloc hcfg hsize he
  | vaFree addr size =>
    rcases hstep with ⟨hmem, va', wva, he, rfl⟩
    exact h.vaFree hmem he
  | wiredAlloc size flag =>
    rcases hstep with ⟨hsize, fuel, addr, wired', w', he, rfl⟩
    have hsource := wiredSource hcfg fuel {r | r ∈ s.liveVa}
    rcases h.serves.alloc hsource (by decide) pageSize_eq hcfg hsize.pos hsize.lt hsize.pages he with
      ⟨hserves, hallocs, hnew, _⟩
    have hpool := h.serves.alloc_kept hsource ((wiredConserves hcfg fuel _).kept hsource n) (by decide)
      pageSize_eq hcfg hsize.pos hsize.lt hsize.pages h.conserved he
    refine ⟨hserves, hpool, h.nodup, ?_⟩
    dsimp only
    rw [hallocs]
    exact h.wired.cons hnew
  | wiredFree addr size =>
    rcases hstep with ⟨hmem, fuel, wired', w', he, rfl⟩
    have hsource := wiredSource hcfg fuel {r | r ∈ s.liveVa}
    have hr := (h.wired.mem _).mp hmem
    have htwo : 2 ≤ pageSize := by decide
    rcases h.serves.free hsource htwo hr he with ⟨hserves, hallocs, _⟩
    have hpool := h.serves.free_kept ((wiredConserves hcfg fuel _).kept hsource n) htwo hr h.conserved he
    refine ⟨hserves, hpool, h.nodup, ?_⟩
    dsimp only
    rw [hallocs]
    exact h.wired.erase _

theorem reach (hcfg : k.cfg.disableAsserts = false) (hr : Reach (ArenasStart k) (ArenasStep k) s)
    : ArenasInv 0 s := by
  refine hr.invariant (fun s hs => init hs) ?_
  intro s op s' h hstep
  exact h.step hcfg hstep

end ArenasInv

section Fresh

variable {fuel count addr : Nat} {flag : BitVec 32} {wired' : Vmem} {w' : World Behind}

theorem ArenasInv.wired_inside (h : ArenasInv n s) {r : Nat × Nat} (hr : r ∈ s.liveWired)
    : pageSize ∣ r.1 ∧ memKernelStart ≤ r.1 ∧ r.1 + r.2 ≤ kernelTop := by
  have hr := (h.wired.mem r).mp hr
  rcases h.serves.good.inv.ranges_inside (by simp) hr with ⟨span, hspan, hlow, hhigh⟩
  have hinside := h.holds.va.alloc_inside (h.holds.mem hspan)
  exact ⟨(h.serves.good.allocs r hr).1, by omega, by omega⟩

theorem ArenasInv.vmKalloc (hcfg : k.cfg.disableAsserts = false) (h : ArenasInv n s)
    (hcount : count * pageSize < 2 ^ 64) (hflag : flag &&& vmBootstrap = 0)
    (he : vmKalloc k fuel s.wired s.world count flag = .ok (addr, wired', w'))
    : pageSize ∣ addr ∧ 0 < addr ∧ addr + count * pageSize < 2 ^ 64 ∧
        ∀ r ∈ s.liveWired, RangeDisjoint (addr, count * pageSize) r := by
  unfold Kmem.vmKalloc Word.mul at he
  rw [Nat.mod_eq_of_lt hcount] at he
  have hpos := h.serves.alloc_pos (wiredSource hcfg fuel _) hcfg he
  have hsize : Allowed (count * pageSize) flag := ⟨hpos, hcount, Nat.dvd_mul_left .., hflag⟩
  have h' := h.step hcfg (show ArenasStep k s (.wiredAlloc (count * pageSize) flag) _ from
    ⟨hsize, fuel, addr, wired', w', he, rfl⟩)
  rcases h'.wired_inside List.mem_cons_self with ⟨hpage, hlow, hhigh⟩
  have htop := kernelTop_lt
  have hstart := memKernelStart_pos
  refine ⟨hpage, by omega, by omega, ?_⟩
  intro r hr
  refine h'.serves.good.inv.ranges_pairwise (by simp) ((h'.wired.mem _).mp List.mem_cons_self)
    ((h'.wired.mem _).mp (List.mem_cons_of_mem _ hr)) ?_
  rintro rfl
  exact (List.nodup_cons.mp h'.wired.nodup).1 hr

-- `vm_kalloc` as the source of the slab allocator, in the state that the arenas have at the call
def wiredEnv (k : Setup) (fuel : Nat) (flag : BitVec 32) (state : List (Nat × Nat) → Option Arenas)
    : Slab.KmemEnv := fun ranges count =>
  match state ranges with
  | none => none
  | some s =>
    match vmKalloc k fuel s.wired s.world count flag with
    | .ok (addr, _) => if count * pageSize < 2 ^ 64 then some addr else none
    | .error _ => none

theorem fresh_wiredEnv (hcfg : k.cfg.disableAsserts = false) (hflag : flag &&& vmBootstrap = 0)
    {state : List (Nat × Nat) → Option Arenas}
    (hstate : ∀ ranges s, state ranges = some s → Reach (ArenasStart k) (ArenasStep k) s ∧
      ∀ r ∈ ranges, (r.1, r.2 * pageSize) ∈ s.liveWired)
    : Slab.Fresh (wiredEnv k fuel flag state) := by
  have hkalloc : ∀ ranges count addr, wiredEnv k fuel flag state ranges count = some addr →
      ∃ s wired' w', state ranges = some s ∧ count * pageSize < 2 ^ 64 ∧
        vmKalloc k fuel s.wired s.world count flag = .ok (addr, wired', w') := by
    intro ranges count addr he
    unfold wiredEnv at he
    grind
  constructor
  . intro ranges count addr he
    rcases hkalloc ranges count addr he with ⟨s, wired', w', hs, hcount, hok⟩
    have h := (ArenasInv.reach hcfg (hstate _ s hs).1).vmKalloc hcfg hcount hflag hok
    exact ⟨h.1, h.2.1, h.2.2.1⟩
  . intro ranges count addr he r hr
    rcases hkalloc ranges count addr he with ⟨s, wired', w', hs, hcount, hok⟩
    have h := (ArenasInv.reach hcfg (hstate _ s hs).1).vmKalloc hcfg hcount hflag hok
    exact h.2.2.2 _ ((hstate _ s hs).2 r hr)

end Fresh

def NeverEmpty (k : Setup) (s : Arenas) : Prop :=
  ∀ seg, LikeSegAlloc k.cfg seg → ∀ size vmflag, vmflag &&& vmBootstrap = 0 → ∀ fuel,
    vmemAlloc k.cfg (vaOps k) fuel s.va s.vaWorld size vmflag seg =
      vmemAlloc k.cfg (vaOps k) fuel s.va s.vaWorld size vmflag ∧
    vmemAlloc k.cfg (wiredOps k fuel seg) fuel s.wired s.world size vmflag seg =
      vmemAlloc k.cfg (wiredOps k fuel) fuel s.wired s.world size vmflag

theorem ArenasInv.neverEmpty (hcfg : k.cfg.disableAsserts = false) (h : ArenasInv n s)
    : NeverEmpty k s := by
  intro seg hseg size vmflag hflag fuel
  unfold vmemAlloc
  constructor
  . exact vmemXalloc_seg (w := s.vaWorld) hseg (vaSameImport k) hcfg hflag fuel s.va
      h.conserved.count
  . exact vmemXalloc_seg hseg (wiredSameImport hcfg hseg fuel) hcfg hflag fuel s.wired
      h.conserved.count

theorem ArenasInv.now (h : ArenasInv n s) : ArenasInv s.world.pool.npages s :=
  ⟨h.serves, h.conserved.now, h.nodup, h.wired⟩

theorem tags_conserved (hcfg : k.cfg.disableAsserts = false) {s : Arenas}
    (hr : Reach (ArenasStart k) (ArenasStep k) s)
    : (s.world.pool.freeSegs ++ (s.wired.segqueue ++ s.va.segqueue)).Perm
          (allTags s.world.pool.npages) ∧
        (allTags s.world.pool.npages).Nodup ∧
        s.world.pool.nfreesegs = s.world.pool.freeSegs.length ∧ NeverEmpty k s ∧
        ∀ op s', ArenasStep k s op s' → s.world.pool.npages ≤ s'.world.pool.npages := by
  have h := ArenasInv.reach hcfg hr
  refine ⟨h.conserved.perm, SegPool.Conserved.nodup_allTags _, h.conserved.count, h.neverEmpty hcfg, ?_⟩
  intro op s' hstep
  exact (h.now.step hcfg hstep).conserved.grown

def smallRun : Except Fault Arenas := do
  let (_, mmu) ← smallMap
  let (wired, w) ← vaKernelInit smallSetup blankVmem blankVmem ⟨[], 0, 0⟩ 0 mmu
  let (a, va, wva) ← vmemAlloc smallSetup.cfg (vaOps smallSetup) 2 w.ext.va
    ⟨w.pool, w.irql, w.ext.mmu⟩ 8192 0
  let (p, wired, w) ← vmemAlloc smallSetup.cfg (wiredOps smallSetup 2) 2 wired
    ⟨wva.pool, wva.irql, ⟨va, wva.ext⟩⟩ 4096 0
  return ⟨wired, w, [(a, 8192)], [(p, 4096)]⟩

theorem smallRun_reach {init : Arenas → Prop} {s : Arenas}
    (hinit : ∀ kmap mmu wired w, smallMap = .ok (kmap, mmu) →
      vaKernelInit smallSetup blankVmem blankVmem ⟨[], 0, 0⟩ 0 mmu = .ok (wired, w) → init ⟨wired, w, [], []⟩)
    (hs : smallRun = .ok s)
    : Reach init (ArenasStep smallSetup) s ∧ s.liveVa.length = 1 ∧ s.liveWired.length = 1 := by
  rcases Except.bind_eq_ok hs with ⟨⟨kmap, mmu⟩, hmap, hs⟩
  rcases Except.bind_eq_ok hs with ⟨⟨wired, w⟩, hstart, hs⟩
  rcases Except.bind_eq_ok hs with ⟨⟨a, va, wva⟩, he1, hs⟩
  rcases Except.bind_eq_ok hs with ⟨⟨p, wired', w'⟩, he2, hs⟩
  cases hs
  have h0 : Reach init (ArenasStep smallSetup) ⟨wired, w, [], []⟩ := .start (hinit _ _ _ _ hmap hstart)
  have hstep1 : ArenasStep smallSetup ⟨wired, w, [], []⟩ (.vaAlloc 8192 0)
      ⟨wired, ⟨wva.pool, wva.irql, ⟨va, wva.ext⟩⟩, [(a, 8192)], []⟩ :=
    ⟨⟨by decide, by decide, by decide, by decide⟩, 2, a, va, wva, he1, rfl⟩
  have hstep2 : ArenasStep smallSetup ⟨wired, ⟨wva.pool, wva.irql, ⟨va, wva.ext⟩⟩, [(a, 8192)], []⟩
      (.wiredAlloc 4096 0) ⟨wired', w', [(a, 8192)], [(p, 4096)]⟩ :=
    ⟨⟨by decide, by decide, by decide, by decide⟩, 2, p, wired', w', he2, rfl⟩
  exact ⟨(h0.next hstep1).next hstep2, rfl, rfl⟩

theorem tags_conserved_small
    : ∃ s, Reach (ArenasStart smallSetup) (ArenasStep smallSetup) s ∧ s.world.pool.npages = 1 ∧
        s.world.pool.nfreesegs = 186 ∧ s.wired.segqueue.length = 2 ∧ s.va.segqueue.length = 4 ∧
        (s.world.pool.freeSegs ++ (s.wired.segqueue ++ s.va.segqueue)).Perm (allTags 1) := by
  have hrun : smallRun.map (fun s => (s.world.pool.npages, s.world.pool.nfreesegs,
      s.wired.segqueue.length, s.va.segqueue.length)) = .ok (1, 186, 2, 4) := by
    decide +kernel
  rcases Except.map_eq_ok hrun with ⟨s, hs, hcounts⟩
  injection hcounts with hpages hcounts
  injection hcounts with hfree hcounts
  injection hcounts with hwired hva
  have hreach : Reach (ArenasStart smallSetup) (ArenasStep smallSetup) s :=
    (smallRun_reach (fun _ _ _ _ _ hstart => ⟨_, _, _, _, hstart, rfl, rfl⟩) hs).1
  refine ⟨s, hreach, hpages, hfree, hwired, hva, ?_⟩
  have h := (tags_conserved rfl hreach).1
  rw [hpages] at h
  exact h

end Kmem
end Nyy
