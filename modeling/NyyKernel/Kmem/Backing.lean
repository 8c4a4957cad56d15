import NyyKernel.Kmem.Loops
import NyyKernel.Kmem.Tags
import NyyKernel.Vmem.Drain

namespace Nyy
namespace Kmem

open Pm Vmem
open Paging (Addr Mmu Clear Sound hardwareWalk pagePath Canonical)
open Slab (pageSize)

def blockRange (b : Nat × List PagePtr) : Nat × Nat := (b.1, b.2.length * pageSize)

def blockPages (b : Nat × List PagePtr) : List (Nat × PagePtr) := pagesFrom b.1 b.2

def Backed (k : Setup) (m₀ : Mmu State) (live : List (Nat × Nat)) (e : Behind)
    (bs : List (Nat × List PagePtr)) : Prop :=
  Lists (bs.map blockRange ++ live) (e.va.ranges [] .allocated) ∧
    Backs k m₀ (bs.flatMap blockPages) e.mmu

section Arenas

variable {k : Setup} {m₀ : Mmu State} {w w' : World Behind} {bs : List (Nat × List PagePtr)}
  {live : List (Nat × Nat)} {held : Set (Nat × Nat)} {mine : List SegId} {fuel : Nat}

theorem vaKept (k : Setup) (m₀ : Mmu State) (mine : List SegId) (ms : List (Nat × PagePtr))
    : Kept (vaOps k) pageSize (fun _ => mine) InKernel
        (fun _ _ mmu => Backs k m₀ ms mmu) := by
  constructor
  . intro pool pool' owned owned' mmu h _
    exact h
  . intro pool owned mmu mmu' held _ h he
    exact h.descriptors he
  . intro alloc h
    cases h
  . intro free h
    cases h

theorem Backed.mem {b : Nat × List PagePtr} (h : Backed k m₀ live w.ext bs) (hb : b ∈ bs)
    : ((blockRange b).1, (blockRange b).2) ∈ w.ext.va.ranges [] .allocated :=
  (h.1.mem _).mp (List.mem_append_left _ (List.mem_map_of_mem hb))

theorem Backed.allocwired (hcfg : k.cfg.disableAsserts = false) {size addr : Nat} {flag : BitVec 32}
    {rest : Set (Nat × Nat)} (hheld : Holds rest w.ext held) (hpool : w.pool.Ok (mine ++ tags w.ext))
    (h : Backed k m₀ live w.ext bs) (hpos : 0 < size) (hlt : size < 2 ^ 64) (hdvd : pageSize ∣ size)
    (he : Kmem.allocwired k fuel size flag w = .ok (addr, w'))
    : ∃ ps, Backed k m₀ live w'.ext ((addr, ps) :: bs) := by
  rcases allocwired_eq_ok he with ⟨va', wva, mmu', hva, hwire, rfl⟩
  have hpool' : w.pool.Ok (w.ext.va.segqueue ++ mine) := hpool.of_perm List.perm_append_comm
  have halloc := hheld.va.alloc hcfg hpool' hpos hlt hdvd hva
  rcases halloc.range with ⟨hpage, hinside, hdis⟩
  have hbacks := (hheld.va.serves hpool' w.irql w.ext.mmu).alloc_kept (vaSource k mine)
    (vaKept k m₀ mine _) (by decide) pageSize_eq hcfg hpos hlt hdvd h.2 hva
  rcases hdvd with ⟨c, rfl⟩
  have htop := kernelTop_lt
  rw [Word.add_eq (by omega), Nat.mul_comm] at hwire
  rw [Nat.mul_comm] at hinside
  have hnew : ∀ x ∈ bs.flatMap blockPages, x.1 < addr ∨ addr + c * pageSize ≤ x.1 := by
    intro x hx
    have hpos : 0 < pageSize := by decide
    rcases List.mem_flatMap.mp hx with ⟨b, hb, hx⟩
    have hx := of_mem_pagesFrom hx
    rcases hdis _ (h.mem hb) with hend | hend
    . rw [Nat.mul_comm] at hend
      exact .inr (Nat.le_trans hend hx.1)
    . have : b.1 + b.2.length * pageSize ≤ addr := hend
      omega
  rcases hbacks.wireAll hpage hinside.1 hinside.2 hnew hwire with ⟨ps, hlen, h'⟩
  refine ⟨ps, ?_, ?_⟩
  . have hrange : blockRange (addr, ps) = (addr, pageSize * c) := by
      rw [blockRange, hlen, Nat.mul_comm]
    rw [List.map_cons, hrange]
    dsimp only
    rw [halloc.allocs]
    exact h.1.cons halloc.new
  . exact h'

section Freewired

variable {b : Nat × List PagePtr} (hva : VaOk w.ext.va) (hpool : w.pool.Ok (mine ++ tags w.ext))
  (h : Backed k m₀ live w.ext bs) (hb : b ∈ bs)

include hva h hb

theorem Backed.unwired
    : ∃ mmu', forPages (unwirePage k) (pageFuel (blockRange b).2) (blockRange b).1
          (Word.add (blockRange b).1 (blockRange b).2) w.ext.mmu = .ok mmu' ∧
        Backs k m₀ ((bs.erase b).flatMap blockPages) mmu' ∧
        Unwired k (blockPages b) w.ext.mmu mmu' := by
  have hinside := hva.alloc_inside (h.mem hb)
  have htop := kernelTop_lt
  have hfuel : b.2.length < pageFuel (blockRange b).2 := by
    unfold pageFuel blockRange
    rw [Nat.mul_div_cancel _ (by decide)]
    omega
  have hperm := (List.perm_cons_erase hb).flatMap_right blockPages
  rw [Word.add_eq (by omega)]
  exact (h.2.perm hperm).unwireAll hfuel

include hpool

theorem Backed.freewired (he : Kmem.freewired k (blockRange b).1 (blockRange b).2 w = .ok w')
    : Backed k m₀ live w'.ext (bs.erase b) ∧
        Unwired k (blockPages b) w.ext.mmu w'.ext.mmu := by
  rcases freewired_eq_ok he with ⟨mmu', va', wva, hloop, hfree, rfl⟩
  rcases h.unwired hva hb with ⟨mmu, hmmu, hbacks, hunwired⟩
  cases hmmu.symm.trans hloop
  have hpool' : w.pool.Ok (w.ext.va.segqueue ++ mine) := hpool.of_perm List.perm_append_comm
  have hlists := h.1.perm (((List.perm_cons_erase hb).map blockRange).append_right live)
  cases (hva.serves hpool' w.irql mmu').free_outcome (by decide) (h.mem hb) hfree with
  | kept va1 pool1 hres hfreed _ _ =>
    cases hres
    refine ⟨⟨?_, ?_⟩, hunwired⟩
    . dsimp only
      rw [hfreed.allocs]
      exact hlists.of_cons
    . exact hbacks
  | released free span va1 pool1 hsome _ _ _ _ _ _ => cases hsome

theorem Backed.freewired_returns (hirql : w.irql ≤ irqlDispatch)
    : ∃ w', Kmem.freewired k (blockRange b).1 (blockRange b).2 w = .ok w' := by
  rcases h.unwired hva hb with ⟨mmu', hloop, _⟩
  have hpool' : w.pool.Ok (w.ext.va.segqueue ++ mine) := hpool.of_perm List.perm_append_comm
  have hreturns : ∃ r, vmemFree k.cfg (vaOps k) w.ext.va ⟨w.pool, w.irql, mmu'⟩ (blockRange b).1
      (blockRange b).2 = .ok r := by
    apply (hva.serves hpool' w.irql mmu').free_returns (by decide) (h.mem hb) hirql
    intro free hfree
    cases hfree
  rcases hreturns with ⟨r, hfree⟩
  unfold Kmem.freewired
  rw [hloop, Except.ok_bind, hfree]
  exact ⟨_, rfl⟩

end Freewired

theorem wiredKept (hcfg : k.cfg.disableAsserts = false) (m₀ : Mmu State) (fuel : Nat)
    (live : List (Nat × Nat))
    : Kept (wiredOps k fuel) pageSize tags (Holds {r | r ∈ live})
        (fun _ _ e => ∃ bs, Backed k m₀ live e bs) := by
  constructor
  . intro pool pool' owned owned' e h _
    exact h
  . rintro pool owned e e' held _ ⟨bs, h⟩ he
    rcases Except.bind_eq_ok he with ⟨mmu, hpages, he⟩
    cases he
    exact ⟨bs, h.1, h.2.descriptors hpages⟩
  . rintro alloc halloc w w' size flag addr held mine hheld hpool ⟨bs, h⟩ hpos hlt hdvd he
    cases halloc
    rcases h.allocwired hcfg hheld hpool hpos hlt hdvd he with ⟨ps, h'⟩
    exact ⟨_, h'⟩
  . rintro free hfree w w' held mine r hheld hpool ⟨bs, h⟩ hr he
    cases hfree
    rcases List.mem_append.mp ((h.1.mem r).mpr (hheld.mem hr)) with hmem | hlive
    . rcases List.mem_map.mp hmem with ⟨b, hb, rfl⟩
      exact ⟨_, (h.freewired hheld.va hpool hb he).1⟩
    . exact absurd hlive (Set.disjoint_left.mp hheld.disjoint hr)

end Arenas

section Run

variable {k : Setup} {m₀ : Mmu State} {s s' : Arenas}

-- what `vm_kernel_init` has before it calls `va_kernel_init`
structure Ready (k : Setup) (m₀ : Mmu State) : Prop where
  pages : PagesOk m₀.pm
  sound : Sound m₀.mem k.kmap (frames .vm m₀.pm)
  clear : ∀ i, KernelPage i → Clear m₀.mem k.kmap (pagePath (BitVec.ofNat 64 i))

def StartsOn (k : Setup) (m₀ : Mmu State) (s : Arenas) : Prop :=
  ∃ va wired irql, vaKernelInit k va wired ⟨[], 0, 0⟩ irql m₀ = .ok (s.wired, s.world) ∧
    s.liveVa = [] ∧ s.liveWired = []

theorem Ready.backs (h : Ready k m₀) : Backs k m₀ [] m₀ := by
  refine ⟨h.pages, h.sound, h.clear, by simp, List.nodup_nil, by simp, List.nodup_nil,
    fun _ _ _ => .inr rfl, fun _ _ _ hq _ => .inr (.inr hq)⟩

structure BackedInv (k : Setup) (m₀ : Mmu State) (s : Arenas) : Prop where
  arenas : ArenasInv 0 s
  paid : ∀ fuel, Paid (wiredOps k fuel) ∅ s.wired
  backed : ∃ bs, Backed k m₀ s.liveVa s.world.ext bs

theorem BackedInv.init (hready : Ready k m₀) (hs : StartsOn k m₀ s) : BackedInv k m₀ s := by
  rcases hs with ⟨va, wired, irql, he, hva, hwired⟩
  have harenas : ArenasInv 0 s := .init ⟨va, wired, irql, m₀, he, hva, hwired⟩
  unfold vaKernelInit at he
  rcases Except.bind_eq_ok he with ⟨⟨va1, pool1⟩, he1, he⟩
  rcases s with ⟨wired', world, liveVa, liveWired⟩
  cases he
  cases hva
  have hpool0 : (vmemBootstrap ⟨[], 0, 0⟩).Conserved 0 ([] ++ []) := .vmemBootstrap
  rcases vmemInit_spec hpool0.ok (by decide) (by decide) he1 with ⟨hopened, _⟩
  refine ⟨harenas, ?_, [], ?_, ?_⟩
  . intro fuel
    refine ⟨Set.empty_subset _, ?_, ?_⟩
    . intro y hy
      cases hy
    . intro y hy
      cases hy
  . dsimp only
    rw [hopened.allocs]
    exact ⟨by simp, List.nodup_nil⟩
  . exact hready.backs

theorem BackedInv.step (hcfg : k.cfg.disableAsserts = false) {op : ArenasOp} (h : BackedInv k m₀ s)
    (hstep : ArenasStep k s op s')
    : BackedInv k m₀ s' := by
  have hnext := h.arenas.step hcfg hstep
  rcases h.backed with ⟨bs, hlists, hbacks⟩
  have hholds := h.arenas.holds
  have hinside : ∀ ext held, Holds {r | r ∈ s.liveVa} ext held → ∀ r ∈ held, r.1 + r.2 < 2 ^ 64 := by
    intro ext held hheld r hr
    have := hheld.va.alloc_inside (hheld.mem hr)
    have := kernelTop_lt
    omega
  cases op with
  | vaAlloc size flag =>
    rcases hstep with ⟨hsize, fuel, addr, va', wva, he, rfl⟩
    have hpool := h.arenas.pool_va.ok
    have halloc := hholds.va.alloc hcfg hpool hsize.pos hsize.lt hsize.pages he
    have hbacks' := (hholds.va.serves hpool s.world.irql s.world.ext.mmu).alloc_kept
      (vaSource k s.wired.segqueue) (vaKept k m₀ s.wired.segqueue _) (by decide) pageSize_eq hcfg
      hsize.pos hsize.lt hsize.pages hbacks he
    refine ⟨hnext, h.paid, bs, ?_, hbacks'⟩
    dsimp only
    rw [halloc.allocs]
    exact (hlists.cons halloc.new).perm List.perm_middle.symm
  | vaFree addr size =>
    rcases hstep with ⟨hmem, va', wva, he, rfl⟩
    have hpool := h.arenas.pool_va.ok
    have hr := hholds.symm.mem hmem
    have hbacks' := (hholds.va.serves hpool s.world.irql s.world.ext.mmu).free_kept
      (vaKept k m₀ s.wired.segqueue _) (by decide) hr hbacks he
    refine ⟨hnext, h.paid, bs, ?_, hbacks'⟩
    dsimp only
    rw [(hholds.va.free hpool hr he).2.2]
    exact (hlists.perm (((List.perm_cons_erase hmem).append_left _).trans List.perm_middle)).of_cons
  | wiredAlloc size flag =>
    rcases hstep with ⟨hsize, fuel, addr, wired', w', he, rfl⟩
    have hsource := wiredSource hcfg fuel {r | r ∈ s.liveVa}
    refine ⟨hnext, ?_, ?_⟩
    . intro fuel'
      exact ((h.paid fuel).alloc hsource hinside (by decide) pageSize_eq hcfg hsize.pos hsize.lt
        hsize.pages h.arenas.serves he).of_ops (fun _ => nofun)
    . exact h.arenas.serves.alloc_kept hsource (wiredKept hcfg m₀ fuel s.liveVa) (by decide)
        pageSize_eq hcfg hsize.pos hsize.lt hsize.pages ⟨bs, hlists, hbacks⟩ he
  | wiredFree addr size =>
    rcases hstep with ⟨hmem, fuel, wired', w', he, rfl⟩
    have hr := (h.arenas.wired.mem _).mp hmem
    refine ⟨hnext, ?_, ?_⟩
    . intro fuel'
      exact ((h.paid fuel').freed (fun _ => nofun) h.arenas.serves.good.inv
        (h.arenas.serves.free_outcome (by decide) hr he))
    . exact h.arenas.serves.free_kept (wiredKept hcfg m₀ fuel s.liveVa) (by decide) hr
        ⟨bs, hlists, hbacks⟩ he

theorem BackedInv.blocks {bs : List (Nat × List PagePtr)} (h : BackedInv k m₀ s)
    (hb : Backed k m₀ s.liveVa s.world.ext bs)
    : (bs.map blockRange).Perm s.liveWired := by
  have hholds := h.arenas.holds
  have hspans := (h.paid 0).allocs_eq h.arenas.serves.good.inv
  rcases List.nodup_append.mp hb.1.nodup with ⟨hnodup, _, hdisjoint⟩
  apply (List.perm_ext_iff_of_nodup hnodup h.arenas.wired.nodup).mpr
  intro r
  rw [h.arenas.wired.mem, hspans]
  constructor
  . intro hr
    have hmem := (hb.1.mem r).mp (List.mem_append_left _ hr)
    rw [hholds.allocs] at hmem
    rcases hmem with hmem | hmem
    . exact hmem
    . exact absurd rfl (hdisjoint r hr r hmem)
  . intro hr
    rcases List.mem_append.mp ((hb.1.mem r).mpr (hholds.mem hr)) with hmem | hmem
    . exact hmem
    . exact absurd hmem (Set.disjoint_left.mp hholds.disjoint hr)

theorem BackedInv.free {bs : List (Nat × List PagePtr)} {b : Nat × List PagePtr} (h : BackedInv k m₀ s)
    (hbs : Backed k m₀ s.liveVa s.world.ext bs) (hb : b ∈ bs) (hirql : s.world.irql ≤ irqlDispatch)
    (fuel : Nat)
    : ∃ wired' w', vmKfree k fuel s.wired s.world b.1 b.2.length = .ok (wired', w') ∧
        Unwired k (blockPages b) s.world.ext.mmu w'.ext.mmu := by
  have hva := h.arenas.holds.va
  have hgood := h.arenas.serves.good
  have hlt : b.2.length * pageSize < 2 ^ 64 := by
    have hinside : memKernelStart ≤ b.1 ∧ b.1 + b.2.length * pageSize ≤ kernelTop :=
      hva.alloc_inside (hbs.mem hb)
    have := kernelTop_lt
    omega
  have hmem : blockRange b ∈ s.liveWired := (h.blocks hbs).mem_iff.mp (List.mem_map_of_mem hb)
  have hr := (h.arenas.wired.mem _).mp hmem
  have hacquire : check k.cfg (s.world.irql ≤ irqlDispatch) = .ok () := check_of _ (by simpa using hirql)
  have hout := vmemXfree_spec (wiredOps k fuel) hgood.inv h.arenas.serves.lock hacquire hr
    (hgood.two_le (by decide) hr)
  rcases (h.paid fuel).released hgood.inv nofun hr hout with ⟨free, vmp', pool', hfree, hmoves, hres⟩
  cases hfree
  have hpool : s.world.pool.Ok (s.wired.segqueue ++ tags s.world.ext) := h.arenas.conserved.ok
  rcases hbs.freewired_returns (w := ⟨pool', irqlDispatch, s.world.ext⟩) hva (hpool.of_moves hmoves) hb
    (Nat.le_refl _) with ⟨w', hw'⟩
  have hunwired := (hbs.freewired (w := ⟨pool', irqlDispatch, s.world.ext⟩) hva (hpool.of_moves hmoves)
    hb hw').2
  refine ⟨vmp', { w' with irql := s.world.irql }, ?_, hunwired⟩
  unfold vmKfree vmemFree
  rw [Word.mul_eq hlt]
  rw [hw'] at hres
  exact hres

structure Accounted (k : Setup) (m₀ : Mmu State) (s : Arenas) (bs : List (Nat × List PagePtr))
    : Prop where
  blocks : (bs.map blockRange).Perm s.liveWired
  behind : ∀ x ∈ bs.flatMap blockPages, IsBehind k s.world.ext.mmu x.1 x.2
  distinct : ((bs.flatMap blockPages).map Prod.snd).Nodup
  elsewhere : ∀ w, Canonical w → (∀ r ∈ s.liveWired, ¬ (r.1 ≤ w.toNat ∧ w.toNat < r.1 + r.2)) →
    hardwareWalk s.world.ext.mmu.mem k.kmap w = none ∨
      hardwareWalk s.world.ext.mmu.mem k.kmap w = hardwareWalk m₀.mem k.kmap w
  others : ∀ u a p, HasFrame s.world.ext.mmu.pm u a p → p ∉ (bs.flatMap blockPages).map Prod.snd →
    u = .free ∨ u = .vm ∨ HasFrame m₀.pm u a p
  free : ∀ b ∈ bs, s.world.irql ≤ irqlDispatch → ∀ fuel, ∃ wired' w',
    vmKfree k fuel s.wired s.world b.1 b.2.length = .ok (wired', w') ∧
      Unwired k (blockPages b) s.world.ext.mmu w'.ext.mmu

theorem BackedInv.accounted (h : BackedInv k m₀ s) : ∃ bs, Accounted k m₀ s bs := by
  rcases h.backed with ⟨bs, hbs⟩
  have hblocks := h.blocks hbs
  refine ⟨bs, hblocks, hbs.2.behind, hbs.2.distinct, ?_, hbs.2.others, ?_⟩
  . intro w hw hout
    apply hbs.2.elsewhere w hw
    rintro ⟨x, hx, hpage⟩
    rcases List.mem_flatMap.mp hx with ⟨b, hb, hxb⟩
    have hxb := of_mem_pagesFrom hxb
    have hin := (hbs.2.keys x hx).inPageAt.mp hpage
    apply hout _ (hblocks.mem_iff.mp (List.mem_map_of_mem hb))
    dsimp only [blockRange]
    omega
  . intro b hb hirql fuel
    exact h.free hbs hb hirql fuel

/--
Every page of every live block of wired memory has a physical page of its own behind it, and a block
that is freed gives back just its pages.
-/
theorem wired_memory_accounted (hcfg : k.cfg.disableAsserts = false) (hready : Ready k m₀)
    (hr : Reach (StartsOn k m₀) (ArenasStep k) s)
    : ∃ bs, Accounted k m₀ s bs := by
  have h : BackedInv k m₀ s := by
    refine hr.invariant (fun s hs => .init hready hs) ?_
    intro s op s' h hstep
    exact h.step hcfg hstep
  exact h.accounted

end Run

theorem wired_memory_accounted_small
    : ∃ m₀ s, Ready smallSetup m₀ ∧ Reach (StartsOn smallSetup m₀) (ArenasStep smallSetup) s ∧
        s.liveVa.length = 1 ∧ s.liveWired.length = 1 ∧ ∃ bs, Accounted smallSetup m₀ s bs := by
  have hreturns : smallRun.map (fun _ => ()) = .ok () := by decide +kernel
  rcases Except.map_eq_ok hreturns with ⟨s, hs, _⟩
  have hmap := hs
  rcases Except.bind_eq_ok hmap with ⟨⟨kmap, m₀⟩, hmap, _⟩
  rcases smallMap_blank hmap with ⟨hok, hrefines⟩
  have hready : Ready smallSetup m₀ := ⟨hok, hrefines.sound, fun i _ => hrefines.clear _⟩
  have hinit : ∀ kmap mmu wired w, smallMap = .ok (kmap, mmu) →
      vaKernelInit smallSetup blankVmem blankVmem ⟨[], 0, 0⟩ 0 mmu = .ok (wired, w) →
      StartsOn smallSetup m₀ ⟨wired, w, [], []⟩ := by
    intro kmap mmu wired w hmap' hstart
    rw [hmap] at hmap'
    cases hmap'
    exact ⟨_, _, _, hstart, rfl, rfl⟩
  rcases smallRun_reach hinit hs with ⟨hreach, hva, hwired⟩
  exact ⟨m₀, s, hready, hreach, hva, hwired, wired_memory_accounted rfl hready hreach⟩

end Kmem
end Nyy
