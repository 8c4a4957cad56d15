import NyyKernel.Vmem.Xalloc

namespace Nyy
namespace Vmem

variable {vmp vmp' : Vmem}

def Grown (vmp vmp' : Vmem) (size : Nat) : Prop :=
  ∀ x ∈ vmp'.segqueue, (vmp'.seg x).type = .free →
    (x ∈ vmp.segqueue ∧ vmp'.seg x = vmp.seg x) ∨ (vmp'.seg x).size = size

theorem Grown.refl (vmp : Vmem) (size : Nat) : Grown vmp vmp size := fun _ hx _ => .inl ⟨hx, rfl⟩

theorem Grown.trans {vmp'' : Vmem} {size : Nat} (h : Grown vmp vmp' size) (h' : Grown vmp' vmp'' size)
    : Grown vmp vmp'' size := by
  intro x hx ht
  rcases h' x hx ht with ⟨hx', heq⟩ | hsize
  . rw [heq] at ht ⊢
    exact h x hx' ht
  . exact .inr hsize

def NoRest (cfg : Config) (vmp : Vmem) (req : XallocReq) : Prop :=
  ∀ x ∈ vmp.segqueue, (vmp.seg x).type = .free → ∀ start,
    (effective vmp.quantum req).fit cfg vmp x = .ok (some start) →
      (vmp.seg x).base + (vmp.seg x).size = start + req.size ∨
        Word.sub vmp.quantum 1 < (vmp.seg x).base + (vmp.seg x).size - (start + req.size)

section Loop

variable {τ : Type} {cfg : Config} {ops : VmemOps τ} {others : τ → List SegId}
  {J : τ → Set (Nat × Nat) → Prop} {vmp vmp' : Vmem} {w w' : World τ} {mine : List SegId} {req : XallocReq}
  {fuel : Nat}

theorem Good.import_grown (hs : Source ops 1 others J) (h : Good 1 others J vmp w mine) {size : Nat}
    {flag : BitVec 32} (hpos : 0 < size) (hlt : size < 2 ^ 64)
    (he : vmemImport cfg ops vmp w size flag = .ok (true, vmp', w'))
    : Grown vmp vmp' size := by
  rcases vmemImport_eq_ok he with ⟨alloc, addr, w1, nf, pool, halloc, hcall, _, hadd, _⟩
  have hpool := (hs.alloc halloc h.source h.pool hpos hlt (one_dvd _) hcall).1
  rw [List.append_assoc] at hpool
  rcases vmemAddInternal_writes hpool hadd with ⟨ns, hns, hnf, _, _, hw⟩
  intro x hx ht
  by_cases hxs : x = ns
  . rw [hxs, hw.span] at ht
    cases ht
  . by_cases hxf : x = nf
    . right
      rw [hxf, hw.free]
    . left
      rw [hw.queue] at hx
      refine ⟨?_, hw.other x hxs hxf⟩
      simpa [hxs, hxf] using hx

theorem Good.loop_grown (hs : Source ops 1 others J) (hpos : 0 < req.size) (hlt : req.size < 2 ^ 64)
    {first : Nat} {found : SegId × Nat} (h : Good 1 others J vmp w mine)
    (he : xallocLoop cfg ops req fuel first vmp w = .ok (some found, vmp', w'))
    : Grown vmp vmp' req.size := by
  refine (xallocLoop_rule (P := fun v w => Good 1 others J v w mine ∧ Grown vmp v req.size)
    ⟨h, .refl _ _⟩ ?_ he).1.2
  rintro vmp1 w1 vmp2 w2 ⟨h1, hgrown⟩ himport
  exact ⟨(h1.import hs hpos hlt (one_dvd _) himport).1,
    hgrown.trans (h1.import_grown hs hpos hlt himport)⟩

theorem Xalloced.exact (hs : Source ops 1 others J) {addr : Nat} {newSeg newSeg2 x : SegId}
    {vmp3 vmp4 : Vmem} {w3 : World τ} {pool4 : SegPool} (hreq : Request vmp.quantum req)
    (hrest : NoRest cfg vmp req)
    (h : Xalloced cfg ops others J fuel req vmp w newSeg newSeg2 x vmp3 w3 vmp4 pool4 addr vmp' w')
    : vmp'.ranges [] .allocated = insert (addr, req.size) (vmp.ranges [] .allocated) := by
  rcases h.found.allocs with ⟨sz, hle, hsz, hallocs⟩
  have hhigh := h.high
  have hlow := h.low
  have heq : sz = req.size := by
    rcases hsz with hsz | ⟨hsz, hsmall⟩
    . exact hsz
    . have hpos : 0 < (effective vmp.quantum req).size := hreq.pos
      rcases h.loop with ⟨first, w2, hgood, hloop⟩
      rcases hgood.loop_grown hs hpos hreq.size hloop x h.mem h.free with
        ⟨hx, hseg⟩ | hwhole
      . -- a segment from before: the guard is about what `seg_fit` says there
        have hquantum : vmp3.quantum = vmp.quantum := h.keeps.quantum
        have hfree := h.free
        have hfit := h.fit
        unfold XallocReq.fit at hfit
        rw [hseg] at hfree hfit hhigh hlow hsz
        have := hrest x hx hfree addr hfit
        rw [hquantum] at hsmall
        change addr + req.size ≤ (vmp.seg x).base + (vmp.seg x).size at hhigh
        change sz = (vmp.seg x).base + (vmp.seg x).size - addr at hsz
        omega
      . -- an imported one has no room for a rest
        change (vmp3.seg x).size = req.size at hwhole
        omega
  have hold : vmp3.ranges [] .allocated = vmp.ranges [] .allocated := h.keeps.allocs
  rw [h.arena, ← hold, ← heq]
  exact hallocs

end Loop

section Run

variable {τ : Type} (cfg : Config) (ops : VmemOps τ) (others : τ → List SegId)
  (J : τ → Set (Nat × Nat) → Prop)

def HeldStart (s : ArenaState τ) : Prop := VmemStart cfg others J ⟨s.vmp, s.world⟩ ∧ s.live = []

def HeldStep (s : ArenaState τ) : VmemOp → ArenaState τ → Prop
  | .add addr size, s' => s'.live = s.live ∧
    VmemStep cfg ops J ⟨s.vmp, s.world⟩ (.add addr size) ⟨s'.vmp, s'.world⟩
  | .xalloc req, s' => Request s.vmp.quantum req ∧ ∃ fuel addr,
    vmemXalloc cfg ops fuel s.vmp s.world req = .ok (addr, s'.vmp, s'.world) ∧
    s'.live = (addr, req.size) :: s.live
  | .xfree addr size, s' => (addr, size) ∈ s.live ∧
    vmemXfree cfg ops s.vmp s.world addr size = .ok (s'.vmp, s'.world) ∧
    s'.live = s.live.erase (addr, size)

def HeldGuard (top : Nat) (s : ArenaState τ) : VmemOp → Prop
  | .xalloc req => NoWrap cfg ops top s.vmp req ∧ NoRest cfg s.vmp req
  | _ => True

end Run

section Run

variable {τ : Type} {cfg : Config} {ops : VmemOps τ} {others : τ → List SegId}
  {J : τ → Set (Nat × Nat) → Prop} {top : Nat} {s s' : ArenaState τ}

structure HeldInv (others : τ → List SegId) (J : τ → Set (Nat × Nat) → Prop) (s : ArenaState τ)
    : Prop where
  vmem : VmemInv others J ⟨s.vmp, s.world⟩
  live : Lists s.live (s.vmp.ranges [] .allocated)

theorem HeldInv.init (h : HeldStart cfg others J s) : HeldInv others J s := by
  refine ⟨.init h.1, ?_, ?_⟩
  . rcases h.1 with ⟨ret, pool, base, size, quantum, source, hfits, hlt, hpool, he, hJ⟩
    have hallocs := (vmemInit_spec hpool hfits hlt he).1.allocs
    intro r
    rw [h.2, hallocs]
    simp
  . rw [h.2]
    exact List.nodup_nil

theorem HeldInv.step (hs : Source ops 1 others J) (hcfg : cfg.disableAsserts = false) (hbelow : Below J top)
    (htop : top < 2 ^ 64) {op : VmemOp} (h : HeldInv others J s)
    (hstep : Guarded (HeldGuard cfg ops top) (HeldStep cfg ops J) s op s')
    : HeldInv others J s' := by
  rcases hstep with ⟨hguard, hstep⟩
  cases op with
  | add addr size =>
    rcases hstep with ⟨hlive, hstep⟩
    have hguarded : Guarded (NoWrapStep cfg ops top) (VmemStep cfg ops J) ⟨s.vmp, s.world⟩
        (.add addr size) ⟨s'.vmp, s'.world⟩ := ⟨trivial, hstep⟩
    refine ⟨h.vmem.step hs hcfg hbelow htop hguarded, ?_⟩
    rcases hstep with ⟨hpos, hfits, hlt, hdis, hJ, he, _⟩
    have hkeeps := (h.vmem.good.add hpos ⟨hfits, hlt⟩ ⟨one_dvd _, one_dvd _⟩ hdis hJ he).2.1
    rw [hlive, hkeeps.allocs]
    exact h.live
  | xalloc req =>
    rcases hstep with ⟨hreq, fuel, addr, he, hlive⟩
    refine ⟨h.vmem.xalloc hs hcfg hbelow htop hreq hguard.1 he, ?_⟩
    rcases h.vmem.good.xalloc hs hcfg hbelow htop hreq hguard.1 he with ⟨newSeg, newSeg2, x, vmp3, w3,
      vmp4, pool4, hx, _⟩
    have hnew := hx.not_allocated req.size
    rw [hx.keeps.allocs] at hnew
    rw [hlive, hx.exact hs hreq hguard.2]
    exact h.live.cons hnew
  | xfree addr size =>
    rcases hstep with ⟨hmem, he, hlive⟩
    have hr := (h.live.mem _).mp hmem
    have hguarded : Guarded (NoWrapStep cfg ops top) (VmemStep cfg ops J) ⟨s.vmp, s.world⟩
        (.xfree addr size) ⟨s'.vmp, s'.world⟩ := ⟨trivial, hr, he⟩
    refine ⟨h.vmem.step hs hcfg hbelow htop hguarded, ?_⟩
    rcases h.vmem.good.xfree hs h.vmem.lock hr (h.vmem.two_le _ hr) he with ⟨_, _, _, hallocs, _⟩
    rw [hlive, hallocs]
    exact h.live.erase _

theorem free_accepts (hs : Source ops 1 others J) (hcfg : cfg.disableAsserts = false) (hbelow : Below J top)
    (htop : top < 2 ^ 64)
    (hr : Reach (HeldStart cfg others J) (Guarded (HeldGuard cfg ops top) (HeldStep cfg ops J)) s)
    {addr size : Nat} (hmem : (addr, size) ∈ s.live)
    : ∃ x, xfreeFind s.vmp addr = some x ∧ (s.vmp.seg x).type = .allocated ∧
        (s.vmp.seg x).size = size := by
  have h : HeldInv others J s := by
    refine hr.invariant (fun s hs => HeldInv.init hs) ?_
    intro s op s' h hstep
    exact h.step hs hcfg hbelow htop hstep
  rcases (h.live.mem _).mp hmem with ⟨x, hx, _, ht, hrange⟩
  cases hrange
  exact ⟨x, h.vmem.good.inv.xfreeFind hx ht, ht, rfl⟩

end Run

def allocFrom (size : Nat) : Except Fault (Vmem × SegPool × Nat × Vmem × World Unit) := do
  let (vmp, pool) ← arenaAt 0x8000 0x10000 4096 false
  let (addr, vmp', w') ← vmemAlloc ⟨false⟩ ownSpan 1 vmp ⟨pool, 0, ()⟩ size 0
  return (vmp, pool, addr, vmp', w')

def Low (_ : Unit) (held : Set (Nat × Nat)) : Prop := ∀ r ∈ held, r.1 + r.2 ≤ 2 ^ 32

theorem allocFrom_eq_ok {size addr : Nat} {pool : SegPool} {w' : World Unit} (hpos : 0 < size)
    (hlt : size < 2 ^ 64) (he : allocFrom size = .ok (vmp, pool, addr, vmp', w'))
    (hsegs : vmp.quantum = 4096 ∧ vmp.segqueue.map vmp.range = [(0x8000, 0x10000), (0x8000, 0x10000)])
    : HeldStart ⟨false⟩ (fun _ => []) Low ⟨vmp, ⟨pool, 0, ()⟩, []⟩ ∧
        HeldStep ⟨false⟩ ownSpan Low ⟨vmp, ⟨pool, 0, ()⟩, []⟩
          (.xalloc ⟨size, 0, 0, 0, vmemAddrMin, vmemAddrMax, 0⟩) ⟨vmp', w', [(addr, size)]⟩ ∧
        ∀ x ∈ vmp.segqueue, vmp.range x = (0x8000, 0x10000) := by
  rcases Except.bind_eq_ok he with ⟨⟨_, _⟩, hinit, he⟩
  rcases Except.bind_eq_ok he with ⟨⟨_, _, _⟩, halloc, he⟩
  cases he
  have hall : ∀ x ∈ vmp.segqueue, vmp.range x = (0x8000, 0x10000) := by
    intro x hx
    have hmem := List.mem_map_of_mem (f := vmp.range) hx
    rw [hsegs.2] at hmem
    simpa using hmem
  refine ⟨⟨vmemStart_arenaAt hinit (by decide) (by decide) ?_, rfl⟩, ⟨?_, 1, addr, halloc, rfl⟩, hall⟩
  . rintro r ⟨x, hx, _, _, rfl⟩
    rw [hall x hx]
    decide
  . rw [hsegs.1]
    exact ⟨hpos, hlt, ⟨12, by decide, rfl⟩, show 0 < 4096 by decide,
      show vmemAddrMin ≤ vmemAddrMax by decide, show vmemAddrMax < 2 ^ 64 by decide⟩

theorem free_accepts_split
    : ∃ s : ArenaState Unit, s.live = [(0x8000, 0x1800)] ∧
        ∃ x, xfreeFind s.vmp 0x8000 = some x ∧ (s.vmp.seg x).type = .allocated ∧
          (s.vmp.seg x).size = 0x1800 := by
  have hrun : (allocFrom 0x1800).map (fun r : Vmem × SegPool × Nat × Vmem × World Unit =>
      decide ((r.1.quantum = 4096 ∧ r.1.segqueue.map r.1.range = [(0x8000, 0x10000), (0x8000, 0x10000)]) ∧
        r.2.2.1 = 0x8000)) = .ok true := by
    set_option maxRecDepth 4096 in decide
  rcases Except.map_eq_ok hrun with ⟨⟨vmp, pool, addr, vmp', w'⟩, he, hfacts⟩
  rcases of_decide_eq_true hfacts with ⟨hsegs, haddr⟩
  rcases allocFrom_eq_ok (by decide) (by decide) he hsegs with ⟨hstart, hstep, hall⟩
  dsimp only at haddr
  subst haddr
  have hrest : NoRest ⟨false⟩ vmp ⟨0x1800, 0, 0, 0, vmemAddrMin, vmemAddrMax, 0⟩ := by
    intro x hx _ start hfit
    have hbase : (vmp.seg x).base = 0x8000 := congrArg Prod.fst (hall x hx)
    have hsize : (vmp.seg x).size = 0x10000 := congrArg Prod.snd (hall x hx)
    rw [hsegs.1] at hfit
    have hstart := (segFit_aligned (k := 12) (hbase ▸ by decide) (by decide) (hsize ▸ by decide)
      (by omega) hfit).1
    right
    rw [hsegs.1, hstart, hbase, hsize]
    decide
  have hwrap : NoWrap ⟨false⟩ ownSpan (2 ^ 32) vmp ⟨0x1800, 0, 0, 0, vmemAddrMin, vmemAddrMax, 0⟩ := by
    left
    rw [hsegs.1]
    decide
  have hguarded : Guarded (HeldGuard ⟨false⟩ ownSpan (2 ^ 32)) (HeldStep ⟨false⟩ ownSpan Low)
      ⟨vmp, ⟨pool, 0, ()⟩, []⟩ (.xalloc ⟨0x1800, 0, 0, 0, vmemAddrMin, vmemAddrMax, 0⟩)
      ⟨vmp', w', [(0x8000, 0x1800)]⟩ := ⟨⟨hwrap, hrest⟩, hstep⟩
  exact ⟨_, rfl, free_accepts (ownSpan_source 1) rfl (fun _ _ hheld => hheld) (by decide)
    (.next (.start hstart) hguarded) (List.mem_singleton_self _)⟩

theorem kept_rest_not_freed
    : ∃ s s' : ArenaState Unit,
        HeldStart ⟨false⟩ (fun _ => []) Low s ∧
        HeldStep ⟨false⟩ ownSpan Low s (.xalloc ⟨0xF800, 0, 0, 0, vmemAddrMin, vmemAddrMax, 0⟩) s' ∧
        s'.live = [(0x8000, 0xF800)] ∧
        (∃ x, xfreeFind s'.vmp 0x8000 = some x ∧ (s'.vmp.seg x).size = 0x10000) ∧
        vmemFree ⟨false⟩ ownSpan s'.vmp s'.world 0x8000 0xF800 = .error .assertion := by
  have hrun : (allocFrom 0xF800).map (fun r : Vmem × SegPool × Nat × Vmem × World Unit =>
      decide ((r.1.quantum = 4096 ∧ r.1.segqueue.map r.1.range = [(0x8000, 0x10000), (0x8000, 0x10000)]) ∧
        r.2.2.1 = 0x8000 ∧
        (xfreeFind r.2.2.2.1 0x8000).map (fun x => (r.2.2.2.1.seg x).size) = some 0x10000 ∧
        (vmemFree ⟨false⟩ ownSpan r.2.2.2.1 r.2.2.2.2 0x8000 0xF800).map
          (fun _ : Vmem × World Unit => ()) = .error .assertion)) = .ok true := by
    set_option maxRecDepth 4096 in decide
  rcases Except.map_eq_ok hrun with ⟨⟨vmp, pool, addr, vmp', w'⟩, he, hfacts⟩
  rcases of_decide_eq_true hfacts with ⟨hsegs, haddr, hfind, hfree⟩
  rcases allocFrom_eq_ok (by decide) (by decide) he hsegs with ⟨hstart, hstep, _⟩
  dsimp only at haddr
  subst haddr
  refine ⟨_, _, hstart, hstep, rfl, by simpa using hfind, ?_⟩
  cases hresult : vmemFree ⟨false⟩ ownSpan vmp' w' 0x8000 0xF800 with
  | ok r =>
    rw [hresult] at hfree
    cases hfree
  | error e =>
    rw [hresult] at hfree
    cases hfree
    rfl

end Vmem
end Nyy
