import NyyKernel.Lib.Run
import NyyKernel.Vmem.Lemmas.Alloc
import NyyKernel.Vmem.Lemmas.Free
import NyyKernel.Vmem.Lemmas.Search

namespace Nyy
namespace Vmem

variable {live : List (Nat × Nat)}

structure Source {τ : Type} (ops : VmemOps τ) (q : Nat) (others : τ → List SegId)
    (J : τ → Set (Nat × Nat) → Prop) : Prop where
  pages : ∀ {ext ext' held}, J ext held → ops.allocPages ext = .ok ext' →
    J ext' held ∧ others ext' = others ext
  alloc : ∀ {alloc}, ops.alloc = some alloc → ∀ {w w' size flag addr held mine},
    J w.ext held → w.pool.Ok (mine ++ others w.ext) → 0 < size → size < 2 ^ 64 → q ∣ size →
    alloc size flag w = .ok (addr, w') →
    w'.pool.Ok (mine ++ others w'.ext) ∧
      (addr = 0 → J w'.ext held) ∧
      (addr ≠ 0 → q ∣ addr ∧ addr + size ≤ 2 ^ 64 ∧
        (∀ r ∈ held, RangeDisjoint (addr, size) r) ∧ J w'.ext (insert (addr, size) held))
  free : ∀ {free}, ops.free = some free → ∀ {w w' held mine} {r : Nat × Nat},
    J w.ext held → w.pool.Ok (mine ++ others w.ext) → r ∈ held → free r.1 r.2 w = .ok w' →
    w'.pool.Ok (mine ++ others w'.ext) ∧ J w'.ext (held \ {r})

structure Good {τ : Type} (q : Nat) (others : τ → List SegId) (J : τ → Set (Nat × Nat) → Prop) (vmp : Vmem)
    (w : World τ) (mine : List SegId) : Prop where
  inv : Inv vmp []
  pool : w.pool.Ok ((vmp.segqueue ++ mine) ++ others w.ext)
  source : J w.ext (vmp.ranges [] .span)
  spans : ∀ r ∈ vmp.ranges [] .span, q ∣ r.1 ∧ q ∣ r.2
  allocs : ∀ r ∈ vmp.ranges [] .allocated, q ∣ r.1 ∧ q ∣ r.2

structure Keeps (vmp vmp' : Vmem) : Prop where
  allocs : vmp'.ranges [] .allocated = vmp.ranges [] .allocated
  lock : vmp'.lock = vmp.lock
  quantum : vmp'.quantum = vmp.quantum

theorem Keeps.refl (vmp : Vmem) : Keeps vmp vmp := ⟨rfl, rfl, rfl⟩

theorem Keeps.trans {vmp1 vmp2 vmp3 : Vmem} (h12 : Keeps vmp1 vmp2) (h23 : Keeps vmp2 vmp3)
    : Keeps vmp1 vmp3 := by
  constructor
  . rw [h23.allocs, h12.allocs]
  . rw [h23.lock, h12.lock]
  . rw [h23.quantum, h12.quantum]

section Operations

variable {τ : Type} {cfg : Config} {ops : VmemOps τ} {q fuel first start addr : Nat}
  {others : τ → List SegId} {J : τ → Set (Nat × Nat) → Prop} {vmp vmp' ret : Vmem} {w w' : World τ}
  {mine : List SegId} {flag : BitVec 32} {req : XallocReq} {x newSeg newSeg2 : SegId} {pool' pool : SegPool}
  {ext : τ} {source : Bool} {r : Nat × Nat}

theorem vmemImport_eq_ok {size : Nat} (h : vmemImport cfg ops vmp w size flag = .ok (true, vmp', w'))
    : ∃ alloc addr w1 nf pool, ops.alloc = some alloc ∧ alloc size flag w = .ok (addr, w1) ∧
        addr ≠ 0 ∧ vmemAddInternal cfg vmp w1.pool addr size true = .ok (nf, vmp', pool) ∧
        w' = { w1 with pool := pool } := by
  unfold vmemImport at h
  split at h
  . cases h
  . next alloc halloc =>
    rcases Except.bind_eq_ok h with ⟨⟨addr, w1⟩, hcall, h⟩
    dsimp only at h
    split at h
    . cases h
    . next haddr =>
      rcases Except.bind_eq_ok h with ⟨⟨nf, vmp1, pool⟩, hadd, h⟩
      cases h
      exact ⟨alloc, addr, w1, nf, pool, halloc, hcall, haddr, hadd, rfl⟩

theorem xallocLoop_cases {found : SegId × Nat}
    (he : xallocLoop cfg ops req fuel first vmp w = .ok (some found, vmp', w'))
    : ∃ first1 fuel1 found1, xallocPass cfg req first vmp = .ok (found1, first1) ∧
        fuel = fuel1 + 1 ∧
        ((found1 = some found ∧ vmp' = vmp ∧ w' = w) ∨
          (found1 = none ∧ ∃ vmp1 w1,
            vmemImport cfg ops vmp w req.size req.vmflag = .ok (true, vmp1, w1) ∧
            xallocLoop cfg ops req fuel1 first1 vmp1 w1 = .ok (some found, vmp', w'))) := by
  cases fuel with
  | zero => cases he
  | succ fuel =>
    unfold xallocLoop at he
    rcases Except.bind_eq_ok he with ⟨⟨f, first1⟩, hpass, he⟩
    refine ⟨first1, fuel, f, hpass, rfl, ?_⟩
    cases f with
    | some f =>
      cases he
      exact .inl ⟨rfl, rfl, rfl⟩
    | none =>
      rcases Except.bind_eq_ok he with ⟨⟨imported, vmp1, w1⟩, himport, he⟩
      cases imported with
      | true => exact .inr ⟨rfl, vmp1, w1, himport, he⟩
      | false =>
        rcases Except.bind_eq_ok he with ⟨_, _, he⟩
        cases he

theorem xallocLoop_rule {P : Vmem → World τ → Prop} {found : SegId × Nat} (h : P vmp w)
    (himport : ∀ {vmp1 w1 vmp2 w2}, P vmp1 w1 →
      vmemImport cfg ops vmp1 w1 req.size req.vmflag = .ok (true, vmp2, w2) → P vmp2 w2)
    (he : xallocLoop cfg ops req fuel first vmp w = .ok (some found, vmp', w'))
    : P vmp' w' ∧ ∃ first1 first2, xallocPass cfg req first1 vmp' = .ok (some found, first2) := by
  induction fuel generalizing first vmp w with
  | zero => cases he
  | succ fuel ih =>
    rcases xallocLoop_cases he with ⟨first1, fuel1, f, hpass, hfuel, hcases⟩
    cases hfuel
    rcases hcases with ⟨rfl, rfl, rfl⟩ | ⟨rfl, vmp1, w1, hsome, he⟩
    . exact ⟨h, first, first1, hpass⟩
    . exact ih (himport h hsome) he

section

variable {size : Nat} (hs : Source ops q others J) (h : Good q others J vmp w mine) (hpos : 0 < size)
  (hlt : size < 2 ^ 64) (hq : q ∣ size) (he : vmemImport cfg ops vmp w size flag = .ok (true, vmp', w'))

include hs h hpos hlt hq he

theorem Good.import_added
    : ∃ alloc addr w1 nf pool, ops.alloc = some alloc ∧ alloc size flag w = .ok (addr, w1) ∧
        addr ≠ 0 ∧ vmemAddInternal cfg vmp w1.pool addr size true = .ok (nf, vmp', pool) ∧
        w' = { w1 with pool := pool } ∧ w1.pool.Ok (vmp.segqueue ++ (mine ++ others w1.ext)) ∧
        Added vmp w1.pool (addr, size) nf vmp' pool ∧ q ∣ addr ∧
        (∀ r ∈ vmp.ranges [] .span, RangeDisjoint (addr, size) r) ∧
        J w1.ext (insert (addr, size) (vmp.ranges [] .span)) := by
  rcases vmemImport_eq_ok he with ⟨alloc, addr, w1, nf, pool, halloc, hcall, haddr, hadd, hw'⟩
  rcases hs.alloc halloc h.source h.pool hpos hlt hq hcall with ⟨hpool, _, hrange⟩
  rcases hrange haddr with ⟨hdvd, hfits, hdis, hJ⟩
  rw [List.append_assoc] at hpool
  exact ⟨alloc, addr, w1, nf, pool, halloc, hcall, haddr, hadd, hw', hpool,
    vmemAddInternal_spec h.inv hpool hpos ⟨hfits, hlt⟩ hdis hadd, hdvd, hdis, hJ⟩

theorem Good.import : Good q others J vmp' w' mine ∧ Keeps vmp vmp' := by
  rcases h.import_added hs hpos hlt hq he with ⟨_, addr, w1, nf, pool, _, _, _, _, rfl, hpool, hadded,
    hdvd, _, hJ⟩
  refine ⟨⟨hadded.inv, ?_, ?_, ?_, ?_⟩, hadded.allocs, hadded.lock, hadded.quantum⟩
  . rw [List.append_assoc]
    exact hpool.of_moves hadded.moves
  . rw [hadded.spans]
    exact hJ
  . rw [hadded.spans]
    rintro r (rfl | hr)
    . exact ⟨hdvd, hq⟩
    . exact h.spans r hr
  . rw [hadded.allocs]
    exact h.allocs

end

theorem Good.loop (hs : Source ops q others J) (hpos : 0 < req.size) (hlt : req.size < 2 ^ 64)
    (hq : q ∣ req.size) (h : Good q others J vmp w mine)
    (he : xallocLoop cfg ops req fuel first vmp w = .ok (some (x, start), vmp', w'))
    : Good q others J vmp' w' mine ∧ Keeps vmp vmp' ∧
        (∃ i, x ∈ vmp'.freelist i) ∧ req.fit cfg vmp' x = .ok (some start) := by
  rcases xallocLoop_rule (P := fun v w => Good q others J v w mine ∧ Keeps vmp v) ⟨h, .refl _⟩
    (fun h1 himport => (h1.1.import hs hpos hlt hq himport).imp_right h1.2.trans) he with
    ⟨⟨h1, hkeeps⟩, _, _, hpass⟩
  exact ⟨h1, hkeeps, xallocPass_spec hpass⟩

theorem xallocLoop_ne_none (hcfg : cfg.disableAsserts = false) {r : Vmem × World τ}
    : xallocLoop cfg ops req fuel first vmp w ≠ .ok (none, r) := by
  induction fuel generalizing first vmp w with
  | zero =>
    intro he
    cases he
  | succ fuel ih =>
    intro he
    unfold xallocLoop at he
    rcases Except.bind_eq_ok he with ⟨⟨found, first'⟩, _, he⟩
    cases found with
    | some f => cases he
    | none =>
      rcases Except.bind_eq_ok he with ⟨⟨imported, vmp1, w1⟩, _, he⟩
      dsimp only at he
      split at he
      . exact ih he
      . rcases Except.bind_eq_ok he with ⟨_, hcheck, _⟩
        have := check_eq_ok hcheck
        simp [hcfg] at this

theorem Good.segAlloc (h : Good q others J vmp w mine) (he : Nyy.segAlloc cfg w.pool = .ok (x, pool'))
    : Good q others J vmp { w with pool := pool' } (x :: mine) ∧ x ∉ vmp.segqueue ++ mine := by
  have hnot := h.pool.not_mem_of_segAlloc he
  have hmoves : w.pool.Moves (vmp.segqueue ++ mine) pool' (vmp.segqueue ++ x :: mine) :=
    (SegPool.Moves.segAlloc he).trans (.of_perm List.perm_middle)
  refine ⟨⟨h.inv, h.pool.of_moves hmoves, h.source, h.spans, h.allocs⟩, ?_⟩
  intro hmem
  exact hnot (List.mem_append_left _ hmem)

theorem xallocRepopulate_spec (he : Nyy.xallocRepopulate cfg ops flag w = .ok w')
    : Refilled ops w w'.pool w'.ext ∧ w'.irql = w.irql := by
  unfold Nyy.xallocRepopulate assertRepopulate at he
  split at he
  . split at he
    . cases he
      exact ⟨.inl ⟨rfl, rfl⟩, rfl⟩
    . exact repopulateSegments_spec he
  . cases he
    exact ⟨.inl ⟨rfl, rfl⟩, rfl⟩

theorem Good.refilled (hs : Source ops q others J) (h : Good q others J vmp w mine)
    (hr : Refilled ops w pool ext) (irql : Nat)
    : Good q others J vmp ⟨pool, irql, ext⟩ mine := by
  have hpool := hr.ok h.pool
  rcases hr with ⟨_, rfl⟩ | ⟨_, hext⟩
  . exact ⟨h.inv, hpool, h.source, h.spans, h.allocs⟩
  . have := hs.pages h.source hext
    exact ⟨h.inv, this.2 ▸ hpool, this.1, h.spans, h.allocs⟩

theorem Good.two_le (h : Good q others J vmp w mine) (hq : 2 ≤ q) (hr : r ∈ vmp.ranges [] .allocated)
    : 2 ≤ r.2 := by
  have hdvd := (h.allocs r hr).2
  rcases hr with ⟨x, hx, _, _, rfl⟩
  exact Nat.le_trans hq (Nat.le_of_dvd (h.inv.size_pos hx) hdvd)

theorem Good.freed (h : Good q others J vmp w []) (hf : Freed vmp w.pool r vmp' pool')
    (hpool : w'.pool.Ok (vmp'.segqueue ++ others w'.ext)) (hsource : J w'.ext (vmp'.ranges [] .span))
    (hspans : vmp'.ranges [] .span ⊆ vmp.ranges [] .span)
    : Good q others J vmp' w' [] := by
  refine ⟨hf.inv, ?_, hsource, fun r hr => h.spans r (hspans hr), ?_⟩
  . rw [List.append_nil]
    exact hpool
  . intro s hs
    rw [hf.allocs] at hs
    exact h.allocs s hs.1

theorem acquire_eq_ok {vmp1 : Vmem} {w1 : World τ} (he : spinlockAcquireRaise cfg vmp w = .ok (vmp1, w1))
    : check cfg (w.irql ≤ irqlDispatch) = .ok () ∧ vmp.lock = false ∧
        vmp1 = { vmp with lock := true } ∧ w1 = { w with irql := irqlDispatch } := by
  unfold spinlockAcquireRaise at he
  rcases Except.bind_eq_ok he with ⟨_, hcheck, he⟩
  split at he
  . cases he
  . next hlock =>
    cases he
    exact ⟨hcheck, by simpa using hlock, rfl, rfl⟩

structure Serves (q : Nat) (others : τ → List SegId) (J : τ → Set (Nat × Nat) → Prop) (vmp : Vmem)
    (w : World τ) : Prop where
  good : Good q others J vmp w []
  lock : vmp.lock = false
  quantum : vmp.quantum = q

def allocReq (quantum size : Nat) (flag : BitVec 32) : XallocReq :=
  ⟨size, quantum, 0, 0, vmemAddrMin, vmemAddrMax, (flag &&& ~~~ vmInstantfit) ||| vmBestfit⟩

def effective (quantum : Nat) (req : XallocReq) : XallocReq :=
  { req with
    align := if req.align = 0 then quantum else req.align
    vmflag := (req.vmflag &&& ~~~ vmInstantfit) ||| vmBestfit }

def xallocEnter (cfg : Config) (ops : VmemOps τ) (vmp : Vmem) (w : World τ) (req : XallocReq)
    : Except Fault (Fin 64 × SegId × SegId × Vmem × World τ) := do
  let (vmp, w) ← spinlockAcquireRaise cfg vmp w
  let first ← freelistForSize req.size
  check cfg (req.nocross == 0)
  assertAligned cfg (effective vmp.quantum req).align vmp.quantum
  let w ← Nyy.xallocRepopulate cfg ops (effective vmp.quantum req).vmflag w
  let (newSeg, pool) ← Nyy.segAlloc cfg w.pool
  let (newSeg2, pool) ← Nyy.segAlloc cfg pool
  return (first, newSeg, newSeg2, vmp, { w with pool := pool })

theorem xallocEnter_eq_ok {first : Fin 64} {newSeg newSeg2 : SegId}
    (he : xallocEnter cfg ops vmp w req = .ok (first, newSeg, newSeg2, vmp', w'))
    : ∃ w2 pool1 pool2, freelistForSize req.size = .ok first ∧
        check cfg (req.nocross == 0) = .ok () ∧
        Nyy.xallocRepopulate cfg ops (effective vmp.quantum req).vmflag
          { w with irql := irqlDispatch } = .ok w2 ∧
        Nyy.segAlloc cfg w2.pool = .ok (newSeg, pool1) ∧
        Nyy.segAlloc cfg pool1 = .ok (newSeg2, pool2) ∧ vmp.lock = false ∧
        vmp' = { vmp with lock := true } ∧ w' = { w2 with pool := pool2 } := by
  unfold xallocEnter at he
  rcases Except.bind_eq_ok he with ⟨⟨vmp1, w1⟩, hacquire, he⟩
  rcases Except.bind_eq_ok he with ⟨first1, hfirst, he⟩
  rcases Except.bind_eq_ok he with ⟨_, hnocross, he⟩
  rcases Except.bind_eq_ok he with ⟨_, _, he⟩
  rcases Except.bind_eq_ok he with ⟨w2, hrepop, he⟩
  rcases Except.bind_eq_ok he with ⟨⟨x, pool1⟩, hseg1, he⟩
  rcases Except.bind_eq_ok he with ⟨⟨y, pool2⟩, hseg2, he⟩
  cases he
  rcases acquire_eq_ok hacquire with ⟨_, hlock, rfl, rfl⟩
  exact ⟨w2, pool1, pool2, hfirst, hnocross, hrepop, hseg1, hseg2, hlock, rfl, rfl⟩

theorem vmemXalloc_eq (fuel : Nat) (vmp : Vmem) (w : World τ) (req : XallocReq)
    : vmemXalloc cfg ops fuel vmp w req = (do
        let (first, newSeg, newSeg2, vmp1, w1) ← xallocEnter cfg ops vmp w req
        let (found, vmp2, w2) ← xallocLoop cfg ops (effective vmp.quantum req) fuel first.val vmp1 w1
        match found with
        | none => return (0, vmp2, w2)
        | some (x, start) =>
          let (ret, vmp3, pool) ← xallocFound cfg vmp2 w2.pool x start newSeg newSeg2 req.size
          return (ret, { vmp3 with lock := false }, ⟨pool, w.irql, w2.ext⟩)) := by
  unfold vmemXalloc xallocEnter
  simp only [bind_assoc, pure_bind]
  apply Except.bind_congr
  rintro ⟨vmp1, w1⟩ hacquire
  rcases acquire_eq_ok hacquire with ⟨_, _, rfl, rfl⟩
  rfl

theorem vmemXalloc_eq_ok (hcfg : cfg.disableAsserts = false)
    (he : vmemXalloc cfg ops fuel vmp w req = .ok (addr, vmp', w'))
    : ∃ first w2 newSeg pool1 newSeg2 pool2 x start vmp3 w3 vmp4 pool4,
        vmp.lock = false ∧ freelistForSize req.size = .ok first ∧
        Nyy.xallocRepopulate cfg ops (effective vmp.quantum req).vmflag
          { w with irql := irqlDispatch } = .ok w2 ∧
        Nyy.segAlloc cfg w2.pool = .ok (newSeg, pool1) ∧
        Nyy.segAlloc cfg pool1 = .ok (newSeg2, pool2) ∧
        xallocLoop cfg ops (effective vmp.quantum req) fuel first.val { vmp with lock := true }
          { w2 with pool := pool2 } = .ok (some (x, start), vmp3, w3) ∧
        xallocFound cfg vmp3 w3.pool x start newSeg newSeg2 req.size = .ok (addr, vmp4, pool4) ∧
        vmp' = { vmp4 with lock := false } ∧ w' = ⟨pool4, w.irql, w3.ext⟩ := by
  rw [vmemXalloc_eq] at he
  rcases Except.bind_eq_ok he with ⟨⟨first, newSeg, newSeg2, vmp1, w1⟩, henter, he⟩
  rcases Except.bind_eq_ok he with ⟨⟨found, vmp3, w3⟩, hloop, he⟩
  rcases xallocEnter_eq_ok henter with ⟨w2, pool1, pool2, hfirst, _, hrepop, hseg1, hseg2, hlock, rfl, rfl⟩
  cases found with
  | none => exact absurd hloop (xallocLoop_ne_none hcfg)
  | some f =>
    rcases f with ⟨x, start⟩
    rcases Except.bind_eq_ok he with ⟨⟨ret, vmp4, pool4⟩, hplace, he⟩
    cases he
    exact ⟨first, w2, newSeg, pool1, newSeg2, pool2, x, start, vmp3, w3, vmp4, pool4, hlock, hfirst,
      hrepop, hseg1, hseg2, hloop, hplace, rfl, rfl⟩

theorem Good.found {size : Nat} (hpos : 0 < size) (h : Good q others J vmp w [newSeg2, newSeg])
    (hx : x ∈ vmp.segqueue) (ht : (vmp.seg x).type = .free) (hlo : (vmp.seg x).base ≤ start)
    (hhi : start + size ≤ (vmp.seg x).base + (vmp.seg x).size)
    (he : xallocFound cfg vmp w.pool x start newSeg newSeg2 size = .ok (addr, vmp', pool'))
    : addr = start ∧ Found vmp w.pool [newSeg, newSeg2] x start size vmp' pool' ∧
        CountsAlloc vmp.stat vmp' start ∧ pool'.Ok ((vmp'.segqueue ++ []) ++ others w.ext) := by
  have hnodup := (List.nodup_append.mp (List.nodup_append.mp h.pool.nodup).2.1).1
  rw [List.nodup_append] at hnodup
  have hne : newSeg ≠ newSeg2 := by
    rintro rfl
    simp at hnodup
  have hn : newSeg ∉ vmp.segqueue := by
    intro hmem
    exact hnodup.2.2 newSeg hmem newSeg (by simp) rfl
  have hn2 : newSeg2 ∉ vmp.segqueue := by
    intro hmem
    exact hnodup.2.2 newSeg2 hmem newSeg2 (by simp) rfl
  rcases xallocFound_spec h.inv hx ht hn hn2 hne hpos hlo hhi he with ⟨haddr, hres, hcounts⟩
  refine ⟨haddr, hres, hcounts, ?_⟩
  have hmoves : w.pool.Moves (vmp.segqueue ++ [newSeg2, newSeg]) pool' (vmp'.segqueue ++ []) := by
    rw [List.append_nil]
    refine SegPool.Moves.trans (.of_perm ?_) hres.moves
    exact List.perm_append_comm.trans ((List.Perm.swap _ _ _).append_left _)
  exact h.pool.of_moves hmoves

theorem Good.fit_aligned {k : Nat} (hk : k < 64) (hqk : q = 2 ^ k) {size : Nat}
    (h : Good q others J vmp w mine) (hx : ∃ i, x ∈ vmp.freelist i)
    (hfit : (allocReq q size flag).fit cfg vmp x = .ok (some start))
    : x ∈ vmp.segqueue ∧ (vmp.seg x).type = .free ∧ start = (vmp.seg x).base ∧
        size ≤ (vmp.seg x).size := by
  rcases hx with ⟨i, hx⟩
  have hon := (h.inv.freelist.mem x i).mp hx
  have haligned := h.inv.aligned h.spans h.allocs hon.1
  refine ⟨hon.1, hon.2.2.1, ?_⟩
  apply segFit_aligned (k := k) (hqk ▸ haligned.1) hk (h.inv.size_pos hon.1)
    (h.inv.bounded hon.1).1
  rw [← hqk]
  exact hfit

theorem Good.take {k : Nat} (hk : k < 64) (hqk : q = 2 ^ k) {size : Nat} (hpos : 0 < size) (hdvd : q ∣ size)
    (h : Good q others J vmp w [newSeg2, newSeg]) (hquantum : vmp.quantum = q)
    (hx : ∃ i, x ∈ vmp.freelist i) (hfit : (allocReq q size flag).fit cfg vmp x = .ok (some start))
    (he : xallocFound cfg vmp w.pool x start newSeg newSeg2 size = .ok (addr, vmp', pool'))
    : Good q others J vmp' { w with pool := pool' } [] ∧
        vmp'.ranges [] .allocated = insert (addr, size) (vmp.ranges [] .allocated) ∧
        (addr, size) ∉ vmp.ranges [] .allocated ∧
        vmp'.ranges [] .span = vmp.ranges [] .span ∧ Markers vmp vmp' ∧ vmp'.quantum = q ∧
        addr = start := by
  rcases h.fit_aligned hk hqk hx hfit with ⟨hxq, ht, hstart⟩
  have haligned := h.inv.aligned h.spans h.allocs hxq
  rcases h.found hpos hxq ht (by omega) (by omega) he with ⟨rfl, hres, _, hpool⟩
  rcases hres.allocs with ⟨sz, hle, hsz, hallocs⟩
  have hszeq : sz = size := by
    rcases hsz with hsz | ⟨hsz, hrest⟩
    . exact hsz
    . have hqpos : 0 < q := hqk ▸ Nat.two_pow_pos k
      have hqlt : q < 2 ^ 64 := hqk ▸ Nat.pow_lt_pow_right (by omega) hk
      rw [hquantum, Word.sub_eq hqlt hqpos] at hrest
      have hsz' : sz = (vmp.seg x).size := by omega
      have hdvd' : q ∣ sz - size := Nat.dvd_sub (hsz' ▸ haligned.2) hdvd
      have := Nat.eq_zero_of_dvd_of_lt hdvd' (by omega)
      omega
  subst hszeq
  refine ⟨⟨hres.inv, hpool, ?_, ?_, ?_⟩, hallocs, ?_, hres.spans, hres.markers,
    hres.quantum.trans hquantum, rfl⟩
  . rw [hres.spans]
    exact h.source
  . rw [hres.spans]
    exact h.spans
  . intro r hr
    rw [hallocs] at hr
    rcases hr with rfl | hr
    . rw [hstart.1]
      exact ⟨haligned.1, hdvd⟩
    . exact h.allocs r hr
  . rintro ⟨y, hy, _, hyt, hrange⟩
    have hbase : (vmp.seg y).base = (vmp.seg x).base := (congrArg Prod.fst hrange).trans hstart.1
    have hyx := h.inv.eq_of_base_eq hy hxq (by simp [hyt]) (by simp [ht]) hbase
    rw [hyx, ht] at hyt
    cases hyt

theorem Good.prologue (hs : Source ops q others J) {w2 : World τ} {pool1 pool2 : SegPool}
    (h : Good q others J vmp w [])
    (hrepop : Nyy.xallocRepopulate cfg ops flag { w with irql := irqlDispatch } = .ok w2)
    (hseg1 : Nyy.segAlloc cfg w2.pool = .ok (newSeg, pool1))
    (hseg2 : Nyy.segAlloc cfg pool1 = .ok (newSeg2, pool2))
    : Refilled ops w w2.pool w2.ext ∧ w2.irql = irqlDispatch ∧
        w2.pool.Moves vmp.segqueue pool2 (vmp.segqueue ++ [newSeg2, newSeg]) ∧
        Good q others J { vmp with lock := true } { w2 with pool := pool2 } [newSeg2, newSeg] := by
  have h1 : Good q others J { vmp with lock := true } { w with irql := irqlDispatch } [] :=
    ⟨h.inv.of_eq rfl rfl rfl rfl, h.pool, h.source, h.spans, h.allocs⟩
  rcases xallocRepopulate_spec hrepop with ⟨hrefilled, hirql⟩
  have h2 : Good q others J { vmp with lock := true } w2 [] := h1.refilled hs hrefilled w2.irql
  rcases h2.segAlloc hseg1 with ⟨h3, _⟩
  rcases h3.segAlloc hseg2 with ⟨h4, _⟩
  refine ⟨hrefilled, hirql, ?_, h4⟩
  exact ((SegPool.Moves.segAlloc hseg1).trans (.segAlloc hseg2)).trans (.of_perm List.perm_append_comm)

theorem Serves.search (hs : Source ops q others J) (hcfg : cfg.disableAsserts = false) {size : Nat}
    (h : Serves q others J vmp w) (he : vmemAlloc cfg ops fuel vmp w size flag = .ok (addr, vmp', w'))
    : ∃ first pool0 ext2 pool2 newSeg newSeg2 x start vmp3 w3 vmp4 pool4,
        Refilled ops w pool0 ext2 ∧
        pool0.Moves vmp.segqueue pool2 (vmp.segqueue ++ [newSeg2, newSeg]) ∧
        freelistForSize size = .ok first ∧
        Good q others J { vmp with lock := true } ⟨pool2, irqlDispatch, ext2⟩ [newSeg2, newSeg] ∧
        xallocLoop cfg ops (allocReq q size flag) fuel first.val { vmp with lock := true }
          ⟨pool2, irqlDispatch, ext2⟩ = .ok (some (x, start), vmp3, w3) ∧
        xallocFound cfg vmp3 w3.pool x start newSeg newSeg2 size = .ok (addr, vmp4, pool4) ∧
        vmp' = { vmp4 with lock := false } ∧ w' = ⟨pool4, w.irql, w3.ext⟩ := by
  rcases vmemXalloc_eq_ok hcfg he with ⟨first, w2, newSeg, pool1, newSeg2, pool2, x, start, vmp3, w3,
    vmp4, pool4, _, hfirst, hrepop, hseg1, hseg2, hloop, hplace, hvmp', hw'⟩
  rcases h.good.prologue hs hrepop hseg1 hseg2 with ⟨hrefilled, hirql, hmoves, h4⟩
  rcases w2 with ⟨pool0, irql2, ext2⟩
  cases hirql
  have hreq : effective vmp.quantum ⟨size, 0, 0, 0, vmemAddrMin, vmemAddrMax, flag⟩ =
      allocReq q size flag := by
    rw [h.quantum]
    rfl
  rw [hreq] at hloop
  exact ⟨first, pool0, ext2, pool2, newSeg, newSeg2, x, start, vmp3, w3, vmp4, pool4, hrefilled, hmoves,
    hfirst, h4, hloop, hplace, hvmp', hw'⟩

theorem Serves.alloc_pos (hs : Source ops q others J) (hcfg : cfg.disableAsserts = false) {size : Nat}
    (h : Serves q others J vmp w) (he : vmemAlloc cfg ops fuel vmp w size flag = .ok (addr, vmp', w'))
    : 0 < size := by
  rcases h.search hs hcfg he with ⟨first, _, _, _, _, _, _, _, _, _, _, _, _, _, hfirst, _⟩
  by_contra hzero
  rw [Nat.eq_zero_of_not_pos hzero] at hfirst
  cases hfirst

theorem Serves.alloc (hs : Source ops q others J) {k : Nat} (hk : k < 64) (hqk : q = 2 ^ k)
    (hcfg : cfg.disableAsserts = false) {fuel size addr : Nat} {flag : BitVec 32} (hpos : 0 < size)
    (hlt : size < 2 ^ 64) (hdvd : q ∣ size) (h : Serves q others J vmp w)
    (he : vmemAlloc cfg ops fuel vmp w size flag = .ok (addr, vmp', w'))
    : Serves q others J vmp' w' ∧
        vmp'.ranges [] .allocated = insert (addr, size) (vmp.ranges [] .allocated) ∧
        (addr, size) ∉ vmp.ranges [] .allocated ∧ w'.irql = w.irql := by
  rcases h.search hs hcfg he with ⟨first, pool0, ext2, pool2, newSeg, newSeg2, x, start, vmp3, w3, vmp4,
    pool4, _, _, _, h4, hloop, hplace, rfl, rfl⟩
  rcases h4.loop hs hpos hlt hdvd hloop with ⟨h5, hkeeps, hfound⟩
  rcases hfound with ⟨hx, hfit⟩
  have hold : vmp3.ranges [] .allocated = vmp.ranges [] .allocated := hkeeps.allocs
  rcases h5.take hk hqk hpos hdvd (hkeeps.quantum.trans h.quantum) hx hfit hplace with
    ⟨h6, hallocs, hnew, _, _, hquantum, _⟩
  rw [hold] at hallocs hnew
  refine ⟨⟨⟨h6.inv.of_eq rfl rfl rfl rfl, h6.pool, h6.source, h6.spans, h6.allocs⟩, rfl, hquantum⟩,
    hallocs, hnew, rfl⟩

theorem Good.xfree_outcome {size : Nat} (h : Good q others J vmp w []) (hlock : vmp.lock = false)
    (hr : (addr, size) ∈ vmp.ranges [] .allocated) (htwo : 2 ≤ size)
    (he : vmemXfree cfg ops vmp w addr size = .ok (vmp', w'))
    : XfreeOutcome ops vmp w (addr, size) (.ok (vmp', w')) := by
  have hacquire : check cfg (w.irql ≤ irqlDispatch) = .ok () := by
    unfold vmemXfree at he
    rcases Except.bind_eq_ok he with ⟨⟨vmp1, w1⟩, hacquire, _⟩
    exact (acquire_eq_ok hacquire).1
  rw [← he]
  exact vmemXfree_spec ops h.inv hlock hacquire hr htwo

theorem Good.xfree (hs : Source ops q others J) {size : Nat} (h : Good q others J vmp w [])
    (hlock : vmp.lock = false) (hr : (addr, size) ∈ vmp.ranges [] .allocated) (htwo : 2 ≤ size)
    (he : vmemXfree cfg ops vmp w addr size = .ok (vmp', w'))
    : Good q others J vmp' w' [] ∧ vmp'.lock = false ∧ vmp'.quantum = vmp.quantum ∧
        vmp'.ranges [] .allocated = vmp.ranges [] .allocated \ {(addr, size)} ∧
        w'.irql = w.irql := by
  have hok : ∀ pool2 : SegPool, w.pool.Moves vmp.segqueue pool2 vmp'.segqueue →
      pool2.Ok (vmp'.segqueue ++ others w.ext) := by
    intro pool2 hmoves
    have hpool := h.pool
    rw [List.append_nil] at hpool
    exact hpool.of_moves hmoves
  cases h.xfree_outcome hlock hr htwo he with
  | kept vmp2 pool2 hres hfreed hspans _ =>
    cases hres
    refine ⟨h.freed hfreed (hok pool2 hfreed.moves) ?_ hspans.subset, hfreed.lock, hfreed.quantum,
      hfreed.allocs, rfl⟩
    rw [hspans]
    exact h.source
  | released free span vmp2 pool2 hfree hres hfreed hspan _ _ hspans =>
    rcases Except.map_eq_ok hres.symm with ⟨w1, hw1, heq⟩
    cases heq
    have hafter := hs.free hfree (w := ⟨pool2, irqlDispatch, w.ext⟩) h.source (hok pool2 hfreed.moves)
      hspan hw1
    refine ⟨h.freed hfreed hafter.1 ?_ ?_, hfreed.lock, hfreed.quantum, hfreed.allocs, rfl⟩
    . rw [hspans]
      exact hafter.2
    . rw [hspans]
      exact Set.sdiff_subset

theorem Serves.free_outcome (hq : 2 ≤ q) {size : Nat} (h : Serves q others J vmp w)
    (hr : (addr, size) ∈ vmp.ranges [] .allocated) (he : vmemFree cfg ops vmp w addr size = .ok (vmp', w'))
    : XfreeOutcome ops vmp w (addr, size) (.ok (vmp', w')) :=
  h.good.xfree_outcome h.lock hr (h.good.two_le hq hr) he

theorem Serves.free (hs : Source ops q others J) (hq : 2 ≤ q) {addr size : Nat}
    (h : Serves q others J vmp w) (hr : (addr, size) ∈ vmp.ranges [] .allocated)
    (he : vmemFree cfg ops vmp w addr size = .ok (vmp', w'))
    : Serves q others J vmp' w' ∧
        vmp'.ranges [] .allocated = vmp.ranges [] .allocated \ {(addr, size)} ∧
        w'.irql = w.irql := by
  rcases h.good.xfree hs h.lock hr (h.good.two_le hq hr) he with ⟨hgood, hlock, hquantum, hallocs, hirql⟩
  exact ⟨⟨hgood, hlock, hquantum.trans h.quantum⟩, hallocs, hirql⟩

theorem Serves.free_returns (hq : 2 ≤ q) {size : Nat} (h : Serves q others J vmp w)
    (hr : (addr, size) ∈ vmp.ranges [] .allocated) (hirql : w.irql ≤ irqlDispatch)
    (hfree : ∀ free, ops.free = some free → ∀ r ∈ vmp.ranges [] .span, ∀ w1 : World τ,
      w1.ext = w.ext → ∃ w2, free r.1 r.2 w1 = .ok w2)
    : ∃ r, vmemFree cfg ops vmp w addr size = .ok r := by
  have hacquire : check cfg (w.irql ≤ irqlDispatch) = .ok () := check_of cfg (by simpa using hirql)
  unfold vmemFree
  cases vmemXfree_spec ops h.good.inv h.lock hacquire hr (h.good.two_le hq hr) with
  | kept vmp2 pool2 hres _ _ _ => exact ⟨_, hres⟩
  | released free span vmp2 pool2 hops hres _ hspan _ _ _ =>
    rcases hfree free hops span hspan ⟨pool2, irqlDispatch, w.ext⟩ rfl with ⟨w2, hw2⟩
    rw [hres, hw2]
    exact ⟨_, rfl⟩

theorem Good.add {size : Nat} (h : Good q others J vmp w []) (hpos : 0 < size)
    (hfits : addr + size ≤ 2 ^ 64 ∧ size < 2 ^ 64) (hdvd : q ∣ addr ∧ q ∣ size)
    (hdis : ∀ r ∈ vmp.ranges [] .span, RangeDisjoint (addr, size) r)
    (hJ : J w.ext (insert (addr, size) (vmp.ranges [] .span)))
    (he : vmemAdd cfg vmp w.pool addr size = .ok (vmp', pool'))
    : Good q others J vmp' { w with pool := pool' } [] ∧ Keeps vmp vmp' ∧
        vmp'.ranges [] .span = insert (addr, size) (vmp.ranges [] .span) := by
  unfold vmemAdd at he
  rcases Except.bind_eq_ok he with ⟨_, _, he⟩
  rcases Except.bind_eq_ok he with ⟨⟨nf, vmp1, pool1⟩, hadd, he⟩
  cases he
  have hpool := h.pool
  rw [List.append_nil] at hpool
  have hinv : Inv { vmp with stat := { vmp.stat with
      free := Word.add vmp.stat.free size
      total := Word.add vmp.stat.total size } } [] := h.inv.of_eq rfl rfl rfl rfl
  have hadded := vmemAddInternal_spec hinv hpool hpos hfits hdis hadd
  have hspans : vmp'.ranges [] .span = insert (addr, size) (vmp.ranges [] .span) := hadded.spans
  have hallocs : vmp'.ranges [] .allocated = vmp.ranges [] .allocated := hadded.allocs
  refine ⟨⟨hadded.inv, ?_, ?_, ?_, ?_⟩, ⟨hallocs, hadded.lock, hadded.quantum⟩, hspans⟩
  . rw [List.append_nil]
    exact hpool.of_moves hadded.moves
  . rw [hspans]
    exact hJ
  . rw [hspans]
    rintro r (rfl | hr)
    . exact hdvd
    . exact h.spans r hr
  . rw [hallocs]
    exact h.allocs

theorem ranges_of_empty (t : SegType) (h : vmp.segqueue = []) : vmp.ranges [] t = ∅ := by
  ext r
  simp [ranges, h]

structure Opened (vmp : Vmem) (pool pool' : SegPool) (own : Set (Nat × Nat)) : Prop where
  inv : Inv vmp []
  moves : SegPool.Moves pool [] pool' vmp.segqueue
  spans : vmp.ranges [] .span = own
  allocs : vmp.ranges [] .allocated = ∅
  lock : vmp.lock = false

theorem vmemInit_spec {base size quantum : Nat} {ids : List SegId} (hpool : pool.Ok ids)
    (hfits : base + size ≤ 2 ^ 64) (hlt : size < 2 ^ 64)
    (he : vmemInit cfg ret pool base size quantum source = .ok (vmp, pool'))
    : Opened vmp pool pool' (if !source && size != 0 then {(base, size)} else ∅) ∧
        vmp.quantum = quantum := by
  unfold vmemInit at he
  dsimp only at he
  split at he
  . next hc =>
    rw [if_pos hc]
    simp only [Bool.and_eq_true, bne_iff_ne, ne_eq] at hc
    unfold vmemAdd at he
    rcases Except.bind_eq_ok he with ⟨_, _, he⟩
    rcases Except.bind_eq_ok he with ⟨⟨nf, vmp1, pool1⟩, hadd, he⟩
    cases he
    have hpool0 : pool.Ok ([] ++ ids) := hpool
    have hadded := vmemAddInternal_spec (.empty rfl rfl rfl) hpool0 (by omega) ⟨hfits, hlt⟩
      (by simp [ranges_of_empty]) hadd
    refine ⟨⟨hadded.inv, hadded.moves, ?_, hadded.allocs.trans (ranges_of_empty _ rfl), hadded.lock⟩,
      hadded.quantum⟩
    rw [hadded.spans, ranges_of_empty _ rfl, insert_empty_eq]
  . next hc =>
    cases he
    rw [if_neg hc]
    exact ⟨⟨.empty rfl rfl rfl, .refl _ _, ranges_of_empty _ rfl, ranges_of_empty _ rfl, rfl⟩, rfl⟩

section

variable {base size : Nat} (irql : Nat) (hpool : pool.Ok (others ext)) (hbase : q ∣ base) (hsize : q ∣ size)
  (hfits : base + size ≤ 2 ^ 64) (hlt : size < 2 ^ 64)

include irql hpool hbase hsize hfits hlt

theorem Good.init {quantum : Nat} (he : vmemInit cfg ret pool base size quantum source = .ok (vmp, pool'))
    (hJ : J ext (vmp.ranges [] .span))
    : Good q others J vmp ⟨pool', irql, ext⟩ [] ∧ vmp.lock = false ∧ vmp.quantum = quantum ∧
        vmp.ranges [] .allocated = ∅ := by
  rcases vmemInit_spec hpool hfits hlt he with ⟨hopened, hquantum⟩
  refine ⟨⟨hopened.inv, ?_, hJ, ?_, ?_⟩, hopened.lock, hquantum, hopened.allocs⟩
  . rw [List.append_nil]
    exact SegPool.Ok.of_moves (q := []) hpool hopened.moves
  . rw [hopened.spans]
    split
    . simp [hbase, hsize]
    . simp
  . simp [hopened.allocs]

theorem Serves.init (he : vmemInit cfg ret pool base size q source = .ok (vmp, pool'))
    (hJ : J ext (vmp.ranges [] .span))
    : Serves q others J vmp ⟨pool', irql, ext⟩ ∧ vmp.ranges [] .allocated = ∅ := by
  rcases Good.init irql hpool hbase hsize hfits hlt he hJ with ⟨hgood, hlock, hquantum, hallocs⟩
  exact ⟨⟨hgood, hlock, hquantum⟩, hallocs⟩

end

end Operations

structure ArenaState (τ : Type) where
  vmp : Vmem
  world : World τ
  live : List (Nat × Nat)

inductive ArenaOp where
  | alloc (size : Nat) (vmflag : BitVec 32)
  | free (addr size : Nat)

section Run

variable {τ : Type} (cfg : Config) (ops : VmemOps τ) (q : Nat) (others : τ → List SegId)
  (J : τ → Set (Nat × Nat) → Prop)

def ArenaInit (s : ArenaState τ) : Prop :=
  ∃ (ret : Vmem) (pool : SegPool) (base size : Nat) (source : Bool),
    q ∣ base ∧ q ∣ size ∧ base + size ≤ 2 ^ 64 ∧ size < 2 ^ 64 ∧ pool.Ok (others s.world.ext) ∧
    vmemInit cfg ret pool base size q source = .ok (s.vmp, s.world.pool) ∧
    J s.world.ext (s.vmp.ranges [] .span) ∧ s.live = []

def ArenaStep (s : ArenaState τ) : ArenaOp → ArenaState τ → Prop
  | .alloc size vmflag, s' => 0 < size ∧ size < 2 ^ 64 ∧ q ∣ size ∧
    ∃ fuel addr, vmemAlloc cfg ops fuel s.vmp s.world size vmflag = .ok (addr, s'.vmp, s'.world) ∧
      s'.live = (addr, size) :: s.live
  | .free addr size, s' => (addr, size) ∈ s.live ∧
    vmemFree cfg ops s.vmp s.world addr size = .ok (s'.vmp, s'.world) ∧
      s'.live = s.live.erase (addr, size)

end Run

structure Consistent (vmp : Vmem) (live : List (Nat × Nat)) : Prop where
  groups : ∃ gs : List Tiling.Group,
    vmp.segqueue.map (fun x => (vmp.seg x).block) = gs.flatMap Tiling.Group.toList
  segqueue : vmp.segqueue.Nodup
  freelist : ∀ x ∈ vmp.segqueue, (vmp.seg x).type = .free →
    ∃ i : Fin 64, i.val + 1 = Nat.log2 (vmp.seg x).size ∧ ∀ j, x ∈ vmp.freelist j ↔ j = i
  freelist_only : ∀ i, (vmp.freelist i).Nodup ∧
    ∀ x ∈ vmp.freelist i, x ∈ vmp.segqueue ∧ (vmp.seg x).type = .free
  hashtable : ∀ x ∈ vmp.segqueue, (vmp.seg x).type = .allocated →
    ∀ j, x ∈ vmp.hashtable j ↔ j.val = murmur64 (vmp.seg x).base % 16
  hashtable_only : ∀ i, (vmp.hashtable i).Nodup ∧
    ∀ x ∈ vmp.hashtable i, x ∈ vmp.segqueue ∧ (vmp.seg x).type = .allocated
  allocated : ∀ r, r ∈ live ↔ r ∈ vmp.ranges [] .allocated
  disjoint : live.Pairwise RangeDisjoint
  inside : ∀ r ∈ live, ∃ x ∈ vmp.segqueue, (vmp.seg x).type = .span ∧
    (vmp.seg x).base ≤ r.1 ∧ r.1 + r.2 ≤ (vmp.seg x).base + (vmp.seg x).size

theorem Inv.consistent {vmp : Vmem} (h : Inv vmp []) (hlive : ∀ r, r ∈ live ↔ r ∈ vmp.ranges [] .allocated)
    (hnodup : live.Nodup)
    : Consistent vmp live := by
  refine ⟨?_, h.nodup, ?_, ?_, ?_, ?_, hlive, ?_, ?_⟩
  . rcases h.tiled.groups with ⟨gs, hgs⟩
    refine ⟨gs, ?_⟩
    rw [← hgs]
    apply List.map_congr_left
    intro x _
    rw [block_attached _ (by simp)]
    rfl
  . intro x hx ht
    rcases h.sized x hx (by simp) ht with ⟨i, hi⟩
    have hlog := freelistForSize_eq_ok hi (h.bounded hx).2
    refine ⟨i, ?_, ?_⟩
    . have : 1 ≤ Nat.log2 (vmp.seg x).size := (Nat.le_log2 (by omega)).mpr (by omega)
      omega
    . intro j
      rw [h.freelist.mem]
      simp [OnFreelist, hx, ht, hi, eq_comm]
  . intro i
    refine ⟨h.freelist.nodup i, ?_⟩
    intro x hx
    have := (h.freelist.mem x i).mp hx
    exact ⟨this.1, this.2.2.1⟩
  . intro x hx ht j
    rw [h.hashtable.mem]
    simp [OnHashtable, hx, ht, hashtableForAddr, Fin.ext_iff, eq_comm]
  . intro i
    refine ⟨h.hashtable.nodup i, ?_⟩
    intro x hx
    have := (h.hashtable.mem x i).mp hx
    exact ⟨this.1, this.2.2.1⟩
  . apply hnodup.pairwise_of_forall_ne
    intro r hr s hs hne
    rw [hlive] at hr hs
    exact h.ranges_pairwise (by simp) hr hs hne
  . intro r hr
    rw [hlive] at hr
    rcases h.ranges_inside (by simp) hr with ⟨s, ⟨x, hx, _, ht, rfl⟩, hin⟩
    exact ⟨x, hx, ht, hin⟩

structure Lists (live : List (Nat × Nat)) (allocs : Set (Nat × Nat)) : Prop where
  mem : ∀ r, r ∈ live ↔ r ∈ allocs
  nodup : live.Nodup

theorem Lists.cons {live : List (Nat × Nat)} {allocs : Set (Nat × Nat)} {r : Nat × Nat}
    (h : Lists live allocs) (hnew : r ∉ allocs)
    : Lists (r :: live) (insert r allocs) := by
  constructor
  . intro r'
    rw [List.mem_cons, Set.mem_insert_iff, h.mem]
  . rw [List.nodup_cons, h.mem]
    exact ⟨hnew, h.nodup⟩

theorem Lists.erase {allocs : Set (Nat × Nat)} (h : Lists live allocs) (r : Nat × Nat)
    : Lists (live.erase r) (allocs \ {r}) := by
  constructor
  . intro r'
    rw [h.nodup.mem_erase_iff, Set.mem_sdiff, Set.mem_singleton_iff, h.mem]
    exact and_comm
  . exact h.nodup.erase _

theorem Lists.perm {live' : List (Nat × Nat)} {allocs : Set (Nat × Nat)} (h : Lists live allocs)
    (hp : live.Perm live')
    : Lists live' allocs :=
  ⟨fun r => hp.mem_iff.symm.trans (h.mem r), hp.nodup_iff.mp h.nodup⟩

theorem Lists.of_cons {r : Nat × Nat} {allocs : Set (Nat × Nat)} (h : Lists (r :: live) allocs)
    : Lists live (allocs \ {r}) := by
  have herase := h.erase r
  rwa [List.erase_cons_head] at herase

section Run

variable {τ : Type} {cfg : Config} {ops : VmemOps τ} {q k : Nat} {others : τ → List SegId}
  {J : τ → Set (Nat × Nat) → Prop} {s : ArenaState τ}

structure ArenaInv (q : Nat) (others : τ → List SegId) (J : τ → Set (Nat × Nat) → Prop) (s : ArenaState τ)
    : Prop where
  serves : Serves q others J s.vmp s.world
  live : ∀ r, r ∈ s.live ↔ r ∈ s.vmp.ranges [] .allocated
  nodup : s.live.Nodup

theorem ArenaInv.init (h : ArenaInit cfg q others J s) : ArenaInv q others J s := by
  rcases h with ⟨ret, pool, base, size, source, hbase, hsize, hfits, hlt, hpool, he, hJ, hlive⟩
  have hinit := Serves.init s.world.irql hpool hbase hsize hfits hlt he hJ
  refine ⟨hinit.1, ?_, ?_⟩
  . simp [hlive, hinit.2]
  . simp [hlive]

section

variable (hs : Source ops q others J) (hk : 0 < k) (hk64 : k < 64) (hq : q = 2 ^ k)
  (hcfg : cfg.disableAsserts = false)

include hs hk hk64 hq hcfg

theorem ArenaInv.step {s' : ArenaState τ} {op : ArenaOp} (h : ArenaInv q others J s)
    (hstep : ArenaStep cfg ops q s op s')
    : ArenaInv q others J s' := by
  cases op with
  | alloc size vmflag =>
    rcases hstep with ⟨hpos, hlt, hdvd, fuel, addr, he, hlive⟩
    rcases h.serves.alloc hs hk64 hq hcfg hpos hlt hdvd he with ⟨hserves, hallocs, hnew, _⟩
    have hlists : Lists s'.live (s'.vmp.ranges [] .allocated) := by
      rw [hlive, hallocs]
      exact Lists.cons ⟨h.live, h.nodup⟩ hnew
    exact ⟨hserves, hlists.mem, hlists.nodup⟩
  | free addr size =>
    rcases hstep with ⟨hmem, he, hlive⟩
    have hq2 : 2 ≤ q := by
      rw [hq]
      exact Nat.le_self_pow (by omega) 2
    rcases h.serves.free hs hq2 ((h.live _).mp hmem) he with ⟨hserves, hallocs, _⟩
    have hlists : Lists s'.live (s'.vmp.ranges [] .allocated) := by
      rw [hlive, hallocs]
      exact Lists.erase ⟨h.live, h.nodup⟩ _
    exact ⟨hserves, hlists.mem, hlists.nodup⟩

theorem ArenaInv.reach (hr : Reach (ArenaInit cfg q others J) (ArenaStep cfg ops q) s)
    : ArenaInv q others J s := by
  refine hr.invariant (fun s hs => ArenaInv.init hs) ?_
  intro s op s' h hstep
  exact h.step hs hk hk64 hq hcfg hstep

end

theorem arena_consistent (hs : Source ops q others J) {k : Nat} (hk : 0 < k) (hk64 : k < 64)
    (hq : q = 2 ^ k) (hcfg : cfg.disableAsserts = false) {s : ArenaState τ}
    (hr : Reach (ArenaInit cfg q others J) (ArenaStep cfg ops q) s)
    : Consistent s.vmp s.live := by
  have hinv := ArenaInv.reach hs hk hk64 hq hcfg hr
  exact hinv.serves.good.inv.consistent hinv.live hinv.nodup

end Run

def ownSpan : VmemOps Unit := ⟨fun _ => .ok (), none, none⟩

theorem ownSpan_source (q : Nat) {J : Set (Nat × Nat) → Prop}
    : Source ownSpan q (fun _ => []) (fun _ => J) := by
  constructor
  . intro ext ext' held hJ _
    exact ⟨hJ, rfl⟩
  . intro alloc h
    cases h
  . intro free h
    cases h

def blankVmem : Vmem :=
  ⟨0, 0, 0, false, fun _ => ⟨.allocated, false, 0, 0⟩, [], fun _ => [], fun _ => [], ⟨0, 0, 0, 0⟩⟩

def arenaAt (base size quantum : Nat) (source : Bool) : Except Fault (Vmem × SegPool) :=
  vmemInit ⟨false⟩ blankVmem (vmemBootstrap ⟨[], 0, 0⟩) base size quantum source

theorem arena_consistent_page
    : ∃ s : ArenaState Unit,
        Reach (ArenaInit ⟨false⟩ 4096 (fun _ => []) (fun _ _ => True))
          (ArenaStep ⟨false⟩ ownSpan 4096) s ∧
        s.live = [(0x8000, 4096)] ∧ Consistent s.vmp s.live := by
  have hrun : (do
      let r ← arenaAt 0x8000 0x10000 4096 false
      vmemAlloc ⟨false⟩ ownSpan 1 r.1 ⟨r.2, 0, ()⟩ 4096 0).map Prod.fst = .ok 0x8000 := by
    decide +kernel
  rcases Except.map_eq_ok hrun with ⟨⟨addr, vmp2, w2⟩, hrun, haddr⟩
  rcases Except.bind_eq_ok hrun with ⟨⟨vmp1, pool1⟩, hinit, halloc⟩
  cases haddr
  have hreach : Reach (ArenaInit ⟨false⟩ 4096 (fun _ => []) (fun _ _ => True))
      (ArenaStep ⟨false⟩ ownSpan 4096) ⟨vmp2, w2, [(0x8000, 4096)]⟩ := by
    apply Reach.next (e := .alloc 4096 0) (s := ⟨vmp1, ⟨pool1, 0, ()⟩, []⟩)
    . apply Reach.start
      exact ⟨blankVmem, vmemBootstrap ⟨[], 0, 0⟩, 0x8000, 0x10000, false, by decide, by decide,
        by decide, by decide, .vmemBootstrap, hinit, trivial, rfl⟩
    . exact ⟨by decide, by decide, by decide, 1, 0x8000, halloc, rfl⟩
  exact ⟨_, hreach, rfl, arena_consistent (ownSpan_source 4096) (k := 12) (by decide) (by decide)
    (by decide) rfl hreach⟩

end Vmem
end Nyy
