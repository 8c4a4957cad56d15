import NyyKernel.Vmem.Arena

namespace Nyy

def LikeSegAlloc (cfg : Config) (seg : SegAlloc) : Prop :=
  ∀ pool : SegPool, pool.freeSegs ≠ [] → seg pool = segAlloc cfg pool

def SegPool.Counted (pool : SegPool) : Prop := pool.nfreesegs = pool.freeSegs.length

section Pool

variable {cfg : Config} {seg : SegAlloc} {pool pool' : SegPool} {x newSeg : SegId} {vmp vmp' : Vmem}
  {size : Nat}

theorem LikeSegAlloc.eq (hseg : LikeSegAlloc cfg seg) (h : 0 < pool.freeSegs.length)
    : seg pool = segAlloc cfg pool := by
  apply hseg
  intro hnil
  rw [hnil] at h
  cases h

theorem segAlloc_length (he : segAlloc cfg pool = .ok (x, pool'))
    : pool.freeSegs.length = pool'.freeSegs.length + 1 ∧ (pool.Counted → pool'.Counted) := by
  unfold segAlloc at he
  rcases Except.bind_eq_ok he with ⟨_, _, he⟩
  split at he
  . cases he
  . next y rest hpool =>
    cases he
    unfold SegPool.Counted
    rw [hpool, List.length_cons]
    refine ⟨rfl, ?_⟩
    dsimp only
    omega

theorem segFree_length (x : SegId) (pool : SegPool)
    : (segFree x pool).freeSegs.length = pool.freeSegs.length + 1 ∧
        (pool.Counted → (segFree x pool).Counted) := by
  unfold SegPool.Counted segFree
  rw [List.length_cons]
  refine ⟨rfl, ?_⟩
  dsimp only
  omega

theorem xallocPlace_pool {new : SegId} (he : xallocPlace vmp pool x newSeg size = .ok (new, vmp', pool'))
    : pool.freeSegs.length ≤ pool'.freeSegs.length ∧ (pool.Counted → pool'.Counted) := by
  unfold xallocPlace at he
  dsimp only at he
  split at he
  . rcases Except.bind_eq_ok he with ⟨vmp1, _, he⟩
    cases he
    exact ⟨Nat.le_refl _, fun h => h⟩
  . cases he
    have hfree := segFree_length newSeg pool
    exact ⟨by omega, hfree.2⟩

theorem xallocFound_pool {newSeg2 : SegId} {start ret : Nat}
    (he : xallocFound cfg vmp pool x start newSeg newSeg2 size = .ok (ret, vmp', pool'))
    : pool.freeSegs.length ≤ pool'.freeSegs.length ∧ (pool.Counted → pool'.Counted) := by
  unfold xallocFound at he
  rcases Except.bind_eq_ok he with ⟨_, _, he⟩
  rcases Except.bind_eq_ok he with ⟨_, _, he⟩
  rcases Except.bind_eq_ok he with ⟨vmp1, _, he⟩
  rcases Except.bind_eq_ok he with ⟨_, _, he⟩
  rcases Except.bind_eq_ok he with ⟨⟨new, vmp2, pool2⟩, hplace, he⟩
  rcases Except.bind_eq_ok he with ⟨_, _, he⟩
  cases he
  have hplace := xallocPlace_pool hplace
  split
  . exact hplace
  . have hfree := segFree_length newSeg2 pool2
    exact ⟨by omega, fun h => hfree.2 (hplace.2 h)⟩

theorem vmemAddInternal_pool {base : Nat} {imported : Bool} {nf : SegId}
    (he : vmemAddInternal cfg vmp pool base size imported = .ok (nf, vmp', pool')) (h : pool.Counted)
    : pool'.Counted := by
  unfold vmemAddInternal at he
  rcases Except.bind_eq_ok he with ⟨⟨ns, pool1⟩, hns, he⟩
  rcases Except.bind_eq_ok he with ⟨⟨nf, pool2⟩, hnf, he⟩
  rcases Except.bind_eq_ok he with ⟨vmp1, _, he⟩
  rcases Except.bind_eq_ok he with ⟨vmp2, _, he⟩
  cases he
  exact (segAlloc_length hnf).2 ((segAlloc_length hns).2 h)

theorem vmemAddInternal_seg (hseg : LikeSegAlloc cfg seg) (vmp : Vmem) (base size : Nat) (imported : Bool)
    (h : 2 ≤ pool.freeSegs.length)
    : vmemAddInternal cfg vmp pool base size imported seg =
        vmemAddInternal cfg vmp pool base size imported := by
  unfold vmemAddInternal
  rw [hseg.eq (by omega)]
  apply Except.bind_congr
  rintro ⟨ns, pool1⟩ hns
  have hlen := (segAlloc_length hns).1
  dsimp only
  rw [hseg.eq (by omega)]

end Pool

section

variable {τ : Type} {cfg : Config} {seg : SegAlloc} {ops opsWith : VmemOps τ} {w w' : World τ}
  {flag : BitVec 32} {req : XallocReq} {vmp vmp' : Vmem}

structure SameImport (ops opsWith : VmemOps τ) : Prop where
  pages : opsWith.allocPages = ops.allocPages
  none : ops.alloc = none → opsWith.alloc = none
  some : ∀ {alloc}, ops.alloc = some alloc → ∃ allocWith, opsWith.alloc = some allocWith ∧
    ∀ {size flag w}, flag &&& vmBootstrap = 0 → w.pool.Counted →
      allocWith size flag w = alloc size flag w ∧
      ∀ {addr w'}, alloc size flag w = .ok (addr, w') →
        w'.pool.Counted ∧ 2 ≤ w'.pool.freeSegs.length

theorem vmemImport_seg (hseg : LikeSegAlloc cfg seg) (hops : SameImport ops opsWith) (vmp : Vmem)
    (size : Nat) (hflag : flag &&& vmBootstrap = 0) (hpool : w.pool.Counted)
    : vmemImport cfg opsWith vmp w size flag seg = vmemImport cfg ops vmp w size flag := by
  unfold vmemImport
  cases halloc : ops.alloc with
  | none =>
    rw [hops.none halloc]
  | some alloc =>
    rcases hops.some halloc with ⟨allocWith, hwith, hsame⟩
    rcases @hsame size flag w hflag hpool with ⟨heq, hafter⟩
    rw [hwith]
    dsimp only
    rw [heq]
    apply Except.bind_congr
    rintro ⟨addr, w1⟩ hcall
    dsimp only
    split
    . rfl
    . rw [vmemAddInternal_seg hseg vmp addr size true (hafter hcall).2]

theorem vmemImport_pool (hops : SameImport ops opsWith) {size : Nat} {imported : Bool}
    (hflag : flag &&& vmBootstrap = 0) (hpool : w.pool.Counted)
    (he : vmemImport cfg ops vmp w size flag = .ok (imported, vmp', w'))
    : w'.pool.Counted := by
  unfold vmemImport at he
  cases halloc : ops.alloc with
  | none =>
    rw [halloc] at he
    cases he
    exact hpool
  | some alloc =>
    rcases hops.some halloc with ⟨_, _, hsame⟩
    rw [halloc] at he
    rcases Except.bind_eq_ok he with ⟨⟨addr, w1⟩, hcall, he⟩
    have hafter := (hsame hflag hpool).2 hcall
    dsimp only at he
    split at he
    . cases he
      exact hafter.1
    . rcases Except.bind_eq_ok he with ⟨⟨nf, vmp2, pool2⟩, hadd, he⟩
      cases he
      exact vmemAddInternal_pool hadd hafter.1

theorem xallocLoop_seg (hseg : LikeSegAlloc cfg seg) (hops : SameImport ops opsWith)
    (hflag : req.vmflag &&& vmBootstrap = 0) (fuel first : Nat) (vmp : Vmem) (hpool : w.pool.Counted)
    : xallocLoop cfg opsWith req fuel first vmp w seg =
        xallocLoop cfg ops req fuel first vmp w := by
  induction fuel generalizing first vmp w with
  | zero => rfl
  | succ fuel ih =>
    unfold xallocLoop
    apply Except.bind_congr
    rintro ⟨found, first'⟩ _
    cases found with
    | some f => rfl
    | none =>
      dsimp only
      rw [vmemImport_seg hseg hops vmp req.size hflag hpool]
      apply Except.bind_congr
      rintro ⟨imported, vmp1, w1⟩ himport
      dsimp only
      split
      . exact ih first' vmp1 (vmemImport_pool hops hflag hpool himport)
      . rfl

theorem xallocRepopulate_congr (hops : SameImport ops opsWith) (flag : BitVec 32) (w : World τ)
    : xallocRepopulate cfg opsWith flag w = xallocRepopulate cfg ops flag w := by
  unfold xallocRepopulate assertRepopulate repopulateSegments
  rw [hops.pages]

theorem xallocRepopulate_pool (hcfg : cfg.disableAsserts = false) (hflag : flag &&& vmBootstrap = 0)
    (hpool : w.pool.Counted) (he : xallocRepopulate cfg ops flag w = .ok w')
    : w'.pool.Counted ∧ 64 ≤ w'.pool.freeSegs.length := by
  unfold xallocRepopulate assertRepopulate repopulateSegments at he
  rw [if_pos hflag, hcfg, if_neg (by simp)] at he
  split at he
  . next hmany =>
    cases he
    unfold SegPool.Counted at hpool
    exact ⟨hpool, by omega⟩
  . rcases Except.bind_eq_ok he with ⟨ext, _, he⟩
    cases he
    refine ⟨SegPool.refilled_count hpool, ?_⟩
    change 64 ≤ w.pool.refilled.freeSegs.length
    rw [SegPool.refilled_freeSegs]
    simp

theorem effective_bootstrap (h : flag &&& vmBootstrap = 0)
    : ((flag &&& ~~~ vmInstantfit) ||| vmBestfit) &&& vmBootstrap = 0 := by
  rw [BitVec.and_comm, BitVec.and_or_distrib_left, ← BitVec.and_assoc,
    BitVec.and_comm vmBootstrap flag, h]
  decide

theorem vmemXalloc_seg (hseg : LikeSegAlloc cfg seg) (hops : SameImport ops opsWith)
    (hcfg : cfg.disableAsserts = false) (hflag : req.vmflag &&& vmBootstrap = 0) (fuel : Nat) (vmp : Vmem)
    (hpool : w.pool.Counted)
    : vmemXalloc cfg opsWith fuel vmp w req seg = vmemXalloc cfg ops fuel vmp w req := by
  have hflag' := effective_bootstrap hflag
  unfold vmemXalloc
  apply Except.bind_congr
  rintro ⟨vmp1, w1⟩ hacquire
  have hpool1 : w1.pool.Counted := by
    rw [(Vmem.acquire_eq_ok hacquire).2.2.2]
    exact hpool
  apply Except.bind_congr
  intro first _
  apply Except.bind_congr
  intro _ _
  apply Except.bind_congr
  intro _ _
  dsimp only
  rw [xallocRepopulate_congr hops]
  apply Except.bind_congr
  intro w2 hrepop
  rcases xallocRepopulate_pool hcfg hflag' hpool1 hrepop with ⟨hpool2, hlen⟩
  rw [hseg.eq (by omega)]
  apply Except.bind_congr
  rintro ⟨newSeg, pool3⟩ hseg1
  have hlen1 := segAlloc_length hseg1
  dsimp only
  rw [hseg.eq (by omega)]
  apply Except.bind_congr
  rintro ⟨newSeg2, pool4⟩ hseg2
  have hlen2 := segAlloc_length hseg2
  refine congrArg (fun x => x >>= _) (xallocLoop_seg hseg hops hflag' _ _ _ ?_)
  exact hlen2.2 (hlen1.2 hpool2)

theorem vmemXalloc_pool (hcfg : cfg.disableAsserts = false) (hnone : ops.alloc = none)
    (hflag : req.vmflag &&& vmBootstrap = 0) {fuel addr : Nat} (hpool : w.pool.Counted)
    (he : vmemXalloc cfg ops fuel vmp w req = .ok (addr, vmp', w'))
    : w'.pool.Counted ∧ 2 ≤ w'.pool.freeSegs.length := by
  rcases Vmem.vmemXalloc_eq_ok hcfg he with ⟨first, w2, newSeg, pool1, newSeg2, pool2, x, start, vmp3,
    w3, vmp4, pool4, _, _, hrepop, hseg1, hseg2, hloop, hplace, _, rfl⟩
  rcases xallocRepopulate_pool (w := { w with irql := irqlDispatch }) hcfg (effective_bootstrap hflag)
    hpool hrepop with ⟨hpool2, hlen⟩
  have hlen1 := segAlloc_length hseg1
  have hlen2 := segAlloc_length hseg2
  have hw3 : w3 = { w2 with pool := pool2 } := by
    rcases Vmem.xallocLoop_cases hloop with ⟨_, _, _, _, _, ⟨_, _, hw⟩ | ⟨_, _, _, himport, _⟩⟩
    . exact hw
    . rcases Vmem.vmemImport_eq_ok himport with ⟨_, _, _, _, _, halloc, _⟩
      rw [hnone] at halloc
      cases halloc
  rw [hw3] at hplace
  have hfound := xallocFound_pool hplace
  dsimp only at hfound ⊢
  exact ⟨hfound.2 (hlen2.2 (hlen1.2 hpool2)), by omega⟩

end

end Nyy
