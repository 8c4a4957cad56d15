import NyyKernel.Lib.Builds
import NyyKernel.Vmem.Impl.Alloc
import NyyKernel.Vmem.Lemmas.Pool

namespace Nyy

variable {τ : Type} {cfg : Config} {vmp : Vmem} {pool : SegPool} {w : World τ}
  {size first align base addr quantum : Nat} {req : XallocReq} {x : SegId}

theorem segAlloc_follows
    : Follows (fun r => pool.nfreesegs = r.2.nfreesegs + 1) (segAlloc cfg pool)
        (segAlloc ⟨true⟩ pool) := by
  unfold segAlloc
  refine Follows.check_bind ?_
  cases pool.freeSegs with
  | nil => exact Follows.error
  | cons vsp rest => exact Follows.pure (Int.sub_add_cancel ..).symm

theorem segFit_follows {segment : VmemSegment} {phase nocross minaddr maxaddr : Nat}
    : Follows (fun _ => True) (segFit cfg segment size align phase nocross minaddr maxaddr)
        (segFit ⟨true⟩ segment size align phase nocross minaddr maxaddr) := by
  unfold segFit
  refine Follows.check_bind (Follows.check_bind ?_)
  dsimp only
  split
  . exact Follows.pure trivial
  . refine Follows.check_bind ?_
    split_ifs <;> exact Follows.pure trivial

theorem bestFitList_follows (xs : List SegId)
    : Follows (fun _ => True) (bestFitList cfg req vmp xs) (bestFitList ⟨true⟩ req vmp xs) := by
  induction xs with
  | nil => exact Follows.pure trivial
  | cons x xs ih =>
    unfold bestFitList
    split
    . refine Follows.bind segFit_follows ?_
      intro fit _
      cases fit with
      | none => exact ih
      | some start => exact Follows.pure trivial
    . exact ih

theorem bestFit_follows (is : List (Fin 64))
    : Follows (fun _ => True) (bestFit cfg req vmp is) (bestFit ⟨true⟩ req vmp is) := by
  induction is with
  | nil => exact Follows.pure trivial
  | cons i is ih =>
    unfold bestFit
    refine Follows.bind (bestFitList_follows _) ?_
    intro found _
    cases found with
    | none => exact ih
    | some found => exact Follows.pure trivial

theorem instantFit_follows (is : List (Fin 64))
    : Follows (fun _ => True) (instantFit cfg req vmp is) (instantFit ⟨true⟩ req vmp is) := by
  induction is with
  | nil => exact Follows.pure trivial
  | cons i is ih =>
    unfold instantFit
    cases (vmp.freelist i).head? with
    | none => exact ih
    | some x =>
      refine Follows.bind segFit_follows ?_
      intro fit _
      cases fit with
      | none => exact ih
      | some start => exact Follows.pure trivial

theorem xallocPass_follows
    : Follows (fun _ => True) (xallocPass cfg req first vmp) (xallocPass ⟨true⟩ req first vmp) := by
  unfold xallocPass
  split
  . refine Follows.bind (instantFit_follows _) ?_
    intro found _
    exact Follows.pure trivial
  . split
    . refine Follows.bind (bestFit_follows _) ?_
      intro found _
      exact Follows.pure trivial
    . exact Follows.check_bind (Follows.pure trivial)

theorem spinlockAcquireRaise_follows
    : Follows (fun r => r.2.pool = w.pool) (spinlockAcquireRaise cfg vmp w)
        (spinlockAcquireRaise ⟨true⟩ vmp w) := by
  unfold spinlockAcquireRaise
  refine Follows.check_bind ?_
  split
  . exact Follows.error
  . exact Follows.pure rfl

theorem vmemAddInternal_follows {imported : Bool}
    : Follows (fun r => pool.nfreesegs = r.2.2.nfreesegs + 2)
        (vmemAddInternal cfg vmp pool base size imported)
        (vmemAddInternal ⟨true⟩ vmp pool base size imported) := by
  unfold vmemAddInternal
  refine Follows.bind segAlloc_follows ?_
  rintro ⟨newspan, pool1⟩ hpool1
  refine Follows.bind segAlloc_follows ?_
  rintro ⟨newfree, pool2⟩ hpool2
  apply Follows.of_self
  intro r hr
  rcases Except.bind_eq_ok hr with ⟨_, _, hr⟩
  rcases Except.bind_eq_ok hr with ⟨_, _, hr⟩
  cases hr
  dsimp only at hpool1 hpool2 ⊢
  omega

theorem vmemAdd_follows
    : Follows (fun _ => True) (vmemAdd cfg vmp pool addr size) (vmemAdd ⟨true⟩ vmp pool addr size) := by
  unfold vmemAdd
  refine Follows.check_bind (Follows.bind vmemAddInternal_follows ?_)
  rintro ⟨_, vmp', pool'⟩ _
  exact Follows.pure trivial

theorem vmemInit_follows {source : Bool}
    : Follows (fun _ => True) (vmemInit cfg vmp pool base size quantum source)
        (vmemInit ⟨true⟩ vmp pool base size quantum source) := by
  unfold vmemInit
  dsimp only
  split
  . exact vmemAdd_follows
  . exact Follows.pure trivial

theorem xallocPlace_nfreesegs {newSeg : SegId} {r : SegId × Vmem × SegPool}
    (h : xallocPlace vmp pool x newSeg size = .ok r)
    : pool.nfreesegs ≤ r.2.2.nfreesegs := by
  unfold xallocPlace at h
  dsimp only at h
  split at h
  . rcases Except.bind_eq_ok h with ⟨_, _, h⟩
    cases h
    exact Int.le_refl _
  . cases h
    exact Int.le_add_one (Int.le_refl _)

theorem xallocFound_follows {newSeg newSeg2 : SegId} {start : Nat}
    : Follows (fun r => pool.nfreesegs ≤ r.2.2.nfreesegs)
        (xallocFound cfg vmp pool x start newSeg newSeg2 size)
        (xallocFound ⟨true⟩ vmp pool x start newSeg newSeg2 size) := by
  unfold xallocFound
  refine Follows.check_bind (Follows.check_bind ?_)
  refine Follows.bind (Follows.of_self fun _ _ => trivial) ?_
  intro vmp1 _
  refine Follows.check_bind ?_
  refine Follows.bind (Follows.of_self fun _ => xallocPlace_nfreesegs) ?_
  rintro ⟨new, vmp2, pool2⟩ hpool2
  refine Follows.check_bind (Follows.pure ?_)
  dsimp only at hpool2 ⊢
  split
  . exact hpool2
  . exact Int.le_add_one hpool2

-- Free boundary tags, of which `repopulate_segments` wants 128 unless it is not called at all.
def tagMeter (τ : Type) (vmflag : BitVec 32) : Meter (World τ) :=
  ⟨fun w => w.pool.nfreesegs, vmflag &&& vmBootstrap ≠ 0, 128⟩

-- `cost` is what an import takes, with the two tags of the new span.
structure SameCalls (ops ops' : VmemOps τ) (cost : Nat) : Prop where
  alloc_none : ops.alloc = none → ops'.alloc = none
  alloc_some : ∀ f, ops.alloc = some f → ∃ f' c, ops'.alloc = some f' ∧ c + 2 ≤ cost ∧
    ∀ size vmflag w, FollowsAt (tagMeter τ vmflag) Prod.snd (fun _ => True) w c (f size vmflag w)
      (f' size vmflag w)
  free_none : ops.free = none → ops'.free = none
  free_some : ∀ f, ops.free = some f → ∃ f', ops'.free = some f' ∧
    ∀ addr size w, Follows (fun _ => True) (f addr size w) (f' addr size w)

variable {ops ops' : VmemOps τ} {vmflag : BitVec 32} {fuel cost : Nat} {w' : World τ}

theorem repopulateSegments_nfreesegs (h : repopulateSegments ops w = .ok w')
    : w.pool.nfreesegs ≤ w'.pool.nfreesegs ∧ (128 ≤ w.pool.nfreesegs → w' = w) := by
  unfold repopulateSegments at h
  split at h
  . cases h
    exact ⟨Int.le_refl _, fun _ => rfl⟩
  . next hlt =>
    rcases Except.bind_eq_ok h with ⟨ext, _, h⟩
    cases h
    refine ⟨?_, fun hle => absurd hle hlt⟩
    exact (SegPool.refilled_nfreesegs w.pool).ge.trans' (by omega)

theorem xallocRepopulate_follows
    : FollowsAt (tagMeter τ vmflag) id (fun _ => True) w 0 (xallocRepopulate cfg ops vmflag w)
        (xallocRepopulate ⟨true⟩ ops' vmflag w) := by
  have hself : FollowsAt (tagMeter τ vmflag) id (fun _ => True) w 0 (.ok w) (.ok w) :=
    FollowsAt.pure trivial (Meter.le_add ..)
  unfold xallocRepopulate
  split
  . next hflag =>
    unfold assertRepopulate
    split
    . exact hself
    . intro w' h
      rcases repopulateSegments_nfreesegs h with ⟨hle, hsame⟩
      refine ⟨trivial, Int.le_trans hle (Meter.le_add ..), ?_⟩
      rintro (hfree | hfloor)
      . exact absurd hflag hfree
      . rw [hsame (by simpa [tagMeter] using hfloor)]
        rfl
  . exact hself

theorem vmemImport_follows (hops : SameCalls ops ops' cost)
    : FollowsAt (tagMeter τ vmflag) (fun r => r.2.2) (fun _ => True) w cost
        (vmemImport cfg ops vmp w size vmflag) (vmemImport ⟨true⟩ ops' vmp w size vmflag) := by
  unfold vmemImport
  cases hf : ops.alloc with
  | none =>
    rw [hops.alloc_none hf]
    exact FollowsAt.pure trivial (Meter.le_add ..)
  | some f =>
    rcases hops.alloc_some f hf with ⟨f', c, hf', hc, hcall⟩
    rw [hf']
    refine FollowsAt.bind (hcall size vmflag w) ?_ hc
    rintro ⟨addr, w1⟩ _
    dsimp only
    split
    . exact FollowsAt.pure trivial (Meter.le_add ..)
    . refine FollowsAt.bind_follows vmemAddInternal_follows ?_
      rintro ⟨_, vmp2, pool2⟩ hpool
      exact FollowsAt.pure trivial hpool.le

theorem xallocLoop_follows (hops : SameCalls ops ops' cost)
    : FollowsAt (tagMeter τ req.vmflag) (fun r => r.2.2) (fun _ => True) w (fuel * cost)
        (xallocLoop cfg ops req fuel first vmp w) (xallocLoop ⟨true⟩ ops' req fuel first vmp w) := by
  induction fuel generalizing first vmp w with
  | zero => exact FollowsAt.error
  | succ fuel ih =>
    unfold xallocLoop
    refine FollowsAt.bind_follows xallocPass_follows ?_
    rintro ⟨found, first'⟩ _
    cases found with
    | some found => exact FollowsAt.pure trivial (Meter.le_add ..)
    | none =>
      refine FollowsAt.bind (vmemImport_follows hops) ?_ (by rw [Nat.succ_mul, Nat.add_comm])
      rintro ⟨imported, vmp1, w1⟩ _
      dsimp only
      split
      . exact ih
      . exact FollowsAt.check_bind (FollowsAt.pure trivial (Meter.le_add ..))

theorem assertAligned_follows
    : Follows (fun _ => True) (assertAligned cfg align quantum)
        (assertAligned ⟨true⟩ align quantum) := by
  intro u _
  exact ⟨trivial, rfl⟩

theorem tagMeter_bestfit (vmflag : BitVec 32)
    : tagMeter τ ((vmflag &&& ~~~ vmInstantfit) ||| vmBestfit) = tagMeter τ vmflag := by
  have h1 : ~~~ vmInstantfit &&& vmBootstrap = vmBootstrap := by decide
  have h2 : vmBestfit &&& vmBootstrap = 0#32 := by decide
  unfold tagMeter
  rw [BitVec.and_or_distrib_right, BitVec.and_assoc, h1, h2, BitVec.or_zero]

def xallocCost (fuel cost : Nat) : Nat := 2 + fuel * cost

theorem vmemXalloc_follows (hops : SameCalls ops ops' cost)
    : FollowsAt (tagMeter τ req.vmflag) (fun r => r.2.2) (fun _ => True) w (xallocCost fuel cost)
        (vmemXalloc cfg ops fuel vmp w req) (vmemXalloc ⟨true⟩ ops' fuel vmp w req) := by
  rw [← tagMeter_bestfit]
  unfold vmemXalloc
  refine FollowsAt.bind_follows spinlockAcquireRaise_follows ?_
  rintro ⟨vmp1, w1⟩ hw1
  refine FollowsAt.bind_follows (Follows.of_self fun _ _ => trivial) ?_
  intro first _
  refine FollowsAt.check_bind (FollowsAt.bind_follows assertAligned_follows ?_)
  intro _ _
  have hpool1 : w.pool.nfreesegs = w1.pool.nfreesegs := congrArg SegPool.nfreesegs hw1.symm
  apply FollowsAt.shift (t := w1) (k := 0) _ (hpool1.le.trans (Meter.le_add _ w1 0)) (Nat.zero_add _).le
  refine FollowsAt.bind xallocRepopulate_follows ?_ (Nat.zero_add _).le
  intro w2 _
  refine FollowsAt.bind_follows segAlloc_follows ?_
  rintro ⟨newSeg, pool3⟩ hpool3
  refine FollowsAt.bind_follows segAlloc_follows ?_
  rintro ⟨newSeg2, pool4⟩ hpool4
  dsimp only at hpool3 hpool4 ⊢
  have hpool : w2.pool.nfreesegs ≤ pool4.nfreesegs + 2 := by omega
  apply FollowsAt.shift (t := { w2 with pool := pool4 }) (k := 2) _ hpool (Nat.le_refl _)
  refine FollowsAt.bind (xallocLoop_follows hops) ?_ (Nat.add_zero _).le
  rintro ⟨found, vmp5, w5⟩ _
  cases found with
  | none => exact FollowsAt.pure trivial (Meter.le_add ..)
  | some found =>
    refine FollowsAt.bind_follows xallocFound_follows ?_
    rintro ⟨ret, vmp6, pool6⟩ hpool6
    exact FollowsAt.pure trivial (Int.le_trans hpool6 (Meter.le_add ..))

theorem xfreeFinish_follows (hops : SameCalls ops ops' cost)
    : Follows (fun _ => True) (xfreeFinish cfg ops vmp w x) (xfreeFinish ⟨true⟩ ops' vmp w x) := by
  have hlist : ∀ vmp' : Vmem, Follows (fun _ => True)
      (do return (← vmemAddToFreelist vmp' x, w)) (do return (← vmemAddToFreelist vmp' x, w)) :=
    fun _ => Follows.of_self fun _ _ => trivial
  unfold xfreeFinish
  cases Queue.prev? vmp.segqueue x with
  | none => exact Follows.error
  | some nb =>
    refine Follows.check_bind ?_
    cases hf : ops.free with
    | none =>
      rw [hops.free_none hf]
      exact hlist _
    | some f =>
      rcases hops.free_some f hf with ⟨f', hf', hcall⟩
      rw [hf']
      dsimp only
      split
      . refine Follows.bind (hcall _ _ _) ?_
        intro w1 _
        exact Follows.pure trivial
      . exact hlist _

theorem vmemXfree_follows (hops : SameCalls ops ops' cost)
    : Follows (fun _ => True) (vmemXfree cfg ops vmp w addr size)
        (vmemXfree ⟨true⟩ ops' vmp w addr size) := by
  unfold vmemXfree
  refine Follows.bind spinlockAcquireRaise_follows ?_
  rintro ⟨vmp1, w1⟩ _
  dsimp only
  cases xfreeFind vmp1 addr with
  | none => exact Follows.error
  | some x =>
    refine Follows.check_bind (Follows.bind (Follows.of_self fun _ _ => trivial) ?_)
    rintro ⟨vmp3, pool3⟩ _
    refine Follows.bind (xfreeFinish_follows hops) ?_
    rintro ⟨vmp4, w4⟩ _
    exact Follows.pure trivial

end Nyy
