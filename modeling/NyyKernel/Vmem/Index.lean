import NyyKernel.Vmem.Imports
import NyyKernel.Vmem.Remainder

namespace Nyy

variable {cfg : Config}

theorem freelistForSize_defined {size : Nat} (h : 2 ≤ size) (hlt : size < 2 ^ 64)
    : freelistForSize size ≠ .error .undefined := by
  rcases freelistForSize_of_le h hlt with ⟨hi, he⟩
  rw [he]
  exact Except.pure_ne_error _ _

theorem segAlloc_defined (hcfg : cfg.disableAsserts = false) (pool : SegPool)
    : segAlloc cfg pool ≠ .error .undefined := by
  rcases pool with ⟨free, n, npages⟩
  unfold segAlloc check
  cases free with
  | nil => simp [hcfg]
  | cons x rest => simp

theorem vmemAddInternal_defined (hcfg : cfg.disableAsserts = false) (vmp : Vmem) (pool : SegPool)
    (base : Nat) {size : Nat} (imported : Bool) (h : 2 ≤ size) (hlt : size < 2 ^ 64)
    : vmemAddInternal cfg vmp pool base size imported ≠ .error .undefined := by
  unfold vmemAddInternal
  refine Except.bind_ne_error (segAlloc_defined hcfg _) ?_
  rintro ⟨ns, pool1⟩ _
  refine Except.bind_ne_error (segAlloc_defined hcfg _) ?_
  rintro ⟨nf, pool2⟩ _
  dsimp only [vmemInsertSegment, vmemAddToFreelist]
  simp only [pure_bind, bind_assoc, Vmem.setSeg_self]
  refine Except.bind_ne_error (freelistForSize_defined h hlt) ?_
  exact fun _ _ => Except.pure_ne_error _ _

theorem segFit_defined (cfg : Config) (s : VmemSegment) (size align phase nocross minaddr maxaddr : Nat)
    : segFit cfg s size align phase nocross minaddr maxaddr ≠ .error .undefined := by
  unfold segFit
  refine check_bind_ne_undefined ?_
  refine check_bind_ne_undefined ?_
  dsimp only
  split
  . exact Except.pure_ne_error _ _
  . refine check_bind_ne_undefined ?_
    repeat' split
    all_goals exact Except.pure_ne_error _ _

theorem bestFitList_defined (cfg : Config) (req : XallocReq) (vmp : Vmem) (l : List SegId)
    : bestFitList cfg req vmp l ≠ .error .undefined := by
  induction l with
  | nil => exact Except.pure_ne_error _ _
  | cons x l ih =>
    unfold bestFitList
    split
    . refine Except.bind_ne_error (segFit_defined _ _ _ _ _ _ _ _) fun r _ => ?_
      cases r with
      | some start => exact Except.pure_ne_error _ _
      | none => exact ih
    . exact ih

theorem bestFit_defined (cfg : Config) (req : XallocReq) (vmp : Vmem) (is : List (Fin 64))
    : bestFit cfg req vmp is ≠ .error .undefined := by
  induction is with
  | nil => exact Except.pure_ne_error _ _
  | cons i is ih =>
    unfold bestFit
    refine Except.bind_ne_error (bestFitList_defined _ _ _ _) fun r _ => ?_
    cases r with
    | some found => exact Except.pure_ne_error _ _
    | none => exact ih

theorem spinlockAcquireRaise_defined {τ : Type} (cfg : Config) (vmp : Vmem) (w : World τ)
    : spinlockAcquireRaise cfg vmp w ≠ .error .undefined := by
  unfold spinlockAcquireRaise
  refine check_bind_ne_undefined ?_
  split
  . simp
  . exact Except.pure_ne_error _ _

namespace Vmem

structure DefinedOps {τ : Type} (ops : VmemOps τ) (others : τ → List SegId) (J : τ → Set (Nat × Nat) → Prop)
    : Prop where
  pages : ∀ ext held, J ext held → ops.allocPages ext ≠ .error .undefined
  alloc : ∀ alloc, ops.alloc = some alloc → ∀ (w : World τ) held mine size flag, J w.ext held →
    w.pool.Ok (mine ++ others w.ext) → 2 ≤ size → size < 2 ^ 64 →
    alloc size flag w ≠ .error .undefined
  free : ∀ free, ops.free = some free → ∀ (w : World τ) held mine r, J w.ext held →
    w.pool.Ok (mine ++ others w.ext) → r ∈ held → free r.1 r.2 w ≠ .error .undefined

def NoUnit (cfg : Config) (vmp : Vmem) (size : Nat) : Prop :=
  ∀ x ∈ vmp.segqueue, (vmp.seg x).type = .free → ∀ start,
    segFit cfg (vmp.seg x) size vmp.quantum 0 0 vmemAddrMin vmemAddrMax = .ok (some start) →
      start ≠ (vmp.seg x).base + 1 ∧
      ((vmp.seg x).base + (vmp.seg x).size = start + size + 1 → 2 ≤ vmp.quantum)

theorem segFit_inside {cfg : Config} {s : VmemSegment} {size quantum nocross maxaddr start : Nat}
    (hq : 0 < quantum) (hwrap : s.base + s.size + quantum ≤ 2 ^ 64)
    (h : segFit cfg s size quantum 0 nocross 0 maxaddr = .ok (some start))
    : s.base ≤ start ∧ start + size ≤ s.base + s.size := by
  have hbase : s.base < 2 ^ 64 := by omega
  have hroom : s.base + quantum ≤ 2 ^ 64 := by omega
  have hup : s.base ≤ vmemAlignup s.base quantum := Word.le_alignUp hq hroom
  have hlt : vmemAlignup s.base quantum < 2 ^ 64 :=
    Nat.lt_of_le_of_lt Nat.and_le_left (Word.sub_lt _ _)
  have hstart : Word.add (vmemAlignup (Word.sub (max s.base 0) 0) quantum) 0 =
      vmemAlignup s.base quantum := by
    rw [Nat.max_eq_left (Nat.zero_le _), Word.sub_eq hbase (Nat.zero_le _), Nat.sub_zero,
      Word.add_eq ((Nat.add_zero (vmemAlignup s.base quantum)).trans_lt hlt), Nat.add_zero]
  generalize vmemAlignup s.base quantum = a at hup hlt hstart
  unfold segFit at h
  rcases Except.bind_eq_ok h with ⟨_, _, h⟩
  rcases Except.bind_eq_ok h with ⟨_, _, h⟩
  rw [Word.add_eq (by omega)] at h
  dsimp only at h
  split at h
  . cases h
  . rw [hstart, if_neg (Nat.not_lt.mpr hup)] at h
    rcases Except.bind_eq_ok h with ⟨_, _, h⟩
    split at h
    . next hc =>
      cases h
      rw [Word.sub_eq (by omega) hc.1] at hc
      omega
    . cases h

section Found

variable {cfg : Config} {vmp vmp1 : Vmem} {x n : SegId} {pre post : List SegId} {start size : Nat}

theorem xallocFront_defined (h : Taken vmp x pre post) (hn : n ∉ vmp.segqueue)
    (hlo : (vmp.seg x).base ≤ start) (hhi : start < (vmp.seg x).base + (vmp.seg x).size)
    (hone : start ≠ (vmp.seg x).base + 1)
    : xallocFront vmp x n start ≠ .error .undefined := by
  have hx := h.inv.detached x List.mem_cons_self
  have hne : n ≠ x := fun heq => hn (heq ▸ hx.1)
  have hbound := h.inv.bounded hx.1
  rcases h.inv.exists_prev h.around hx.2 with ⟨pre, nb, rfl⟩
  unfold xallocFront
  split
  . next hbase =>
    have hfront : Word.sub start (vmp.seg x).base = start - (vmp.seg x).base :=
      Word.sub_eq (by omega) (by omega)
    unfold xallocSplitFront vmemAddToFreelist
    simp only [hfront, setSeg_of_ne _ _ hne, setSeg_self, bind_assoc]
    refine Except.bind_ne_error (freelistForSize_defined (by omega) (by omega)) ?_
    intro i _
    simp only [pure_bind, setSeg_segqueue, h.around.prev, vmemInsertSegment]
    exact Except.pure_ne_error _ _
  . exact Except.pure_ne_error _ _

theorem xallocPlace_defined (h : Taken vmp x pre post) (pool : SegPool) (hle : size ≤ (vmp.seg x).size)
    (hone : (vmp.seg x).size = size + 1 → 1 ≤ Word.sub vmp.quantum 1)
    : xallocPlace vmp pool x n size ≠ .error .undefined := by
  have hx := h.inv.detached x List.mem_cons_self
  have hbound := h.inv.bounded hx.1
  rcases h.inv.exists_prev h.around hx.2 with ⟨pre, nb, rfl⟩
  have hrest : Word.sub (vmp.seg x).size size = (vmp.seg x).size - size := Word.sub_eq hbound.2 hle
  unfold xallocPlace
  dsimp only
  rw [hrest]
  split
  . next hc =>
    refine Except.bind_ne_error ?_ fun _ _ => Except.pure_ne_error _ _
    unfold xallocSplitTail vmemAddToFreelist
    simp only [hrest, setSeg_self, bind_assoc]
    refine Except.bind_ne_error (freelistForSize_defined (by omega) (by omega)) ?_
    intro i _
    simp only [pure_bind, setSeg_segqueue, h.around.prev, vmemInsertSegment]
    exact Except.pure_ne_error _ _
  . exact Except.pure_ne_error _ _

theorem xallocFound_defined {newSeg newSeg2 : SegId} (cfg : Config) (pool : SegPool) (h : Inv vmp [])
    (hx : x ∈ vmp.segqueue) (ht : (vmp.seg x).type = .free) (hn2 : newSeg2 ∉ vmp.segqueue)
    (hsize : 0 < size) (hlo : (vmp.seg x).base ≤ start)
    (hhi : start + size ≤ (vmp.seg x).base + (vmp.seg x).size) (hfront : start ≠ (vmp.seg x).base + 1)
    (hrest : (vmp.seg x).base + (vmp.seg x).size = start + size + 1 → 1 ≤ Word.sub vmp.quantum 1)
    : xallocFound cfg vmp pool x start newSeg newSeg2 size ≠ .error .undefined := by
  rcases h.taken hx ht with ⟨pre, post, htaken, hpre⟩
  have hhi0 : start < ((vmp.listRemove x).seg x).base + ((vmp.listRemove x).seg x).size := by
    rw [listRemove_seg]
    omega
  unfold xallocFound
  refine check_bind_ne_undefined ?_
  refine check_bind_ne_undefined ?_
  refine Except.bind_ne_error (xallocFront_defined htaken hn2 hlo hhi0 hfront) fun vmp1 he1 => ?_
  rcases xallocFront_spec htaken hpre hn2 hlo hhi0 he1 with ⟨pre1, htaken1, _, hrange1, _, _, _, hquantum1⟩
  have hsize1 : (vmp1.seg x).size = (vmp.seg x).base + (vmp.seg x).size - start :=
    congrArg Prod.snd hrange1
  have hquantum : vmp1.quantum = vmp.quantum := hquantum1
  refine check_bind_ne_undefined ?_
  refine Except.bind_ne_error (xallocPlace_defined htaken1 pool (by omega) ?_) fun r _ => ?_
  . intro hone
    rw [hquantum]
    exact hrest (by omega)
  . exact check_bind_ne_undefined (Except.pure_ne_error _ _)

end Found

section Calls

variable {τ : Type} {cfg : Config} {ops : VmemOps τ} {others : τ → List SegId}
  {J : τ → Set (Nat × Nat) → Prop} {vmp vmp' : Vmem} {w w' : World τ} {mine : List SegId}
  {top fuel addr : Nat} {req : XallocReq}

theorem Good.import_defined (hd : DefinedOps ops others J) (hcfg : cfg.disableAsserts = false)
    (h : Good 1 others J vmp w mine) {size : Nat} (htwo : 2 ≤ size) (hlt : size < 2 ^ 64) (flag : BitVec 32)
    : vmemImport cfg ops vmp w size flag ≠ .error .undefined := by
  unfold vmemImport
  split
  . exact Except.pure_ne_error _ _
  . next alloc halloc =>
    refine Except.bind_ne_error (hd.alloc alloc halloc w _ _ size flag h.source h.pool htwo hlt) ?_
    rintro ⟨addr, w1⟩ _
    dsimp only
    split
    . exact Except.pure_ne_error _ _
    . refine Except.bind_ne_error (vmemAddInternal_defined hcfg _ _ _ _ htwo hlt) ?_
      exact fun _ _ => Except.pure_ne_error _ _

theorem Good.loop_defined (hs : Source ops 1 others J) (hd : DefinedOps ops others J)
    (hcfg : cfg.disableAsserts = false) (htwo : 2 ≤ req.size) (hlt : req.size < 2 ^ 64)
    {first quantum : Nat} (h : Good 1 others J vmp w mine)
    : xallocLoop cfg ops (effective quantum req) fuel first vmp w ≠ .error .undefined := by
  induction fuel generalizing first vmp w with
  | zero =>
    unfold xallocLoop
    simp
  | succ fuel ih =>
    have hpos : 0 < (effective quantum req).size := by
      show 0 < req.size
      omega
    unfold xallocLoop
    rw [xallocPass_eq]
    simp only [bind_assoc, pure_bind]
    refine Except.bind_ne_error (bestFit_defined _ _ _ _) fun found _ => ?_
    cases found with
    | some f => exact Except.pure_ne_error _ _
    | none =>
      refine Except.bind_ne_error (h.import_defined hd hcfg htwo hlt _) ?_
      rintro ⟨imported, vmp1, w1⟩ himport
      cases imported with
      | true => exact ih (h.import hs hpos hlt (one_dvd _) himport).1
      | false =>
        exact check_bind_ne_undefined (Except.pure_ne_error _ _)

theorem Good.enter_defined (hd : DefinedOps ops others J) (hcfg : cfg.disableAsserts = false)
    (h : Good 1 others J vmp w []) (htwo : 2 ≤ req.size) (hlt : req.size < 2 ^ 64) (hq : 0 < vmp.quantum)
    : xallocEnter cfg ops vmp w req ≠ .error .undefined := by
  unfold xallocEnter
  refine Except.bind_ne_error (spinlockAcquireRaise_defined _ _ _) ?_
  rintro ⟨vmp1, w1⟩ hacquire
  rcases acquire_eq_ok hacquire with ⟨_, _, rfl, rfl⟩
  refine Except.bind_ne_error (freelistForSize_defined htwo hlt) fun first _ => ?_
  refine check_bind_ne_undefined ?_
  refine Except.bind_ne_error ?_ fun _ _ => ?_
  . unfold assertAligned
    rw [if_neg (by simp [hcfg]), if_neg (show ¬ vmp.quantum = 0 by omega)]
    exact check_ne_undefined _ _
  . refine Except.bind_ne_error ?_ fun w2 _ => ?_
    . unfold Nyy.xallocRepopulate assertRepopulate repopulateSegments
      rw [if_neg (show ¬ cfg.disableAsserts = true by simp [hcfg])]
      split
      . split
        . exact Except.pure_ne_error _ _
        . exact Except.bind_ne_error (hd.pages _ _ h.source) fun _ _ => Except.pure_ne_error _ _
      . exact Except.pure_ne_error _ _
    . refine Except.bind_ne_error (segAlloc_defined hcfg _) fun _ _ => ?_
      exact Except.bind_ne_error (segAlloc_defined hcfg _) fun _ _ => Except.pure_ne_error _ _

theorem Good.alloc_defined (hs : Source ops 1 others J) (hd : DefinedOps ops others J)
    (hcfg : cfg.disableAsserts = false) (hbelow : Below J top) (h : Good 1 others J vmp w []) {size : Nat}
    (htwo : 2 ≤ size) (hlt : size < 2 ^ 64) (hq : 0 < vmp.quantum) (hwrap : top + vmp.quantum ≤ 2 ^ 64)
    (hunit : NoUnit cfg vmp size) (fuel : Nat) (flag : BitVec 32)
    : vmemAlloc cfg ops fuel vmp w size flag ≠ .error .undefined := by
  unfold vmemAlloc
  rw [vmemXalloc_eq]
  refine Except.bind_ne_error (h.enter_defined hd hcfg htwo hlt hq) ?_
  rintro ⟨first, newSeg, newSeg2, vmp1, w1⟩ henter
  rcases xallocEnter_eq_ok henter with ⟨w2, pool1, pool2, _, _, hrepop, hseg1, hseg2, _, rfl, rfl⟩
  have h1 := (h.prologue hs hrepop hseg1 hseg2).2.2.2
  refine Except.bind_ne_error (h1.loop_defined hs hd hcfg htwo hlt) ?_
  rintro ⟨found, vmp3, w3⟩ hloop
  cases found with
  | none => exact Except.pure_ne_error _ _
  | some f =>
    rcases f with ⟨x, start⟩
    have hpos : 0 < (effective vmp.quantum ⟨size, 0, 0, 0, vmemAddrMin, vmemAddrMax, flag⟩).size := by
      show 0 < size
      omega
    rcases h1.loop hs hpos hlt (one_dvd _) hloop with ⟨h3, hkeeps, ⟨i, hmem⟩, hfit⟩
    have hgrown := h1.loop_grown hs hpos hlt hloop
    have hon := (h3.inv.freelist.mem x i).mp hmem
    have hend := h3.span_end hbelow hon.1 hon.2.2.1
    have hquantum : vmp3.quantum = vmp.quantum := hkeeps.quantum
    have hsub : Word.sub vmp.quantum 1 = vmp.quantum - 1 := by
      unfold Word.sub
      omega
    change segFit cfg (vmp3.seg x) size vmp.quantum 0 0 vmemAddrMin vmemAddrMax = .ok (some start) at hfit
    rcases segFit_inside hq (by omega) hfit with ⟨hlo, hhi⟩
    have hpieces : start ≠ (vmp3.seg x).base + 1 ∧
        ((vmp3.seg x).base + (vmp3.seg x).size = start + size + 1 → 2 ≤ vmp.quantum) := by
      rcases hgrown x hon.1 hon.2.2.1 with ⟨hx, hseg⟩ | hwhole
      . have hfree := hon.2.2.1
        rw [hseg] at hfit hfree ⊢
        exact hunit x hx hfree start hfit
      . -- an imported segment is taken as a whole
        change (vmp3.seg x).size = size at hwhole
        exact ⟨by omega, by omega⟩
    have hn2 : newSeg2 ∉ vmp3.segqueue := by
      have hnodup := (List.nodup_append.mp (List.nodup_append.mp h3.pool.nodup).2.1).1
      intro hmem
      exact (List.nodup_append.mp hnodup).2.2 newSeg2 hmem newSeg2 (by simp) rfl
    refine Except.bind_ne_error (xallocFound_defined cfg _ h3.inv hon.1 hon.2.2.1 hn2 hpos hlo hhi
      hpieces.1 ?_) fun _ _ => Except.pure_ne_error _ _
    intro hone
    have := hpieces.2 hone
    rw [hquantum, hsub]
    omega

theorem Good.free_defined (hd : DefinedOps ops others J) (hcfg : cfg.disableAsserts = false)
    (h : Good 1 others J vmp w []) (hlock : vmp.lock = false) {sz : Nat}
    (hr : (addr, sz) ∈ vmp.ranges [] .allocated) (htwo : 2 ≤ sz) (size : Nat)
    : vmemFree cfg ops vmp w addr size ≠ .error .undefined := by
  unfold vmemFree
  rcases check_cases cfg (w.irql ≤ irqlDispatch) with hirql | hirql
  . by_cases hsize : size = sz
    . subst hsize
      cases vmemXfree_spec ops h.inv hlock hirql hr htwo with
      | kept vmp2 pool2 hres _ _ _ =>
        rw [hres]
        exact Except.pure_ne_error _ _
      | released free span vmp2 pool2 hfree hres hfreed hspan _ _ _ =>
        have hpool := h.pool
        rw [List.append_nil] at hpool
        have hdef := hd.free free hfree ⟨pool2, irqlDispatch, w.ext⟩ _ _ span h.source
          (hpool.of_moves hfreed.moves) hspan
        rw [hres]
        cases hcall : free span.1 span.2 ⟨pool2, irqlDispatch, w.ext⟩ with
        | ok w2 => exact Except.pure_ne_error _ _
        | error e =>
          rw [hcall] at hdef
          intro he
          cases he
          exact hdef rfl
    . -- the assertion on the size stops the call
      rcases hr with ⟨x, hx, _, ht, hrange⟩
      cases hrange
      have h0 : Inv { vmp with lock := true } [] := h.inv.of_eq rfl rfl rfl rfl
      have hfind := h0.xfreeFind hx ht
      dsimp only at hfind
      have hcheck : check cfg ((vmp.seg x).size == size) = .error .assertion := by
        unfold check
        simp [hcfg, Ne.symm hsize]
      unfold vmemXfree spinlockAcquireRaise
      rw [hirql, hlock]
      simp only [Except.ok_bind, Bool.false_eq_true, if_false, pure_bind, hfind, hcheck]
      rw [Except.error_bind]
      simp
  . unfold vmemXfree spinlockAcquireRaise
    rw [hirql, Except.error_bind]
    simp

theorem VmemInv.alloc_any (hs : Source ops 1 others J) (hcfg : cfg.disableAsserts = false)
    (hbelow : Below J top) {s s' : VmemState τ} (h : VmemInv others J s) {size : Nat} {flag : BitVec 32}
    (hpos : 0 < size) (hlt : size < 2 ^ 64) (hq : 0 < s.vmp.quantum) (hwrap : top + s.vmp.quantum ≤ 2 ^ 64)
    (he : vmemAlloc cfg ops fuel s.vmp s.world size flag = .ok (addr, s'.vmp, s'.world))
    : VmemInv others J s' := by
  rcases h.good.search hs hcfg hpos hlt he with ⟨newSeg, newSeg2, x, start, vmp3, w3, vmp4, pool4, hx,
    hplace, hvmp', hw'⟩
  have hend := hx.good.span_end hbelow hx.mem hx.free
  rcases segFit_inside hq (by omega) hx.fit with ⟨hlo, hhi⟩
  rcases hx.take (w := s.world) hlo hhi hplace with ⟨rfl, hx⟩
  rw [← hvmp', ← hw'] at hx
  exact h.xalloced hx

end Calls

section Run

variable {τ : Type} (cfg : Config) (ops : VmemOps τ)

def IndexStep (s : VmemState τ) : ArenaOp → VmemState τ → Prop
  | .alloc size vmflag, s' => 0 < size ∧ size < 2 ^ 64 ∧ ∃ fuel addr,
    vmemAlloc cfg ops fuel s.vmp s.world size vmflag = .ok (addr, s'.vmp, s'.world)
  | .free addr size, s' => (∃ sz, (addr, sz) ∈ s.vmp.ranges [] .allocated) ∧
    vmemFree cfg ops s.vmp s.world addr size = .ok (s'.vmp, s'.world)

/--
More than one byte is asked for, no cut leaves one byte, and nothing is too close to the end of the
address space for the quantum.
-/
def IndexGuard (top : Nat) (s : VmemState τ) : ArenaOp → Prop
  | .alloc size _ => 1 < size ∧ 0 < s.vmp.quantum ∧ top + s.vmp.quantum ≤ 2 ^ 64 ∧
    NoUnit cfg s.vmp size
  | .free _ _ => True

end Run

section Run

variable {τ : Type} {cfg : Config} {ops : VmemOps τ} {others : τ → List SegId}
  {J : τ → Set (Nat × Nat) → Prop} {top : Nat} {s s' : VmemState τ}

theorem VmemInv.free_size (hcfg : cfg.disableAsserts = false) (h : VmemInv others J s) {addr sz size : Nat}
    (hr : (addr, sz) ∈ s.vmp.ranges [] .allocated)
    (he : vmemFree cfg ops s.vmp s.world addr size = .ok (s'.vmp, s'.world))
    : size = sz := by
  rcases hr with ⟨x, hx, _, ht, hrange⟩
  cases hrange
  unfold vmemFree vmemXfree at he
  rcases Except.bind_eq_ok he with ⟨⟨vmp1, w1⟩, hacquire, he⟩
  rcases acquire_eq_ok hacquire with ⟨_, _, rfl, rfl⟩
  have h0 : Inv { s.vmp with lock := true } [] := h.good.inv.of_eq rfl rfl rfl rfl
  have hfind := h0.xfreeFind hx ht
  dsimp only at he hfind
  rw [hfind] at he
  rcases Except.bind_eq_ok he with ⟨_, hcheck, _⟩
  rcases check_eq_ok hcheck with hoff | heq
  . rw [hcfg] at hoff
    cases hoff
  . exact (beq_iff_eq.mp heq).symm

theorem VmemInv.index_step (hs : Source ops 1 others J) (hcfg : cfg.disableAsserts = false)
    (hbelow : Below J top) {op : ArenaOp} (h : VmemInv others J s)
    (hstep : Guarded (IndexGuard cfg top) (IndexStep cfg ops) s op s')
    : VmemInv others J s' := by
  rcases hstep with ⟨hguard, hstep⟩
  cases op with
  | alloc size vmflag =>
    rcases hstep with ⟨hpos, hlt, fuel, addr, he⟩
    exact h.alloc_any hs hcfg hbelow hpos hlt hguard.2.1 hguard.2.2.1 he
  | free addr size =>
    rcases hstep with ⟨⟨sz, hr⟩, he⟩
    cases h.free_size hcfg hr he
    rcases h.good.xfree hs h.lock hr (h.two_le _ hr) he with ⟨hgood, hlock, _, hallocs, _⟩
    refine ⟨hgood, hlock, ?_⟩
    rw [hallocs]
    exact fun r hr => h.two_le r hr.1

theorem index_in_bounds (hs : Source ops 1 others J) (hd : DefinedOps ops others J)
    (hcfg : cfg.disableAsserts = false) (hbelow : Below J top)
    (hr : Reach (VmemStart cfg others J) (Guarded (IndexGuard cfg top) (IndexStep cfg ops)) s)
    : (∀ fuel size vmflag, size < 2 ^ 64 → IndexGuard cfg top s (.alloc size vmflag) →
        vmemAlloc cfg ops fuel s.vmp s.world size vmflag ≠ .error .undefined) ∧
      (∀ addr sz size, (addr, sz) ∈ s.vmp.ranges [] .allocated →
        vmemFree cfg ops s.vmp s.world addr size ≠ .error .undefined) ∧
      ∀ addr size, 1 < size → size < 2 ^ 64 →
        vmemAdd cfg s.vmp s.world.pool addr size ≠ .error .undefined := by
  have h : VmemInv others J s := by
    refine hr.invariant (fun s hs => VmemInv.init hs) ?_
    intro s op s' h hstep
    exact h.index_step hs hcfg hbelow hstep
  refine ⟨?_, ?_, ?_⟩
  . intro fuel size vmflag hlt hguard
    exact h.good.alloc_defined hs hd hcfg hbelow hguard.1 hlt hguard.2.1 hguard.2.2.1 hguard.2.2.2 fuel
      vmflag
  . intro addr sz size hmem
    exact h.good.free_defined hd hcfg h.lock hmem (h.two_le _ hmem) size
  . intro addr size htwo hlt
    unfold vmemAdd
    refine check_bind_ne_undefined ?_
    refine Except.bind_ne_error (vmemAddInternal_defined hcfg _ _ _ _ htwo hlt) ?_
    exact fun _ _ => Except.pure_ne_error _ _

end Run

theorem ownSpan_defined {J : Unit → Set (Nat × Nat) → Prop}
    : DefinedOps ownSpan (fun _ => []) J := by
  constructor
  . intro ext held _
    exact Except.pure_ne_error _ _
  . intro alloc h
    cases h
  . intro free h
    cases h

def allocTwice (size1 size2 : Nat)
    : Except Fault (Vmem × SegPool × Nat × Vmem × World Unit × Except Fault (Nat × Vmem × World Unit)) := do
  let (vmp, pool) ← arenaAt 0x8000 0x100 16 false
  let (addr, vmp', w') ← vmemAlloc ⟨false⟩ ownSpan 1 vmp ⟨pool, 0, ()⟩ size1 0
  return (vmp, pool, addr, vmp', w', vmemAlloc ⟨false⟩ ownSpan 1 vmp' w' size2 0)

theorem allocTwice_eq_ok {size1 size2 addr : Nat} {vmp vmp' : Vmem} {pool : SegPool} {w' : World Unit}
    {second : Except Fault (Nat × Vmem × World Unit)} (hpos : 0 < size1) (hlt : size1 < 2 ^ 64)
    (he : allocTwice size1 size2 = .ok (vmp, pool, addr, vmp', w', second))
    : VmemStart ⟨false⟩ (fun _ => []) Low ⟨vmp, ⟨pool, 0, ()⟩⟩ ∧
        IndexStep ⟨false⟩ ownSpan ⟨vmp, ⟨pool, 0, ()⟩⟩ (.alloc size1 0) ⟨vmp', w'⟩ ∧
        vmemAlloc ⟨false⟩ ownSpan 1 vmp' w' size2 0 = second := by
  rcases Except.bind_eq_ok he with ⟨⟨_, _⟩, hinit, he⟩
  rcases Except.bind_eq_ok he with ⟨⟨_, _, _⟩, halloc, he⟩
  cases he
  refine ⟨vmemStart_arenaAt hinit (by decide) (by decide) ?_, ⟨hpos, hlt, 1, addr, halloc⟩, rfl⟩
  have hspans : vmp.ranges [] .span = {(0x8000, 0x100)} :=
    (vmemInit_spec .vmemBootstrap (by decide) (by decide) hinit).1.spans
  show Low () (vmp.ranges [] .span)
  rw [hspans]
  rintro r rfl
  decide

theorem index_in_bounds_aligned
    : ∃ s : VmemState Unit, (0x8000, 32) ∈ s.vmp.ranges [] .allocated ∧
        vmemFree ⟨false⟩ ownSpan s.vmp s.world 0x8000 32 ≠ .error .undefined := by
  have hrun : (allocTwice 32 32).map (fun r => decide (r.1.quantum = 16 ∧
      r.1.segqueue.map r.1.range = [(0x8000, 0x100), (0x8000, 0x100)] ∧
      ∃ x ∈ r.2.2.2.1.segqueue, (r.2.2.2.1.seg x).type = .allocated ∧
        r.2.2.2.1.range x = (0x8000, 32))) = .ok true := by
    set_option maxRecDepth 4096 in decide
  rcases Except.map_eq_ok hrun with ⟨⟨vmp, pool, addr, vmp', w', second⟩, he, hfacts⟩
  rcases of_decide_eq_true hfacts with ⟨hquantum, hsegs, x, hx, ht, hrange⟩
  rcases allocTwice_eq_ok (by decide) (by decide) he with ⟨hstart, hstep, _⟩
  have hunit : NoUnit ⟨false⟩ vmp 32 := by
    intro y hy _ start hfit
    have hmem := List.mem_map_of_mem (f := vmp.range) hy
    rw [hsegs] at hmem
    have hall : vmp.range y = (0x8000, 0x100) := by simpa using hmem
    have hbase : (vmp.seg y).base = 0x8000 := congrArg Prod.fst hall
    have hsize : (vmp.seg y).size = 0x100 := congrArg Prod.snd hall
    dsimp only at hquantum
    rw [hquantum] at hfit
    have hstart := (segFit_aligned (k := 4) (hbase ▸ by decide) (by decide) (hsize ▸ by decide)
      (by omega) hfit).1
    exact ⟨by omega, by omega⟩
  have hguard : IndexGuard ⟨false⟩ (2 ^ 32) (⟨vmp, ⟨pool, 0, ()⟩⟩ : VmemState Unit) (.alloc 32 0) := by
    dsimp only at hquantum
    refine ⟨by decide, ?_, ?_, hunit⟩
    . show 0 < vmp.quantum
      omega
    . show 2 ^ 32 + vmp.quantum ≤ 2 ^ 64
      omega
  have hmem : (0x8000, 32) ∈ vmp'.ranges [] .allocated := ⟨x, hx, by simp, ht, hrange⟩
  have h := index_in_bounds (ownSpan_source 1) ownSpan_defined rfl (fun _ _ hheld => hheld)
    (.next (.start hstart) ⟨hguard, hstep⟩)
  exact ⟨_, hmem, h.2.1 _ _ 32 hmem⟩

theorem index_out_of_bounds
    : getList 1 - 1 = -1 ∧ ∃ s s' : VmemState Unit,
        VmemStart ⟨false⟩ (fun _ => []) Low s ∧
        vmemAlloc ⟨false⟩ ownSpan 1 s.vmp s.world 1 0 = .error .undefined ∧
        IndexStep ⟨false⟩ ownSpan s (.alloc 31 0) s' ∧
        vmemAlloc ⟨false⟩ ownSpan 1 s'.vmp s'.world 16 0 = .error .undefined := by
  have hrun : (allocTwice 31 16).map (fun r => decide (
      (vmemAlloc ⟨false⟩ ownSpan 1 r.1 ⟨r.2.1, 0, ()⟩ 1 0).map Prod.fst = .error .undefined ∧
      r.2.2.2.2.2.map Prod.fst = .error .undefined)) = .ok true := by
    set_option maxRecDepth 4096 in decide
  have herror : ∀ e : Except Fault (Nat × Vmem × World Unit), e.map Prod.fst = .error .undefined →
      e = .error .undefined := by
    intro e he
    cases e with
    | ok r => cases he
    | error f =>
      cases he
      rfl
  rcases Except.map_eq_ok hrun with ⟨⟨vmp, pool, addr, vmp', w', second⟩, he, hfacts⟩
  rcases of_decide_eq_true hfacts with ⟨hone, hsecond⟩
  rcases allocTwice_eq_ok (by decide) (by decide) he with ⟨hstart, hstep, hcall⟩
  refine ⟨by decide, _, _, hstart, herror _ hone, hstep, ?_⟩
  rw [hcall]
  exact herror _ hsecond

end Vmem
end Nyy
