import NyyKernel.Vmem.Xalloc

namespace Nyy
namespace Vmem

section Calls

variable {τ : Type} (cfg : Config) (ops : VmemOps τ)

def loopImports (req : XallocReq) (fuel first : Nat) (vmp : Vmem) (w : World τ)
    : List (Vmem × World τ) :=
  match fuel with
  | 0 => []
  | fuel + 1 =>
    match xallocPass cfg req first vmp with
    | .ok (none, first) =>
      match vmemImport cfg ops vmp w req.size req.vmflag with
      | .ok (true, vmp', w') => (vmp, w) :: loopImports req fuel first vmp' w'
      | _ => [(vmp, w)]
    | _ => []

def xallocImports (fuel : Nat) (vmp : Vmem) (w : World τ) (req : XallocReq) : List (Vmem × World τ) :=
  match xallocEnter cfg ops vmp w req with
  | .ok (first, _, _, vmp1, w1) =>
    loopImports cfg ops (effective vmp.quantum req) fuel first.val vmp1 w1
  | .error _ => []

end Calls

variable {τ : Type} {cfg : Config} {ops : VmemOps τ} {vmp vmp' : Vmem} {w w' : World τ} {req : XallocReq}
  {first first' fuel start : Nat} {pool pool' : SegPool} {found : SegId × Nat} {nf x : SegId} {i : Fin 64}

theorem xallocLoop_of_found (fuel : Nat) (w : World τ)
    (h : xallocPass cfg req first vmp = .ok (some found, first'))
    : xallocLoop cfg ops req (fuel + 1) first vmp w = .ok (some found, vmp, w) := by
  unfold xallocLoop
  rw [h]
  rfl

theorem loopImports_of_found (fuel : Nat) (w : World τ)
    (h : xallocPass cfg req first vmp = .ok (some found, first'))
    : loopImports cfg ops req fuel first vmp w = [] := by
  cases fuel with
  | zero => rfl
  | succ fuel =>
    unfold loopImports
    rw [h]

theorem xallocLoop_of_import (fuel : Nat) (h : xallocPass cfg req first vmp = .ok (none, first'))
    (himport : vmemImport cfg ops vmp w req.size req.vmflag = .ok (true, vmp', w'))
    : xallocLoop cfg ops req (fuel + 1) first vmp w = xallocLoop cfg ops req fuel first' vmp' w' ∧
        loopImports cfg ops req (fuel + 1) first vmp w =
          (vmp, w) :: loopImports cfg ops req fuel first' vmp' w' := by
  constructor
  . rw [xallocLoop, h, Except.ok_bind]
    dsimp only
    rw [himport, Except.ok_bind]
    rfl
  . rw [loopImports, h]
    dsimp only
    rw [himport]

theorem listsFrom_cons (i : Fin 64) : listsFrom i.val = i :: listsFrom (i.val + 1) := by
  revert i
  decide +kernel

theorem vmemAddInternal_head {base size : Nat} {imported : Bool}
    (he : vmemAddInternal cfg vmp pool base size imported = .ok (nf, vmp', pool'))
    : ∃ i, freelistForSize size = .ok i ∧
        vmp'.freelist = Function.update vmp.freelist i (nf :: vmp.freelist i) ∧
        (vmp'.seg nf).type = .free ∧ (vmp'.seg nf).base = base ∧ (vmp'.seg nf).size = size ∧
        vmp'.quantum = vmp.quantum := by
  unfold vmemAddInternal at he
  rcases Except.bind_eq_ok he with ⟨⟨ns, pool1⟩, _, he⟩
  rcases Except.bind_eq_ok he with ⟨⟨nf, pool2⟩, _, he⟩
  dsimp only [vmemInsertSegment, vmemAddToFreelist] at he
  simp only [pure_bind, setSeg_self, bind_assoc] at he
  rcases Except.bind_eq_ok he with ⟨i, hi, he⟩
  cases he
  exact ⟨i, hi, rfl, by simp [setSeg], by simp [setSeg], by simp [setSeg], rfl⟩

theorem bestFit_of_head {xs : List SegId} (hlist : vmp.freelist i = x :: xs)
    (hsize : req.size ≤ (vmp.seg x).size) (hfit : req.fit cfg vmp x = .ok (some start))
    : bestFit cfg req vmp (listsFrom i.val) = .ok (some (x, start)) := by
  rw [listsFrom_cons, bestFit, hlist, bestFitList, if_pos hsize, hfit]
  rfl

theorem xallocPass_of_added {k : Nat} (hk : k < 64) {size addr : Nat} {flag : BitVec 32} {first : Fin 64}
    (hpos : 0 < size) (hdvd : 2 ^ k ∣ addr) (hbelow : addr + size < 2 ^ 64)
    (hfirst : freelistForSize size = .ok first)
    (he : vmemAddInternal cfg vmp pool addr size true = .ok (nf, vmp', pool'))
    : xallocPass cfg (allocReq (2 ^ k) size flag) first.val vmp' =
        .ok (some (nf, addr), first.val) := by
  rcases vmemAddInternal_head he with ⟨i, hi, hlist, _, hbase, hsize, _⟩
  rw [hfirst] at hi
  cases hi
  have hhead : vmp'.freelist first = nf :: vmp.freelist first := by
    rw [hlist, Function.update_self]
  have hfit : (allocReq (2 ^ k) size flag).fit cfg vmp' nf = .ok (some addr) := by
    have hwhole := segFit_whole cfg (s := vmp'.seg nf) (k := k) (hbase.symm ▸ hdvd) hk
      (hsize.symm ▸ hpos) (by
        rw [hbase, hsize]
        exact hbelow)
    rw [hsize, hbase] at hwhole
    exact hwhole
  have hbest := bestFit_of_head hhead (Nat.le_of_eq hsize.symm) hfit
  have hreq : allocReq (2 ^ k) size flag =
      effective (2 ^ k) ⟨size, 0, 0, 0, vmemAddrMin, vmemAddrMax, flag⟩ := rfl
  rw [hreq] at hbest ⊢
  rw [xallocPass_eq, hbest]
  rfl

theorem xallocFound_whole (cfg : Config) (pool : SegPool) (newSeg newSeg2 : SegId) {size : Nat}
    (ht : (vmp.seg x).type = .free) (hbase : (vmp.seg x).base = start) (hsize : (vmp.seg x).size = size)
    : ∃ vmp' pool', xallocFound cfg vmp pool x start newSeg newSeg2 size = .ok (start, vmp', pool') := by
  have hplace : ∀ pool : SegPool, xallocPlace (vmp.listRemove x) pool x newSeg size =
      .ok (x, xallocTakeWhole (vmp.listRemove x) x, segFree newSeg pool) := by
    intro pool
    unfold xallocPlace
    rw [if_neg (fun h => h.1 hsize)]
    rfl
  have hne : ¬ ((vmp.listRemove x).seg x).base ≠ start := not_not_intro hbase
  have hwhole : ((xallocTakeWhole (vmp.listRemove x) x).seg x).size = size := by
    simp [xallocTakeWhole, hashtabInsert, setSeg, listRemove, hsize]
  have hstart : ((xallocFinish (xallocTakeWhole (vmp.listRemove x) x) x).seg x).base = start := by
    simp [xallocFinish, xallocTakeWhole, hashtabInsert, setSeg, listRemove, hbase]
  refine ⟨xallocFinish (xallocTakeWhole (vmp.listRemove x) x) x, segFree newSeg2 (segFree newSeg pool),
    ?_⟩
  unfold xallocFound xallocFront
  rw [ht, hsize]
  simp only [beq_self_eq_true, check_true, Except.ok_bind, Nat.le_refl, decide_true]
  rw [if_neg hne, Except.ok_bind, check_of cfg (by simpa using hbase), Except.ok_bind, hplace,
    Except.ok_bind, hwhole, check_of cfg (by simp), Except.ok_bind, if_neg hne,
    hstart]
  rfl

theorem loop_twice (h : ∀ first1 vmp1 w1, xallocPass cfg req first vmp = .ok (none, first1) →
      vmemImport cfg ops vmp w req.size req.vmflag = .ok (true, vmp1, w1) →
      ∃ found first2, xallocPass cfg req first1 vmp1 = .ok (some found, first2)) (fuel : Nat)
    : (loopImports cfg ops req fuel first vmp w).length ≤ 1 ∧
        xallocLoop cfg ops req (fuel + 2) first vmp w = xallocLoop cfg ops req 2 first vmp w := by
  constructor
  . cases fuel with
    | zero => exact Nat.zero_le 1
    | succ fuel =>
      unfold loopImports
      split
      . next first1 hpass =>
        split
        . next vmp1 w1 himport =>
          rcases h first1 vmp1 w1 hpass himport with ⟨found, first2, hfound⟩
          rw [loopImports_of_found fuel w1 hfound]
          exact Nat.le_refl 1
        . exact Nat.le_refl 1
      . exact Nat.zero_le 1
  . rw [xallocLoop, xallocLoop]
    apply Except.bind_congr
    rintro ⟨found, first1⟩ hpass
    cases found with
    | some f => rfl
    | none =>
      apply Except.bind_congr
      rintro ⟨imported, vmp1, w1⟩ himport
      cases imported with
      | false => rfl
      | true =>
        rcases h first1 vmp1 w1 hpass himport with ⟨found, first2, hfound⟩
        dsimp only
        rw [if_pos rfl, if_pos rfl, xallocLoop_of_found fuel w1 hfound, xallocLoop_of_found 0 w1 hfound]

theorem mem_loopImports (h : xallocPass cfg req first vmp = .ok (none, first'))
    : (vmp, w) ∈ loopImports cfg ops req 1 first vmp w := by
  unfold loopImports
  rw [h]
  dsimp only
  split <;> exact List.mem_cons_self

theorem eq_of_mem_loopImports {x : Vmem × World τ}
    (hlen : (loopImports cfg ops req fuel first vmp w).length ≤ 1)
    (hmem : x ∈ loopImports cfg ops req fuel first vmp w)
    : x = (vmp, w) ∧ ∃ first1, xallocPass cfg req first vmp = .ok (none, first1) := by
  cases fuel with
  | zero => cases hmem
  | succ fuel =>
    unfold loopImports at hlen hmem
    split at hmem
    . next first1 hpass =>
      rw [hpass] at hlen
      dsimp only at hlen
      refine ⟨?_, first1, hpass⟩
      split at hmem
      . next vmp1 w1 himport =>
        rw [himport] at hlen
        have hrest : loopImports cfg ops req fuel first1 vmp1 w1 = [] := by
          simpa using hlen
        rw [hrest] at hmem
        exact List.mem_singleton.mp hmem
      . exact List.mem_singleton.mp hmem
    . cases hmem

theorem vmemAddInternal_ok (cfg : Config) (vmp : Vmem) {size : Nat} (base : Nat) (imported : Bool)
    (htags : 2 ≤ pool.freeSegs.length) (hi : freelistForSize size = .ok i)
    : ∃ nf vmp' pool', vmemAddInternal cfg vmp pool base size imported = .ok (nf, vmp', pool') := by
  rcases pool with ⟨free, n, npages⟩
  match free, htags with
  | x :: y :: rest, _ =>
    unfold vmemAddInternal segAlloc
    dsimp only [vmemInsertSegment, vmemAddToFreelist]
    simp only [List.isEmpty_cons, Bool.not_false, check_true, Except.ok_bind, pure_bind, setSeg_self, hi]
    exact ⟨_, _, _, rfl⟩

section Once

variable {k size first : Nat} {flag : BitVec 32}
  {alloc : Nat → BitVec 32 → World τ → Except Fault (Nat × World τ)}

def Supplies (alloc : Nat → BitVec 32 → World τ → Except Fault (Nat × World τ)) (q size : Nat)
    (flag : BitVec 32) (w : World τ) : Prop :=
  ∀ addr w', alloc size flag w = .ok (addr, w') → addr ≠ 0 ∧ q ∣ addr ∧ addr + size < 2 ^ 64

theorem Supplies.pass {first : Fin 64} (hk : k < 64) (hpos : 0 < size)
    (hfirst : freelistForSize size = .ok first) (halloc : ops.alloc = some alloc)
    (hs : Supplies alloc (2 ^ k) size (allocReq (2 ^ k) size flag).vmflag w)
    (he : vmemImport cfg ops vmp w size (allocReq (2 ^ k) size flag).vmflag = .ok (true, vmp', w'))
    : ∃ addr w1 nf, alloc size (allocReq (2 ^ k) size flag).vmflag w = .ok (addr, w1) ∧
        (vmp'.seg nf).type = .free ∧ (vmp'.seg nf).base = addr ∧ (vmp'.seg nf).size = size ∧
        xallocPass cfg (allocReq (2 ^ k) size flag) first.val vmp' =
          .ok (some (nf, addr), first.val) := by
  rcases vmemImport_eq_ok he with ⟨alloc1, addr, w1, nf, pool, halloc1, hcall, _, hadd, _⟩
  rw [halloc] at halloc1
  cases halloc1
  rcases hs addr w1 hcall with ⟨_, hdvd, hbelow⟩
  rcases vmemAddInternal_head hadd with ⟨_, _, _, ht, hbase, hsize, _⟩
  exact ⟨addr, w1, nf, hcall, ht, hbase, hsize, xallocPass_of_added hk hpos hdvd hbelow hfirst hadd⟩

theorem one_import_suffices (cfg : Config) (w : World τ) (hk : k < 64) (hquantum : vmp.quantum = 2 ^ k)
    (hsize : 1 < size) (halloc : ops.alloc = some alloc)
    (hs : ∀ v w1, (v, w1) ∈
        xallocImports cfg ops 1 vmp w ⟨size, 0, 0, 0, vmemAddrMin, vmemAddrMax, flag⟩ →
      Supplies alloc (2 ^ k) size (allocReq (2 ^ k) size flag).vmflag w1) (fuel : Nat)
    : (xallocImports cfg ops fuel vmp w ⟨size, 0, 0, 0, vmemAddrMin, vmemAddrMax, flag⟩).length ≤ 1 ∧
        vmemAlloc cfg ops (fuel + 2) vmp w size flag = vmemAlloc cfg ops 2 vmp w size flag ∧
        ∀ v w1, (v, w1) ∈
            xallocImports cfg ops 2 vmp w ⟨size, 0, 0, 0, vmemAddrMin, vmemAddrMax, flag⟩ →
          ∀ addr w2, alloc size (allocReq (2 ^ k) size flag).vmflag w1 = .ok (addr, w2) →
            2 ≤ w2.pool.freeSegs.length →
            ∃ vmp' w', vmemAlloc cfg ops 2 vmp w size flag = .ok (addr, vmp', w') := by
  have hpos : 0 < size := by omega
  have hreq : effective vmp.quantum ⟨size, 0, 0, 0, vmemAddrMin, vmemAddrMax, flag⟩ =
      allocReq (2 ^ k) size flag := by
    rw [hquantum]
    rfl
  unfold xallocImports at hs
  unfold vmemAlloc xallocImports
  rw [vmemXalloc_eq, vmemXalloc_eq, hreq]
  rw [hreq] at hs
  cases henter : xallocEnter cfg ops vmp w ⟨size, 0, 0, 0, vmemAddrMin, vmemAddrMax, flag⟩ with
  | error e => exact ⟨Nat.zero_le 1, rfl, by simp⟩
  | ok r =>
    rcases r with ⟨first, newSeg, newSeg2, vmp1, w1⟩
    rcases xallocEnter_eq_ok henter with ⟨_, _, _, hfirst, _⟩
    rw [henter] at hs
    have hsupplies : ∀ first1, xallocPass cfg (allocReq (2 ^ k) size flag) first.val vmp1 =
        .ok (none, first1) → Supplies alloc (2 ^ k) size (allocReq (2 ^ k) size flag).vmflag w1 :=
      fun first1 hpass => hs vmp1 w1 (mem_loopImports hpass)
    have htwice : ∀ fuel,
        (loopImports cfg ops (allocReq (2 ^ k) size flag) fuel first.val vmp1 w1).length ≤ 1 ∧
          xallocLoop cfg ops (allocReq (2 ^ k) size flag) (fuel + 2) first.val vmp1 w1 =
            xallocLoop cfg ops (allocReq (2 ^ k) size flag) 2 first.val vmp1 w1 := by
      apply loop_twice
      intro first1 vmp2 w2 hpass himport
      rcases xallocPass_best hpass with ⟨_, rfl⟩
      rcases (hsupplies _ hpass).pass hk hpos hfirst halloc himport with ⟨addr, _, nf, _, _, _, _, hpass1⟩
      exact ⟨_, _, hpass1⟩
    refine ⟨(htwice fuel).1, ?_, ?_⟩
    . simp only [Except.ok_bind]
      rw [(htwice fuel).2]
    . intro v w2 hmem addr w3 hcall htags
      dsimp only at hmem
      rcases eq_of_mem_loopImports (htwice 2).1 hmem with ⟨heq, first1, hpass⟩
      cases heq
      rcases xallocPass_best hpass with ⟨_, rfl⟩
      rcases vmemAddInternal_ok cfg vmp1 addr true htags hfirst with ⟨nf, vmp2, pool2, hadd⟩
      have himport : vmemImport cfg ops vmp1 w1 size (allocReq (2 ^ k) size flag).vmflag =
          .ok (true, vmp2, { w3 with pool := pool2 }) := by
        unfold vmemImport
        rw [halloc]
        dsimp only
        rw [hcall, Except.ok_bind]
        dsimp only
        rw [if_neg (hsupplies _ hpass addr w3 hcall).1, hadd]
        rfl
      rcases (hsupplies _ hpass).pass hk hpos hfirst halloc himport with
        ⟨addr1, _, nf1, hcall1, ht, hbase, hsz, hpass1⟩
      rw [hcall] at hcall1
      cases hcall1
      rcases xallocFound_whole cfg pool2 newSeg newSeg2 ht hbase hsz with ⟨vmp3, pool3, hfound⟩
      rw [Except.ok_bind]
      dsimp only
      rw [(xallocLoop_of_import 1 hpass himport).1, xallocLoop_of_found 0 _ hpass1, Except.ok_bind]
      dsimp only
      rw [hfound]
      exact ⟨_, _, rfl⟩

end Once

-- a source that has one range, and gives it out once
def giveOnce (_ : Nat) (_ : BitVec 32) (w : World Bool) : Except Fault (Nat × World Bool) :=
  if w.ext then .ok (0, w) else .ok (0x10000, { w with ext := true })

def oneRange : VmemOps Bool := ⟨fun given => .ok given, some giveOnce, none⟩

theorem one_import_suffices_empty
    : ∃ vmp pool vmp' w',
        arenaAt 0 0 4096 true = .ok (vmp, pool) ∧
        vmemAlloc ⟨false⟩ oneRange 2 vmp ⟨pool, 0, false⟩ 0x3000 0 = .ok (0x10000, vmp', w') := by
  have hrun : (arenaAt 0 0 4096 true).map
      (fun r : Vmem × SegPool => (r.1.quantum, [1, 2].map fun fuel =>
        (xallocImports ⟨false⟩ oneRange fuel r.1 ⟨r.2, 0, false⟩
          ⟨0x3000, 0, 0, 0, vmemAddrMin, vmemAddrMax, 0⟩).map
            fun x : Vmem × World Bool => (x.2.pool.freeSegs.length, x.2.ext))) =
      .ok (4096, [[(126, false)], [(126, false)]]) := by
    decide +kernel
  rcases Except.map_eq_ok hrun with ⟨⟨vmp, pool⟩, hinit, hfacts⟩
  injection hfacts with hquantum himports
  injection himports with hone himports
  injection himports with htwo _
  rcases List.map_eq_singleton_iff.mp hone with ⟨⟨v1, w1⟩, hlist1, hfacts1⟩
  rcases List.map_eq_singleton_iff.mp htwo with ⟨⟨v2, w2⟩, hlist2, hfacts2⟩
  injection hfacts1 with _ hext1
  injection hfacts2 with htags2 hext2
  have hgiven : ∀ w : World Bool, w.ext = false →
      giveOnce 0x3000 (allocReq (2 ^ 12) 0x3000 0).vmflag w = .ok (0x10000, { w with ext := true }) := by
    intro w hw
    unfold giveOnce
    rw [hw]
    rfl
  have hsupplies : ∀ v w, (v, w) ∈ xallocImports ⟨false⟩ oneRange 1 vmp ⟨pool, 0, false⟩
      ⟨0x3000, 0, 0, 0, vmemAddrMin, vmemAddrMax, 0⟩ →
      Supplies giveOnce (2 ^ 12) 0x3000 (allocReq (2 ^ 12) 0x3000 0).vmflag w := by
    intro v w hmem addr w' hcall
    rw [hlist1, List.mem_singleton] at hmem
    cases hmem
    rw [hgiven w1 hext1] at hcall
    cases hcall
    decide
  have h := one_import_suffices (k := 12) ⟨false⟩ ⟨pool, 0, false⟩ (by decide) hquantum
    (show 1 < 0x3000 by decide) (show oneRange.alloc = some giveOnce from rfl) hsupplies 0
  rcases h.2.2 v2 w2 (hlist2 ▸ List.mem_singleton_self _) 0x10000 _ (hgiven w2 hext2) (by
    show 2 ≤ w2.pool.freeSegs.length
    rw [show w2.pool.freeSegs.length = 126 from htags2]
    decide) with ⟨vmp', w', halloc⟩
  exact ⟨vmp, pool, vmp', w', hinit, halloc⟩

end Vmem
end Nyy
