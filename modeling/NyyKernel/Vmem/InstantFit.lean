import NyyKernel.Vmem.Drain
import NyyKernel.Vmem.Imports

/-!
This module contains the instant fit branch of the search, which the source replaces by best fit
because of an unexplained loop.
-/

namespace Nyy
namespace Vmem

def instantReq (quantum size : Nat) (flag : BitVec 32) : XallocReq :=
  ⟨size, quantum, 0, 0, vmemAddrMin, vmemAddrMax, flag⟩

section Search

variable {cfg : Config} {vmp vmp' : Vmem} {req : XallocReq}

theorem instantFit_eq_none {is : List (Fin 64)}
    : instantFit cfg req vmp is = .ok none ↔
        ∀ i ∈ is, ∀ x, (vmp.freelist i).head? = some x → req.fit cfg vmp x = .ok none := by
  induction is with
  | nil => exact ⟨fun _ i hi => absurd hi List.not_mem_nil, fun _ => rfl⟩
  | cons i is ih =>
    rw [List.forall_mem_cons, ← ih, instantFit]
    cases hhead : (vmp.freelist i).head? with
    | none => simp
    | some x =>
      simp only [Option.some.injEq, forall_eq']
      rcases hfit : req.fit cfg vmp x with e | _ | start
      . constructor
        . intro h
          cases h
        . intro h
          cases h.1
      . exact ⟨fun h => ⟨rfl, h⟩, fun h => h.2⟩
      . constructor
        . intro h
          cases h
        . intro h
          cases h.1

end Search

def Accepts (cfg : Config) (quantum addr size : Nat) : Prop :=
  ∃ start, segFit cfg ⟨.free, false, addr, size⟩ size quantum 0 0 vmemAddrMin vmemAddrMax =
    .ok (some start)

theorem Accepts.of_aligned (cfg : Config) {k addr size : Nat} (hk : k < 64) (hpos : 0 < size)
    (hdvd : 2 ^ k ∣ addr) (hbelow : addr + size < 2 ^ 64)
    : Accepts cfg (2 ^ k) addr size :=
  ⟨addr, segFit_whole cfg (s := ⟨.free, false, addr, size⟩) hdvd hk hpos hbelow⟩

section Pass

variable {τ : Type} {cfg : Config} {ops : VmemOps τ} {q addr : Nat} {others : τ → List SegId}
  {J : τ → Set (Nat × Nat) → Prop} {vmp vmp' : Vmem} {w w' : World τ} {mine : List SegId} {size : Nat}
  {flag : BitVec 32} {first : Fin 64}

def nextFirst (size first : Nat) : Nat := if size.isPowerOfTwo then first else first + 1

theorem xallocPass_instant (hpos : 0 < size) (hflag : flag &&& vmInstantfit ≠ 0) (quantum first : Nat)
    : xallocPass cfg (instantReq quantum size flag) first vmp = (do
        let found ← instantFit cfg (instantReq quantum size flag) vmp (listsFrom (nextFirst size first))
        return (found, nextFirst size first)) := by
  have hfirst : (if size &&& (size - 1) ≠ 0 then first + 1 else first) = nextFirst size first := by
    have hiff := Nat.and_sub_one_eq_zero_iff_isPowerOfTwo (n := size) (by omega)
    unfold nextFirst
    by_cases hpow : size.isPowerOfTwo
    . rw [if_pos hpow, if_neg (not_not_intro (hiff.mpr hpow))]
    . rw [if_neg hpow, if_pos (fun hzero => hpow (hiff.mp hzero))]
  unfold xallocPass
  rw [if_pos (show (instantReq quantum size flag).vmflag &&& vmInstantfit ≠ 0 from hflag)]
  rw [← hfirst]
  rfl

theorem instantFit_of_added {ns nf : SegId} {bound : Nat} (h : Inv vmp [])
    (hw : AddWrites vmp vmp' ns nf addr size true) (hns : ns ∉ vmp.segqueue) (hnf : nf ∉ vmp.segqueue)
    (hfirst : freelistForSize size = .ok first) (hbound : first.val < bound) {req : XallocReq}
    (hnone : ∀ i : Fin 64, bound ≤ i.val → ∀ x, (vmp.freelist i).head? = some x →
      req.fit cfg vmp x = .ok none)
    : instantFit cfg req vmp' (listsFrom bound) = .ok none := by
  rw [instantFit_eq_none]
  intro i hi x hx
  rw [mem_listsFrom_iff] at hi
  rcases hw.freelist with ⟨j, hj, hlist⟩
  rw [hfirst] at hj
  cases hj
  have hne : i ≠ first := by
    rintro rfl
    omega
  rw [hlist, Function.update_of_ne hne] at hx
  have hmem := ((h.freelist.mem x i).mp (List.mem_of_head? hx)).1
  have hseg : vmp'.seg x = vmp.seg x :=
    hw.other x (fun heq => hns (heq ▸ hmem)) (fun heq => hnf (heq ▸ hmem))
  have hfail := hnone i hi x hx
  unfold XallocReq.fit at hfail ⊢
  rw [hseg]
  exact hfail

theorem Good.instant_pass (hs : Source ops 1 others J) (h : Good 1 others J vmp w mine) {first1 : Nat}
    {w1 : World τ} {quantum : Nat} {alloc : Nat → BitVec 32 → World τ → Except Fault (Nat × World τ)}
    (hpos : 0 < size) (hlt : size < 2 ^ 64) (hflag : flag &&& vmInstantfit ≠ 0)
    (hfirst : freelistForSize size = .ok first)
    (hpass : xallocPass cfg (instantReq quantum size flag) first.val vmp = .ok (none, first1))
    (halloc : ops.alloc = some alloc) (hcall : alloc size flag w = .ok (addr, w1))
    (himport : vmemImport cfg ops vmp w size flag = .ok (true, vmp', w'))
    : ∃ found first2, xallocPass cfg (instantReq quantum size flag) first1 vmp' = .ok (found, first2) ∧
        (found.isSome ↔ size.isPowerOfTwo ∧ Accepts cfg quantum addr size) := by
  rcases vmemImport_eq_ok himport with ⟨alloc1, addr1, w2, nf, pool, halloc1, hcall1, hzero, hadd, _⟩
  rw [halloc] at halloc1
  cases halloc1
  rw [hcall] at hcall1
  cases hcall1
  rcases hs.alloc halloc h.source h.pool hpos hlt (one_dvd _) hcall with ⟨hpool, _, _⟩
  rw [List.append_assoc] at hpool
  rcases vmemAddInternal_writes hpool hadd with ⟨ns, hns, hnf, _, _, hw⟩
  change AddWrites vmp vmp' ns nf addr size true at hw
  rw [xallocPass_instant hpos hflag] at hpass
  rcases Except.bind_eq_ok hpass with ⟨_, hnone, hpass⟩
  cases hpass
  rw [instantFit_eq_none] at hnone
  simp only [mem_listsFrom_iff] at hnone
  rw [xallocPass_instant hpos hflag]
  by_cases hpow : size.isPowerOfTwo
  . have hnext : ∀ n, nextFirst size n = n := fun n => if_pos hpow
    simp only [hnext] at hnone ⊢
    have hrest := instantFit_of_added h.inv hw hns hnf hfirst (Nat.lt_succ_self _)
      (fun i hi => hnone i (by omega))
    -- the new segment is the first one that is looked at
    have hhead : (vmp'.freelist first).head? = some nf := by
      rcases hw.freelist with ⟨j, hj, hlist⟩
      rw [hfirst] at hj
      cases hj
      rw [hlist, Function.update_self]
      rfl
    have hfit : (instantReq quantum size flag).fit cfg vmp' nf =
        segFit cfg ⟨.free, false, addr, size⟩ size quantum 0 0 vmemAddrMin vmemAddrMax := by
      unfold XallocReq.fit
      rw [hw.free]
      rfl
    rcases segFit_returns (s := ⟨.free, false, addr, size⟩) quantum 0 vmemAddrMin vmemAddrMax hpos
      (Nat.le_refl _) (show check cfg (0 == 0) = .ok () from check_true cfg) with ⟨r, hr⟩
    rw [listsFrom_cons, instantFit, hhead]
    dsimp only
    rw [hfit, hr, Except.ok_bind]
    cases r with
    | some start => exact ⟨_, _, rfl, by simpa using ⟨hpow, start, hr⟩⟩
    | none =>
      dsimp only
      rw [hrest]
      refine ⟨none, _, rfl, ?_⟩
      simp only [Option.isSome_none, Bool.false_eq_true, false_iff]
      rintro ⟨_, start, hstart⟩
      rw [hr] at hstart
      cases hstart
  . have hnext : ∀ n, nextFirst size n = n + 1 := fun n => if_neg hpow
    simp only [hnext] at hnone ⊢
    have hrest := instantFit_of_added h.inv hw hns hnf hfirst (show first.val < first.val + 1 + 1 by omega)
      (fun i hi => hnone i (by omega))
    rw [hrest]
    exact ⟨none, _, rfl, by simp [hpow]⟩

theorem instantfit_one_import_iff (hs : Source ops 1 others J) (h : Good 1 others J vmp w mine)
    {first : Fin 64} {first1 addr : Nat} {w1 : World τ}
    {alloc : Nat → BitVec 32 → World τ → Except Fault (Nat × World τ)} (hpos : 0 < size)
    (hlt : size < 2 ^ 64) (hflag : flag &&& vmInstantfit ≠ 0) (hfirst : freelistForSize size = .ok first)
    (hpass : xallocPass cfg (instantReq vmp.quantum size flag) first.val vmp = .ok (none, first1))
    (halloc : ops.alloc = some alloc) (hcall : alloc size flag w = .ok (addr, w1))
    (himport : vmemImport cfg ops vmp w size flag = .ok (true, vmp', w'))
    : ((∃ found first2, xallocPass cfg (instantReq vmp.quantum size flag) first1 vmp' =
          .ok (some found, first2)) ↔
            size.isPowerOfTwo ∧ Accepts cfg vmp.quantum addr size) ∧
        ((∀ fuel, (loopImports cfg ops (instantReq vmp.quantum size flag) fuel first.val vmp w).length
          ≤ 1) ↔ size.isPowerOfTwo ∧ Accepts cfg vmp.quantum addr size) ∧
        ∀ k < 64, vmp.quantum = 2 ^ k → 2 ^ k ∣ addr → addr + size < 2 ^ 64 →
          Accepts cfg vmp.quantum addr size := by
  rcases h.instant_pass hs hpos hlt hflag hfirst hpass halloc hcall himport with
    ⟨found, first2, hpass1, hiff⟩
  refine ⟨?_, ?_, ?_⟩
  . rw [← hiff, hpass1]
    cases found with
    | none => simp
    | some f => simp
  . rw [← hiff]
    constructor
    . intro hall
      cases found with
      | some f => rfl
      | none =>
        have hlen := hall 2
        rw [(xallocLoop_of_import 1 hpass himport).2, loopImports, hpass1] at hlen
        dsimp only at hlen
        split at hlen <;> simp at hlen
    . intro hsome
      rcases Option.isSome_iff_exists.mp hsome with ⟨f, rfl⟩
      intro fuel
      refine (loop_twice ?_ fuel).1
      intro first3 vmp3 w3 hpass3 himport3
      rw [hpass] at hpass3
      cases hpass3
      rw [show (instantReq vmp.quantum size flag).size = size from rfl,
        show (instantReq vmp.quantum size flag).vmflag = flag from rfl, himport] at himport3
      cases himport3
      exact ⟨f, first2, hpass1⟩
  . intro k hk hquantum hdvd hbelow
    rw [hquantum]
    exact .of_aligned cfg hk hpos hdvd hbelow

end Pass

theorem instantfit_one_import_iff_pages
    : ∃ (vmp : Vmem) (pool : SegPool) (first : Fin 64),
        arenaAt 0 0 4096 true = .ok (vmp, pool) ∧
        freelistForSize 0x4000 = .ok first ∧
        ∀ fuel, (loopImports ⟨false⟩ bumpSpans (instantReq vmp.quantum 0x4000 vmInstantfit) fuel
          first.val vmp ⟨pool, 0, 0x8000⟩).length ≤ 1 := by
  have hrun : (do
      let r ← arenaAt 0 0 4096 true
      let first ← freelistForSize 0x4000
      let pass ← xallocPass ⟨false⟩ (instantReq r.1.quantum 0x4000 vmInstantfit) first.val r.1
      let imported ← vmemImport ⟨false⟩ bumpSpans r.1 ⟨r.2, 0, 0x8000⟩ 0x4000 vmInstantfit
      return (r.1.quantum, pass.1, imported.1)) = .ok (4096, none, true) := by
    decide
  rcases Except.bind_eq_ok hrun with ⟨⟨vmp, pool⟩, hinit, hrun⟩
  rcases Except.bind_eq_ok hrun with ⟨first, hfirst, hrun⟩
  rcases Except.bind_eq_ok hrun with ⟨⟨found, first1⟩, hpass, hrun⟩
  rcases Except.bind_eq_ok hrun with ⟨⟨imported, vmp1, w1⟩, himport, hrun⟩
  injection hrun with hrun
  simp only [Prod.mk.injEq] at hrun
  rcases hrun with ⟨hquantum, rfl, rfl⟩
  have hgood : Good 1 (fun _ => []) (BumpOk 1) vmp ⟨pool, 0, 0x8000⟩ [] := by
    refine (Good.init 0 .vmemBootstrap (one_dvd _) (one_dvd _) (by decide) (by decide) hinit ?_).1
    cases hinit
    refine ⟨by decide, by decide, ?_⟩
    rintro r ⟨x, hx, _⟩
    cases hx
  have h := instantfit_one_import_iff (bumpSpans_source 1) hgood (by decide) (by decide) (by decide)
    hfirst hpass (show bumpSpans.alloc = _ from rfl) (if_pos (show 0x8000 + 0x4000 < 2 ^ 64 by decide))
    himport
  refine ⟨vmp, pool, first, hinit, hfirst, h.2.1.mpr ⟨⟨14, by decide⟩, ?_⟩⟩
  exact h.2.2 12 (by decide) hquantum (show 2 ^ 12 ∣ 0x8000 by decide)
    (show 0x8000 + 0x4000 < 2 ^ 64 by decide)

theorem instantfit_imports_again
    : ∃ (vmp : Vmem) (pool : SegPool) (first : Fin 64),
        arenaAt 0 0 4096 true = .ok (vmp, pool) ∧
        vmp.quantum = 4096 ∧ freelistForSize 0x3000 = .ok first ∧
        (loopImports ⟨false⟩ bumpSpans (instantReq vmp.quantum 0x3000 vmInstantfit) 4
          first.val vmp ⟨pool, 0, 0x8000⟩).map
            (fun r : Vmem × World Nat => r.2.ext) = [0x8000, 0xB000, 0xE000, 0x11000] := by
  have hrun : (do
      let r ← arenaAt 0 0 4096 true
      let first ← freelistForSize 0x3000
      return (r.1, r.2, first)).map (fun r : Vmem × SegPool × Fin 64 => (r.1.quantum,
        (loopImports ⟨false⟩ bumpSpans (instantReq r.1.quantum 0x3000 vmInstantfit) 4
          r.2.2.val r.1 ⟨r.2.1, 0, 0x8000⟩).map (fun r : Vmem × World Nat => r.2.ext))) =
            .ok (4096, [0x8000, 0xB000, 0xE000, 0x11000]) := by
    decide
  rcases Except.map_eq_ok hrun with ⟨_, hrun, hfacts⟩
  rcases Except.bind_eq_ok hrun with ⟨⟨vmp, pool⟩, hinit, hrun⟩
  rcases Except.bind_eq_ok hrun with ⟨first, hfirst, hrun⟩
  cases hrun
  injection hfacts with hquantum himports
  exact ⟨vmp, pool, first, hinit, hquantum, hfirst, himports⟩

end Vmem
end Nyy
