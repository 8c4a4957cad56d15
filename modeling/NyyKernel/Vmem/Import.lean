import NyyKernel.Vmem.Arena

namespace Nyy
namespace Vmem

variable {τ : Type} {cfg : Config} {ops : VmemOps τ} {q first fuel k start addr : Nat}
  {others : τ → List SegId} {J : τ → Set (Nat × Nat) → Prop} {vmp vmp' : Vmem} {w w' : World τ}
  {mine : List SegId} {flag : BitVec 32} {req : XallocReq} {found : Option (SegId × Nat) × Nat}
  {nf x : SegId}

theorem effective_not_instantfit (quantum : Nat) (req : XallocReq)
    : (effective quantum req).vmflag &&& vmInstantfit = 0 := by
  have hbits : vmBestfit &&& vmInstantfit = 0 := by decide
  unfold effective
  dsimp only
  rw [BitVec.and_comm, BitVec.and_or_distrib_left, BitVec.and_comm vmInstantfit vmBestfit, hbits]
  apply BitVec.eq_of_getLsbD_eq
  intro i hi
  simp only [BitVec.getLsbD_or, BitVec.getLsbD_and, BitVec.getLsbD_not]
  cases vmInstantfit.getLsbD i <;> simp

theorem effective_bestfit (quantum : Nat) (req : XallocReq)
    : (effective quantum req).vmflag &&& vmBestfit ≠ 0 := by
  unfold effective
  dsimp only
  intro h
  have h := congrArg (fun v : BitVec 32 => v.getLsbD 0) h
  simp [vmBestfit] at h

theorem xallocPass_eq (cfg : Config) (quantum : Nat) (req : XallocReq) (first : Nat) (vmp : Vmem)
    : xallocPass cfg (effective quantum req) first vmp = (do
        let found ← bestFit cfg (effective quantum req) vmp (listsFrom first)
        return (found, first)) := by
  unfold xallocPass
  rw [if_neg (not_not_intro (effective_not_instantfit quantum req)),
    if_pos (effective_bestfit quantum req)]

theorem xallocPass_effective {quantum : Nat}
    (h : xallocPass cfg (effective quantum req) first vmp = .ok found)
    : bestFit cfg (effective quantum req) vmp (listsFrom first) = .ok found.1 ∧ found.2 = first := by
  rw [xallocPass_eq] at h
  rcases Except.bind_eq_ok h with ⟨f, hf, h⟩
  cases h
  exact ⟨hf, rfl⟩

theorem xallocPass_best {quantum size : Nat}
    (h : xallocPass cfg (allocReq quantum size flag) first vmp = .ok found)
    : bestFit cfg (allocReq quantum size flag) vmp (listsFrom first) = .ok found.1
      ∧ found.2 = first := by
  have hreq : allocReq quantum size flag =
      effective quantum ⟨size, 0, 0, 0, vmemAddrMin, vmemAddrMax, flag⟩ := rfl
  rw [hreq] at h ⊢
  exact xallocPass_effective h

theorem vmemAddInternal_stat {pool pool' : SegPool} {base size : Nat} {imported : Bool}
    (he : vmemAddInternal cfg vmp pool base size imported = .ok (nf, vmp', pool'))
    : vmp'.stat = vmp.stat := by
  unfold vmemAddInternal at he
  rcases Except.bind_eq_ok he with ⟨⟨ns, pool1⟩, _, he⟩
  rcases Except.bind_eq_ok he with ⟨⟨nf, pool2⟩, _, he⟩
  rcases Except.bind_eq_ok he with ⟨vmp1, he1, he⟩
  rcases Except.bind_eq_ok he with ⟨vmp2, he2, he⟩
  cases he
  rw [vmemAddToFreelist_stat he2, vmemInsertSegment_stat he1]
  rfl

theorem xallocLoop_stat {found : SegId × Nat}
    (he : xallocLoop cfg ops req fuel first vmp w = .ok (some found, vmp', w'))
    : vmp'.stat = vmp.stat := by
  refine (xallocLoop_rule (P := fun v _ => v.stat = vmp.stat) rfl ?_ he).1
  intro vmp1 w1 vmp2 w2 h himport
  rcases vmemImport_eq_ok himport with ⟨_, _, _, _, _, _, _, _, hadd, _⟩
  rw [vmemAddInternal_stat hadd, h]

structure Imported (ops : VmemOps τ) (vmp : Vmem) (w : World τ) (size : Nat) (flag : BitVec 32)
    (vmp' : Vmem) (ext' : τ) (addr : Nat) : Prop where
  call : ∃ alloc w1, ops.alloc = some alloc ∧ alloc size flag w = .ok (addr, w1) ∧ ext' = w1.ext
  nonzero : addr ≠ 0
  fresh : (addr, size) ∉ vmp.ranges [] .span
  spans : vmp'.ranges [] .span = insert (addr, size) (vmp.ranges [] .span)
  markers : ∀ y ∈ vmp'.segqueue, (vmp'.seg y).type = .span →
    (y ∈ vmp.segqueue ∧ vmp'.seg y = vmp.seg y) ∨
      ((vmp'.seg y).imported = true ∧ vmp'.range y = (addr, size))

theorem bestFit_of_added (hk : k < 64) (hqk : q = 2 ^ k) {first : Fin 64} {size : Nat} {ns : SegId}
    (h : Inv vmp []) (h' : Inv vmp' []) (hw : AddWrites vmp vmp' ns nf addr size true)
    (hns : ns ∉ vmp.segqueue) (hdvd : ∀ y ∈ vmp'.segqueue, q ∣ (vmp'.seg y).base)
    (hnone : bestFit cfg (allocReq q size flag) vmp (listsFrom first.val) = .ok none)
    (hsome : bestFit cfg (allocReq q size flag) vmp' (listsFrom first.val) = .ok (some (x, start)))
    : start = addr := by
  rcases bestFit_spec hsome with ⟨⟨i, hi, hx⟩, hfit⟩
  have hon := (h'.freelist.mem x i).mp hx
  have hstart : start = (vmp'.seg x).base ∧ size ≤ (vmp'.seg x).size := by
    apply segFit_aligned (k := k) (hqk ▸ hdvd x hon.1) hk (h'.size_pos hon.1)
      (h'.bounded hon.1).1
    rw [← hqk]
    exact hfit
  by_cases hxnf : x = nf
  . rw [hstart.1, hxnf, hw.free]
  . -- an older segment did not fit before and has not changed
    exfalso
    rcases hw.freelist with ⟨j, _, hfl⟩
    have hold : x ∈ vmp.freelist i := by
      rw [hfl] at hx
      by_cases hij : i = j
      . subst hij
        rw [Function.update_self] at hx
        exact (List.mem_cons.mp hx).resolve_left hxnf
      . rwa [Function.update_of_ne hij] at hx
    have hxq := ((h.freelist.mem x i).mp hold).1
    have hseg : vmp'.seg x = vmp.seg x :=
      hw.other x (fun heq => hns (heq ▸ hxq)) hxnf
    have hfail := bestFit_none hnone hi hold (by
      rw [← hseg]
      exact hstart.2)
    unfold XallocReq.fit at hfit hfail
    rw [hseg, hfail] at hfit
    cases hfit

section

variable (hs : Source ops q others J) (hbelow : ∀ ext held, J ext held → ∀ r ∈ held, r.1 + r.2 < 2 ^ 64)
  (hk : k < 64) (hqk : q = 2 ^ k)

include hs hbelow hk hqk

theorem Good.loop_cases {size : Nat} {first : Fin 64} (hpos : 0 < size) (hlt : size < 2 ^ 64)
    (hdvd : q ∣ size) (h : Good q others J vmp w mine) (hfirst : freelistForSize size = .ok first)
    (he : xallocLoop cfg ops (allocReq q size flag) fuel first.val vmp w
      = .ok (some (x, start), vmp', w'))
    : (vmp' = vmp ∧ w' = w) ∨
        Imported ops vmp w size (allocReq q size flag).vmflag vmp' w'.ext start := by
  rcases xallocLoop_cases he with ⟨_, fuel1, _, hpass, _, ⟨_, hvmp, hw⟩ | ⟨rfl, vmp1, w1, himport, he⟩⟩
  . exact .inl ⟨hvmp, hw⟩
  right
  rcases xallocPass_best hpass with ⟨hbest, rfl⟩
  have h1 := (h.import hs hpos hlt hdvd himport).1
  rcases h.import_added hs hpos hlt hdvd himport with ⟨alloc, addr, w2, nf, pool, halloc, hcall, haddr,
    hadd, rfl, hpool, hadded, _, hdis, hJ⟩
  rcases vmemAddInternal_writes hpool hadd with ⟨ns, hns, _, _, _, hw⟩
  change AddWrites vmp vmp1 ns nf addr size true at hw
  have haligned : ∀ y ∈ vmp1.segqueue, q ∣ (vmp1.seg y).base :=
    fun y hy => (h1.inv.aligned h1.spans h1.allocs hy).1
  rcases xallocLoop_cases he with ⟨_, _, _, hpass2, _, ⟨rfl, rfl, rfl⟩ | ⟨rfl, _⟩⟩
  . rcases xallocPass_best hpass2 with ⟨hbest2, _⟩
    have hstart := bestFit_of_added hk hqk h.inv h1.inv hw hns haligned hbest hbest2
    subst hstart
    refine ⟨⟨alloc, w2, halloc, hcall, rfl⟩, haddr, ?_, hadded.spans, ?_⟩
    . intro hmem
      rcases hdis _ hmem with hend | hend
      . dsimp only at hend
        omega
      . dsimp only at hend
        omega
    intro y hy hyt
    rw [hw.queue] at hy
    simp only [List.mem_append, List.mem_cons, List.not_mem_nil, or_false] at hy
    by_cases hyns : y = ns
    . right
      unfold range
      rw [hyns, hw.span]
      exact ⟨rfl, rfl⟩
    . by_cases hynf : y = nf
      . simp [hynf, hw.free] at hyt
      . left
        exact ⟨hy.resolve_right (by simp [hyns, hynf]), hw.other y hyns hynf⟩
  . -- the new segment is on a list that the search looks at, and it fits
    exfalso
    rcases xallocPass_best hpass2 with ⟨hbest2, _⟩
    rcases hw.freelist with ⟨i, hi, hfl⟩
    rw [hfirst] at hi
    cases hi
    have hmem : nf ∈ vmp1.freelist first := by
      rw [hfl, Function.update_self]
      exact List.mem_cons_self
    have hnfq : nf ∈ vmp1.segqueue := by simp [hw.queue]
    have hsize : (vmp1.seg nf).size = size := by rw [hw.free]
    have hbase : (vmp1.seg nf).base = addr := by rw [hw.free]
    have hfail := bestFit_none hbest2 (mem_listsFrom first) hmem (Nat.le_of_eq hsize.symm)
    have hfit := segFit_whole cfg (s := vmp1.seg nf) (k := k) (hqk ▸ haligned nf hnfq) hk
      (by omega) (by
        rw [hbase, hsize]
        exact hbelow _ _ hJ (addr, size) (Set.mem_insert _ _))
    rw [hsize, ← hqk] at hfit
    exact absurd (hfit.symm.trans hfail) (by simp)

theorem Serves.alloc_cases (hcfg : cfg.disableAsserts = false) {size : Nat} (hpos : 0 < size)
    (hlt : size < 2 ^ 64) (hdvd : q ∣ size) (h : Serves q others J vmp w)
    (he : vmemAlloc cfg ops fuel vmp w size flag = .ok (addr, vmp', w'))
    : ∃ ext2 pool2, (ext2 = w.ext ∨ ops.allocPages w.ext = .ok ext2) ∧
        ((vmp'.ranges [] .span = vmp.ranges [] .span ∧ Markers vmp vmp' ∧ w'.ext = ext2) ∨
          Imported ops vmp ⟨pool2, irqlDispatch, ext2⟩ size (allocReq q size flag).vmflag vmp' w'.ext
            addr) := by
  rcases h.search hs hcfg he with ⟨first, pool0, ext2, pool2, newSeg, newSeg2, x, start, vmp3, w3, vmp4,
    pool4, hrefilled, _, hfirst, h4, hloop, hplace, rfl, rfl⟩
  rcases h4.loop hs hpos hlt hdvd hloop with ⟨h5, hkeeps, hx, hfit⟩
  rcases h5.take hk hqk hpos hdvd (hkeeps.quantum.trans h.quantum) hx hfit hplace with
    ⟨h6, _, _, hspans, hmarkers, _, rfl⟩
  have hext : ext2 = w.ext ∨ ops.allocPages w.ext = .ok ext2 := hrefilled.imp And.right And.right
  refine ⟨ext2, pool2, hext, ?_⟩
  rcases h4.loop_cases hs hbelow hk hqk hpos hlt hdvd hfirst hloop with ⟨rfl, rfl⟩ | himported
  . exact .inl ⟨hspans, hmarkers, rfl⟩
  . refine .inr ⟨himported.call, himported.nonzero, himported.fresh,
      hspans.trans himported.spans, ?_⟩
    intro y hy hyt
    rcases hmarkers y hy hyt with ⟨hy3, hseg⟩
    have hseg' : ({ vmp4 with lock := false } : Vmem).seg y = vmp3.seg y := hseg
    have hrange : ({ vmp4 with lock := false } : Vmem).range y = vmp3.range y := by
      unfold range
      rw [hseg']
    rw [hrange, hseg']
    exact himported.markers y hy3 (hseg ▸ hyt)

end

end Vmem
end Nyy
