import NyyKernel.Vmem.Imports

namespace Nyy
namespace Vmem

theorem segFit_none {cfg : Config} {req : XallocReq} {s : VmemSegment} {k a : Nat} (hk : k < 64)
    (halign : req.align = 2 ^ k) (hmax : req.maxaddr < 2 ^ 64) (hbound : s.base + s.size < 2 ^ 64)
    (hphase : a % 2 ^ k = req.phase) (hlow : s.base ≤ a) (hhigh : a + req.size ≤ s.base + s.size)
    (hmin : req.minaddr ≤ a) (hend : a + req.size ≤ req.maxaddr)
    : segFit cfg s req.size req.align req.phase req.nocross req.minaddr req.maxaddr ≠ .ok none := by
  intro h
  unfold segFit at h
  rcases Except.bind_eq_ok h with ⟨_, _, h⟩
  rcases Except.bind_eq_ok h with ⟨_, _, h⟩
  rw [Word.add_eq hbound] at h
  dsimp only at h
  rw [if_neg (by omega), halign] at h
  -- the multiple of the alignment behind `a` does not wrap around, so nothing in front of it does
  have hlast := Word.add_two_pow_le hk (show 2 ^ k * (a / 2 ^ k) < 2 ^ 64 by
    have := Nat.mul_div_le a (2 ^ k)
    omega) (Nat.dvd_mul_right _ _)
  have hdiv := Nat.div_add_mod a (2 ^ k)
  have hnext := align_phase hk (show max s.base req.minaddr < 2 ^ 64 by omega)
    (show req.phase < 2 ^ k from hphase ▸ Nat.mod_lt _ (Nat.two_pow_pos k)) (by omega)
  generalize Word.add (vmemAlignup (Word.sub (max s.base req.minaddr) req.phase) (2 ^ k)) req.phase = b
    at h hnext
  have hle : b ≤ a := by
    by_contra hgt
    have hmod : a ≡ b [MOD 2 ^ k] := hphase.trans hnext.2.1.symm
    have hstep := Nat.le_of_dvd (by omega) ((Nat.modEq_iff_dvd' (by omega)).mp hmod)
    omega
  rw [if_neg (show ¬ b < s.base by omega)] at h
  rcases Except.bind_eq_ok h with ⟨_, _, h⟩
  rw [if_pos] at h
  . cases h
  . rw [Word.sub_eq (by omega) (by omega)]
    omega

section Lists

variable {cfg : Config} {req : XallocReq} {vmp : Vmem}

theorem bestFitList_returns (vmp : Vmem) (hpos : 0 < req.size)
    (hnocross : check cfg (req.nocross == 0) = .ok ()) (l : List SegId)
    : ∃ r, bestFitList cfg req vmp l = .ok r := by
  induction l with
  | nil => exact ⟨none, rfl⟩
  | cons x l ih =>
    unfold bestFitList
    split
    . next hle =>
      rcases segFit_returns req.align req.phase req.minaddr req.maxaddr hpos hle hnocross with ⟨r, hr⟩
      have hfit : req.fit cfg vmp x = .ok r := hr
      rw [hfit]
      cases r with
      | some start => exact ⟨some (x, start), rfl⟩
      | none => exact ih
    . exact ih

theorem bestFit_returns (vmp : Vmem) (hpos : 0 < req.size)
    (hnocross : check cfg (req.nocross == 0) = .ok ()) (is : List (Fin 64))
    : ∃ r, bestFit cfg req vmp is = .ok r := by
  induction is with
  | nil => exact ⟨none, rfl⟩
  | cons i is ih =>
    unfold bestFit
    rcases bestFitList_returns vmp hpos hnocross (vmp.freelist i) with ⟨r, hr⟩
    rw [hr]
    cases r with
    | some found => exact ⟨some found, rfl⟩
    | none => exact ih

theorem bestFit_first {is : List (Fin 64)} (hsorted : is.Pairwise (· < ·)) {x : SegId} {start : Nat}
    (h : bestFit cfg req vmp is = .ok (some (x, start)))
    : ∃ i ∈ is, x ∈ vmp.freelist i ∧ ∀ j ∈ is, j < i → ∀ y ∈ vmp.freelist j,
        req.size ≤ (vmp.seg y).size → req.fit cfg vmp y = .ok none := by
  induction is with
  | nil => cases h
  | cons i is ih =>
    rw [List.pairwise_cons] at hsorted
    unfold bestFit at h
    rcases Except.bind_eq_ok h with ⟨found, hfound, h⟩
    cases found with
    | some f =>
      cases h
      refine ⟨i, List.mem_cons_self, (bestFitList_spec hfound).1, ?_⟩
      intro j hj hlt
      rcases List.mem_cons.mp hj with rfl | hj
      . exact absurd hlt (lt_irrefl _)
      . exact absurd (hlt.trans (hsorted.1 j hj)) (lt_irrefl _)
    | none =>
      rcases ih hsorted.2 h with ⟨i', hi', hx, hbefore⟩
      refine ⟨i', List.mem_cons_of_mem i hi', hx, ?_⟩
      intro j hj hlt y hy hsize
      rcases List.mem_cons.mp hj with rfl | hj
      . exact bestFitList_none hfound hy hsize
      . exact hbefore j hj hlt y hy hsize

theorem listsFrom_sorted (first : Nat) : (listsFrom first).Pairwise (· < ·) :=
  (List.pairwise_lt_finRange 64).filter _

end Lists

section Search

variable {τ : Type} {cfg : Config} {ops : VmemOps τ} {others : τ → List SegId}
  {J : τ → Set (Nat × Nat) → Prop} {vmp vmp' : Vmem} {w w' : World τ} {top a first1 fuel : Nat}
  {mine : List SegId} {req : XallocReq} {quantum : Nat} {first : Fin 64} {x : SegId}

theorem within_lock {lock : Bool}
    : Within { vmp with lock := lock } quantum req x a ↔ Within vmp quantum req x a := by
  constructor <;> exact fun h => ⟨h.mem, h.free, h.low, h.high, h.phase, h.minaddr, h.maxaddr⟩

theorem Good.within (cfg : Config) (hbelow : Below J top) (htop : top < 2 ^ 64)
    (h : Good 1 others J vmp w mine) (hreq : Request quantum req)
    (hfirst : freelistForSize req.size = .ok first) (hx : Within vmp quantum req x a)
    : req.size ≤ (vmp.seg x).size ∧ (effective quantum req).fit cfg vmp x ≠ .ok none ∧
        ∃ i : Fin 64, i ∈ listsFrom first.val ∧ x ∈ vmp.freelist i ∧
          i.val = Nat.log2 (vmp.seg x).size - 1 := by
  have hlow := hx.low
  have hhigh := hx.high
  have hend := h.span_end hbelow hx.mem hx.free
  have hsize : req.size ≤ (vmp.seg x).size := by omega
  rcases hreq.align with ⟨k, hk, halign⟩
  refine ⟨hsize, ?_, ?_⟩
  . exact segFit_none hk halign hreq.range.2 (by omega) (halign ▸ hx.phase) hlow hhigh hx.minaddr
      hx.maxaddr
  . rcases freelistForSize_eq_ok hfirst hreq.size with ⟨htwo, hval⟩
    rcases freelistForSize_of_le (htwo.trans hsize) (by omega) with ⟨hi, hlist⟩
    refine ⟨⟨_, hi⟩, ?_, (h.inv.freelist.mem x _).mpr ⟨hx.mem, by simp, hx.free, hlist⟩, rfl⟩
    have hlog : Nat.log2 req.size ≤ Nat.log2 (vmp.seg x).size :=
      (Nat.le_log2 (by omega)).mpr ((Nat.log2_self_le (by omega)).trans hsize)
    rw [mem_listsFrom_iff]
    show first.val ≤ Nat.log2 (vmp.seg x).size - 1
    omega

theorem Good.pass_none (hbelow : Below J top) (htop : top < 2 ^ 64) (h : Good 1 others J vmp w mine)
    (hreq : Request quantum req) (hfirst : freelistForSize req.size = .ok first)
    (hpass : xallocPass cfg (effective quantum req) first.val vmp = .ok (none, first1))
    : ¬ ∃ x a, Within vmp quantum req x a := by
  rintro ⟨x, a, hx⟩
  rcases h.within cfg hbelow htop hreq hfirst hx with ⟨hsize, hfit, i, hi, hmem, _⟩
  exact hfit (bestFit_none (xallocPass_effective hpass).1 hi hmem hsize)

theorem Good.loopImports_none (hs : Source ops 1 others J) (hbelow : Below J top) (htop : top < 2 ^ 64)
    (hreq : Request quantum req) (hfirst : freelistForSize req.size = .ok first)
    (h : Good 1 others J vmp w mine)
    : ∀ e ∈ loopImports cfg ops (effective quantum req) fuel first.val vmp w,
        ¬ ∃ x a, Within e.1 quantum req x a := by
  -- every round of the loop has an arena with the invariant
  induction fuel generalizing vmp w with
  | zero =>
    intro e he
    cases he
  | succ fuel ih =>
    unfold loopImports
    split
    . next first1 hpass =>
      have hnone := h.pass_none hbelow htop hreq hfirst hpass
      cases (xallocPass_effective hpass).2
      split
      . next vmp1 w1 himport =>
        have h1 := (h.import hs hreq.pos hreq.size (one_dvd _) himport).1
        intro e he
        rcases List.mem_cons.mp he with rfl | he
        . exact hnone
        . exact ih h1 e he
      . intro e he
        rw [List.mem_singleton.mp he]
        exact hnone
    . intro e he
      cases he

theorem Good.pass_best (hbelow : Below J top) (htop : top < 2 ^ 64) (h : Good 1 others J vmp w mine)
    (hreq : Request quantum req) (hfirst : freelistForSize req.size = .ok first) {start : Nat}
    (hround : ∀ x ∈ vmp.segqueue, (vmp.seg x).type = .free →
      Roundable (effective quantum req) (vmp.seg x))
    (hpass : xallocPass cfg (effective quantum req) first.val vmp = .ok (some (x, start), first1))
    : Within vmp quantum req x start ∧ ∀ y b, Within vmp quantum req y b →
        Nat.log2 (vmp.seg x).size ≤ Nat.log2 (vmp.seg y).size ∧
        (vmp.seg x).size < 2 * (vmp.seg y).size := by
  have hbest := (xallocPass_effective hpass).1
  rcases bestFit_first (listsFrom_sorted _) hbest with ⟨i, _, hx, hbefore⟩
  have hon := (h.inv.freelist.mem x i).mp hx
  have hend := h.span_end hbelow hon.1 hon.2.2.1
  rcases hreq.align with ⟨k, hk, halign⟩
  have hrange := hreq.range
  rcases segFit_exact hk halign (halign ▸ hreq.phase)
    (show (effective quantum req).minaddr < 2 ^ 64 by
      show req.minaddr < 2 ^ 64
      omega) (by omega) (hround x hon.1 hon.2.2.1) (bestFit_spec hbest).2 with
    ⟨hlo, hhi, hphase, hmin, hmax⟩
  refine ⟨⟨hon.1, hon.2.2.1, hlo, hhi, halign ▸ hphase, hmin, hmax⟩, ?_⟩
  intro y b hy
  rcases h.within cfg hbelow htop hreq hfirst hy with ⟨hsize, hfit, j, hj, hmem, hval⟩
  rcases freelistForSize_eq_ok hon.2.2.2 (by omega) with ⟨htwo, hival⟩
  have hle : i ≤ j := by
    by_contra hgt
    exact hfit (hbefore j hj (lt_of_not_ge hgt) y hmem hsize)
  have hyhigh := hy.high
  have hylow := hy.low
  have htwoy := (freelistForSize_eq_ok hfirst hreq.size).1.trans hsize
  have hlogy : 1 ≤ Nat.log2 (vmp.seg y).size := (Nat.le_log2 (by omega)).mpr (by omega)
  have hlog : Nat.log2 (vmp.seg x).size ≤ Nat.log2 (vmp.seg y).size := by
    have : i.val ≤ j.val := hle
    omega
  refine ⟨hlog, ?_⟩
  calc (vmp.seg x).size
      < 2 ^ (Nat.log2 (vmp.seg x).size + 1) := Nat.lt_log2_self
    _ ≤ 2 ^ (Nat.log2 (vmp.seg y).size + 1) := Nat.pow_le_pow_right (by omega) (by omega)
    _ = 2 * 2 ^ Nat.log2 (vmp.seg y).size := Nat.pow_succ'
    _ ≤ 2 * (vmp.seg y).size := Nat.mul_le_mul_left 2 (Nat.log2_self_le (by omega))

theorem xallocImports_of_no_source (hcfg : cfg.disableAsserts = false) (halloc : ops.alloc = none)
    {addr : Nat} (he : vmemXalloc cfg ops fuel vmp w req = .ok (addr, vmp', w'))
    : xallocImports cfg ops fuel vmp w req = [] := by
  rw [vmemXalloc_eq] at he
  rcases Except.bind_eq_ok he with ⟨⟨first, newSeg, newSeg2, vmp1, w1⟩, henter, he⟩
  rcases Except.bind_eq_ok he with ⟨⟨found, vmp2, w2⟩, hloop, _⟩
  unfold xallocImports
  rw [henter]
  cases fuel with
  | zero => rfl
  | succ fuel =>
    rw [xallocLoop] at hloop
    rcases Except.bind_eq_ok hloop with ⟨⟨f, first1⟩, hpass, hloop⟩
    cases f with
    | some f => exact loopImports_of_found (fuel + 1) w1 hpass
    | none =>
      have himport : vmemImport cfg ops vmp1 w1 (effective vmp.quantum req).size
          (effective vmp.quantum req).vmflag = .ok (false, vmp1, w1) := by
        unfold vmemImport
        rw [halloc]
        rfl
      dsimp only at hloop
      rw [himport, Except.ok_bind] at hloop
      rcases Except.bind_eq_ok hloop with ⟨_, hcheck, _⟩
      have := check_eq_ok hcheck
      simp [hcfg] at this

theorem bestfit_complete (cfg : Config) (hs : Source ops 1 others J) (hbelow : Below J top)
    (htop : top < 2 ^ 64) (h : Good 1 others J vmp w []) (hreq : Request vmp.quantum req)
    (hround : ∀ x ∈ vmp.segqueue, (vmp.seg x).type = .free →
      Roundable (effective vmp.quantum req) (vmp.seg x)) (fuel : Nat)
    : (∀ e ∈ xallocImports cfg ops fuel vmp w req, ¬ ∃ x a, Within e.1 vmp.quantum req x a) ∧
        ((∃ x a, Within vmp vmp.quantum req x a) → ∀ first newSeg newSeg2 vmp1 w1,
          xallocEnter cfg ops vmp w req = .ok (first, newSeg, newSeg2, vmp1, w1) →
          ∃ found, xallocLoop cfg ops (effective vmp.quantum req) (fuel + 1) first.val vmp1 w1 =
            .ok (some found, vmp1, w1)) ∧
        ∀ addr vmp' w', vmemXalloc cfg ops fuel vmp w req = .ok (addr, vmp', w') →
          xallocImports cfg ops fuel vmp w req = [] →
          ∃ x, Within vmp vmp.quantum req x addr ∧ ∀ y b, Within vmp vmp.quantum req y b →
            Nat.log2 (vmp.seg x).size ≤ Nat.log2 (vmp.seg y).size ∧
            (vmp.seg x).size < 2 * (vmp.seg y).size := by
  refine ⟨?_, ?_, ?_⟩
  . unfold xallocImports
    split
    . next first newSeg newSeg2 vmp1 w1 henter =>
      rcases xallocEnter_eq_ok henter with ⟨w2, pool1, pool2, hfirst, _, hrepop, hseg1, hseg2, _, rfl,
        rfl⟩
      exact (h.prologue hs hrepop hseg1 hseg2).2.2.2.loopImports_none hs hbelow htop hreq hfirst
    . intro e he
      cases he
  . rintro ⟨x, a, hx⟩ first newSeg newSeg2 vmp1 w1 henter
    rcases xallocEnter_eq_ok henter with ⟨w2, pool1, pool2, hfirst, hnocross, hrepop, hseg1, hseg2, _,
      rfl, rfl⟩
    have h1 := (h.prologue hs hrepop hseg1 hseg2).2.2.2
    have hpos : 0 < (effective vmp.quantum req).size := hreq.pos
    rcases bestFit_returns { vmp with lock := true } hpos hnocross (listsFrom first.val) with ⟨r, hr⟩
    have hpass : xallocPass cfg (effective vmp.quantum req) first.val { vmp with lock := true } =
        .ok (r, first.val) := by
      rw [xallocPass_eq, hr]
      rfl
    cases r with
    | some found => exact ⟨found, xallocLoop_of_found fuel _ hpass⟩
    | none => exact absurd ⟨x, a, within_lock.mpr hx⟩ (h1.pass_none hbelow htop hreq hfirst hpass)
  . intro addr vmp' w' he hnone
    rw [vmemXalloc_eq] at he
    rcases Except.bind_eq_ok he with ⟨⟨first, newSeg, newSeg2, vmp1, w1⟩, henter, he⟩
    rcases Except.bind_eq_ok he with ⟨⟨found, vmp2, w2⟩, hloop, he⟩
    unfold xallocImports at hnone
    rw [henter] at hnone
    dsimp only at hnone
    rcases xallocEnter_eq_ok henter with ⟨w3, pool1, pool2, hfirst, _, hrepop, hseg1, hseg2, _, rfl, rfl⟩
    have h1 := (h.prologue hs hrepop hseg1 hseg2).2.2.2
    cases fuel with
    | zero => cases hloop
    | succ fuel =>
      rw [xallocLoop] at hloop
      rcases Except.bind_eq_ok hloop with ⟨⟨f, first1⟩, hpass, hloop⟩
      cases f with
      | none =>
        unfold loopImports at hnone
        rw [hpass] at hnone
        dsimp only at hnone
        split at hnone <;> cases hnone
      | some f =>
        cases hloop
        rcases f with ⟨x, start⟩
        rcases Except.bind_eq_ok he with ⟨⟨ret, vmp4, pool4⟩, hplace, he⟩
        cases he
        rcases h1.pass_best hbelow htop hreq hfirst hround hpass with ⟨hx, hbest⟩
        cases (h1.found hreq.pos hx.mem hx.free hx.low hx.high hplace).1
        exact ⟨x, within_lock.mp hx, fun y b hy => hbest y b (within_lock.mpr hy)⟩

end Search

theorem bestfit_complete_kernel
    : ∃ (s : VmemState Unit) (x : SegId),
        VmemStart ⟨false⟩ (fun _ => []) EndsBefore s ∧
        Within s.vmp 4096 phased x 0xFFFFE00000005000 ∧
        ∀ y b, Within s.vmp 4096 phased y b →
          (s.vmp.seg x).size < 2 * (s.vmp.seg y).size := by
  rcases kernelVa_phased with ⟨s, vmp', w', hstart, hquantum, hall, he, hreq⟩
  have hround : ∀ x ∈ s.vmp.segqueue, (s.vmp.seg x).type = .free →
      Roundable (effective s.vmp.quantum phased) (s.vmp.seg x) := by
    intro x hx _ _
    have hbase : (s.vmp.seg x).base = 0xFFFFE00000000000 := congrArg Prod.fst (hall x hx)
    rw [hbase, hquantum]
    decide
  have h := bestfit_complete ⟨false⟩ (ownSpan_source 1 (J := EndsBefore ()))
    (fun _ _ hheld => hheld) (by decide) (VmemInv.init hstart).good hreq hround 1
  have hnone := xallocImports_of_no_source rfl rfl he
  rcases h.2.2 _ _ _ he hnone with ⟨x, hx, hbest⟩
  rw [hquantum] at hx hbest
  exact ⟨s, x, hstart, hx, fun y b hy => (hbest y b hy).2⟩

end Vmem
end Nyy
