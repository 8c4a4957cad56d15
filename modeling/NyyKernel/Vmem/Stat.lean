import Mathlib.Algebra.BigOperators.Group.Finset.Basic
import Mathlib.Data.Finset.Card
import Mathlib.Order.Interval.Finset.Nat
import NyyKernel.Vmem.Xalloc

namespace Nyy
namespace Vmem

open Tiling

def sizes (vmp : Vmem) (t : SegType) : Nat :=
  ((vmp.segqueue.filter fun x => (vmp.seg x).type = t).map fun x => (vmp.seg x).size).sum

section Sizes

variable {vmp vmp' : Vmem} {t : SegType} {r : Nat × Nat} {top : Nat}

def rangeSet (vmp : Vmem) (t : SegType) : Finset (Nat × Nat) :=
  ((vmp.segqueue.filter fun x => (vmp.seg x).type = t).map vmp.range).toFinset

theorem mem_rangeSet : r ∈ vmp.rangeSet t ↔ r ∈ vmp.ranges [] t := by
  simp only [rangeSet, ranges, List.mem_toFinset, List.mem_map, List.mem_filter, decide_eq_true_eq,
    Set.mem_ofPred_eq, List.not_mem_nil, not_false_eq_true, true_and, and_assoc]

theorem Inv.range_inj (h : Inv vmp []) {x y : SegId} (hx : x ∈ vmp.segqueue) (hy : y ∈ vmp.segqueue)
    (hxt : (vmp.seg x).type = t) (hyt : (vmp.seg y).type = t) (hrange : vmp.range x = vmp.range y)
    : x = y := by
  have hbase : (vmp.seg x).base = (vmp.seg y).base := congrArg Prod.fst hrange
  by_cases ht : t = .span
  . by_contra hne
    have hdis := h.spans.disjoint x hx y hy hne (hxt.trans ht) (hyt.trans ht)
    have hxs := h.size_pos hx
    have hys := h.size_pos hy
    unfold Block.Disjoint VmemSegment.block at hdis
    dsimp only at hdis
    omega
  . exact h.eq_of_base_eq hx hy (hxt ▸ ht) (hyt ▸ ht) hbase

theorem Inv.sizes_eq (h : Inv vmp []) (t : SegType)
    : vmp.sizes t = (vmp.rangeSet t).sum Prod.snd := by
  have hnodup : ((vmp.segqueue.filter fun x => (vmp.seg x).type = t).map vmp.range).Nodup := by
    apply List.Nodup.map_on
    . intro x hx y hy hrange
      simp only [List.mem_filter, decide_eq_true_eq] at hx hy
      exact h.range_inj hx.1 hy.1 hx.2 hy.2 hrange
    . exact h.nodup.filter _
  unfold rangeSet sizes
  rw [List.sum_toFinset _ hnodup, List.map_map]
  rfl

theorem Inv.sizes_congr (h : Inv vmp []) (h' : Inv vmp' []) (heq : vmp'.ranges [] t = vmp.ranges [] t)
    : vmp'.sizes t = vmp.sizes t := by
  rw [h.sizes_eq, h'.sizes_eq]
  congr 1
  ext r
  rw [mem_rangeSet, mem_rangeSet, heq]

theorem Inv.sizes_of_empty (h : Inv vmp []) (heq : vmp.ranges [] t = ∅) : vmp.sizes t = 0 := by
  have hset : vmp.rangeSet t = ∅ := by
    ext r
    rw [mem_rangeSet, heq]
    simp
  rw [h.sizes_eq, hset, Finset.sum_empty]

theorem Inv.sizes_insert (h : Inv vmp []) (h' : Inv vmp' [])
    (heq : vmp'.ranges [] t = insert r (vmp.ranges [] t)) (hr : r ∉ vmp.ranges [] t)
    : vmp'.sizes t = vmp.sizes t + r.2 := by
  have hset : vmp'.rangeSet t = insert r (vmp.rangeSet t) := by
    ext s
    rw [mem_rangeSet, heq, Finset.mem_insert, mem_rangeSet]
    rfl
  rw [h.sizes_eq, h'.sizes_eq, hset, Finset.sum_insert (by rwa [mem_rangeSet]), Nat.add_comm]

theorem Inv.sizes_remove (h : Inv vmp []) (h' : Inv vmp' [])
    (heq : vmp'.ranges [] t = vmp.ranges [] t \ {r}) (hr : r ∈ vmp.ranges [] t)
    : vmp'.sizes t + r.2 = vmp.sizes t := by
  refine (h'.sizes_insert h ?_ ?_).symm
  . rw [heq, Set.insert_sdiff_singleton, Set.insert_eq_of_mem hr]
  . rw [heq]
    exact fun hmem => hmem.2 rfl

theorem sum_le_of_disjoint {s : Finset (Nat × Nat)} (hdis : ∀ r ∈ s, ∀ r' ∈ s, r ≠ r' → RangeDisjoint r r')
    (hbelow : ∀ r ∈ s, r.1 + r.2 ≤ top)
    : s.sum Prod.snd ≤ top := by
  have hcard : (s.biUnion fun r => Finset.Ico r.1 (r.1 + r.2)).card = s.sum Prod.snd := by
    rw [Finset.card_biUnion]
    . simp
    . intro r hr r' hr' hne
      rw [Function.onFun, Finset.disjoint_left]
      intro a ha ha'
      rw [Finset.mem_Ico] at ha ha'
      rcases hdis r hr r' hr' hne with hlt | hlt
      . omega
      . omega
  rw [← hcard, ← Finset.card_range top]
  apply Finset.card_le_card
  intro a ha
  rcases Finset.mem_biUnion.mp ha with ⟨r, hr, ha⟩
  rw [Finset.mem_Ico] at ha
  rw [Finset.mem_range]
  exact ha.2.trans_le (hbelow r hr)

theorem Inv.sizes_span_le (h : Inv vmp []) (hbelow : ∀ r ∈ vmp.ranges [] .span, r.1 + r.2 ≤ top)
    : vmp.sizes .span ≤ top := by
  rw [h.sizes_eq]
  apply sum_le_of_disjoint
  . intro r hr r' hr' hne
    rw [mem_rangeSet] at hr hr'
    exact h.spans_pairwise hr hr' hne
  . intro r hr
    rw [mem_rangeSet] at hr
    exact hbelow r hr

theorem sizes_eq_total (vmp : Vmem) (t : SegType)
    : vmp.sizes t = total t.kind (vmp.blocks [] vmp.segqueue) := by
  unfold sizes
  generalize vmp.segqueue = l
  induction l with
  | nil => rfl
  | cons x l ih =>
    have hkind : (vmp.block [] x).kind = t.kind ↔ (vmp.seg x).type = t := by
      rw [block_attached _ (by simp)]
      show (vmp.seg x).type.kind = t.kind ↔ _
      cases (vmp.seg x).type <;> cases t <;> simp [SegType.kind]
    show _ = total t.kind (vmp.block [] x :: vmp.blocks [] l)
    rw [total_cons, ← ih]
    by_cases ht : (vmp.seg x).type = t
    . rw [if_pos (hkind.mpr ht), List.filter_cons_of_pos (by simpa using ht)]
      rfl
    . rw [if_neg (mt hkind.mp ht), List.filter_cons_of_neg (by simpa using ht), Nat.zero_add]

theorem Inv.sizes_span (h : Inv vmp []) : vmp.sizes .span = vmp.sizes .allocated + vmp.sizes .free := by
  rw [sizes_eq_total, sizes_eq_total, sizes_eq_total]
  exact h.tiled.total_span

end Sizes

section Writes

variable {τ : Type} {cfg : Config} {ops : VmemOps τ} {vmp vmp' : Vmem} {w w' : World τ} {x : SegId}

theorem xfreeCoalesceRight_stat (vmp : Vmem) (pool : SegPool) (x : SegId)
    : (xfreeCoalesceRight vmp pool x).1.stat = vmp.stat := by
  unfold xfreeCoalesceRight
  split
  . rfl
  . split
    . rfl
    . rfl

theorem xfreeCoalesceLeft_stat {pool pool' : SegPool}
    (he : xfreeCoalesceLeft vmp pool x = .ok (vmp', pool'))
    : vmp'.stat = vmp.stat := by
  unfold xfreeCoalesceLeft at he
  split at he
  . cases he
  . split at he
    . cases he
      rfl
    . cases he
      rfl

theorem xfreeFinish_stat (he : xfreeFinish cfg ops vmp w x = .ok (vmp', w'))
    : vmp'.stat = vmp.stat := by
  unfold xfreeFinish at he
  split at he
  . cases he
  . rcases Except.bind_eq_ok he with ⟨_, _, he⟩
    dsimp only at he
    split at he
    . split at he
      . rcases Except.bind_eq_ok he with ⟨w1, _, he⟩
        cases he
        rfl
      . rcases Except.bind_eq_ok he with ⟨vmp1, he1, he⟩
        cases he
        rw [vmemAddToFreelist_stat he1]
        rfl
    . rcases Except.bind_eq_ok he with ⟨vmp1, he1, he⟩
      cases he
      rw [vmemAddToFreelist_stat he1]
      rfl

theorem vmemXfree_stat {addr size : Nat} (he : vmemXfree cfg ops vmp w addr size = .ok (vmp', w'))
    : vmp'.stat = { vmp.stat with
        inUse := Word.sub vmp.stat.inUse size
        free := Word.add vmp.stat.free size } := by
  unfold vmemXfree at he
  rcases Except.bind_eq_ok he with ⟨⟨vmp1, w1⟩, hacquire, he⟩
  rcases acquire_eq_ok hacquire with ⟨_, _, rfl, rfl⟩
  dsimp only at he
  split at he
  . cases he
  . rcases Except.bind_eq_ok he with ⟨_, _, he⟩
    rcases Except.bind_eq_ok he with ⟨⟨vmp2, pool2⟩, hleft, he⟩
    rcases Except.bind_eq_ok he with ⟨⟨vmp3, w3⟩, hfinish, he⟩
    cases he
    have hstat : vmp3.stat = vmp.stat := by
      rw [xfreeFinish_stat hfinish, xfreeCoalesceLeft_stat hleft, xfreeCoalesceRight_stat]
      rfl
    unfold xfreeStat
    dsimp only
    rw [hstat]

end Writes

section Step

variable {τ : Type} {cfg : Config} {ops : VmemOps τ} {others : τ → List SegId}
  {J : τ → Set (Nat × Nat) → Prop} {top : Nat} {s s' : VmemState τ}

theorem VmemInv.xalloc_counts (hs : Source ops 1 others J) (hcfg : cfg.disableAsserts = false)
    (hbelow : Below J top) (htop : top < 2 ^ 64) {fuel addr : Nat} {req : XallocReq}
    (hreq : Request s.vmp.quantum req) (hwrap : NoWrap cfg ops top s.vmp req) (h : VmemInv others J s)
    (he : vmemXalloc cfg ops fuel s.vmp s.world req = .ok (addr, s'.vmp, s'.world))
    : ∃ sz, s'.vmp.sizes .allocated = s.vmp.sizes .allocated + sz ∧
        s'.vmp.stat = { s.vmp.stat with
          free := Word.sub s.vmp.stat.free sz
          inUse := Word.add s.vmp.stat.inUse sz } ∧
        (Served cfg ops s.vmp req →
          s'.vmp.ranges [] .span = s.vmp.ranges [] .span ∧ Markers s.vmp s'.vmp) := by
  have h' := h.xalloc hs hcfg hbelow htop hreq hwrap he
  rcases h.good.xalloc hs hcfg hbelow htop hreq hwrap he with ⟨newSeg, newSeg2, x, vmp3, w3, vmp4, pool4,
    hx, _⟩
  rcases hx.found.allocs with ⟨sz, hle, _, hallocs⟩
  rcases hx.counts with ⟨n, hn, hnt, hnbase, hstat⟩
  have hmem : (addr, sz) ∈ vmp4.ranges [] .allocated := hallocs ▸ Set.mem_insert _ _
  rcases hmem with ⟨y, hy, _, hyt, hyrange⟩
  have hyn : y = n := by
    apply hx.found.inv.eq_of_base_eq hy hn (by simp [hyt]) (by simp [hnt])
    rw [hnbase]
    exact congrArg Prod.fst hyrange
  have hsize : (vmp4.seg n).size = sz := hyn ▸ congrArg Prod.snd hyrange
  refine ⟨sz, ?_, ?_, ?_⟩
  . have hold : vmp3.sizes .allocated = s.vmp.sizes .allocated :=
      h.good.inv.sizes_congr hx.good.inv hx.keeps.allocs
    rw [← hold]
    apply hx.good.inv.sizes_insert h'.good.inv _ (hx.not_allocated sz)
    rw [hx.arena]
    exact hallocs
  . rw [hx.arena]
    show vmp4.stat = _
    rw [hstat, hsize, hx.stat]
  . intro hyes
    have hfound := hx.found
    rw [hx.served hyes] at hfound
    rw [hx.arena]
    exact ⟨hfound.spans, hfound.markers⟩

end Step

structure StatExact (vmp : Vmem) : Prop where
  inUse : vmp.stat.inUse = vmp.sizes .allocated
  free : vmp.stat.free = vmp.sizes .free
  total : vmp.stat.total = vmp.sizes .span

section Run

variable {τ : Type} (cfg : Config) (ops : VmemOps τ) (others : τ → List SegId)
  (J : τ → Set (Nat × Nat) → Prop)

def CountedStart (s : VmemState τ) : Prop :=
  ∃ (ret : Vmem) (pool : SegPool) (base quantum : Nat) (source : Bool),
    ret.stat.total = 0 ∧ base ≤ 2 ^ 64 ∧ pool.Ok (others s.world.ext) ∧
    vmemInit cfg ret pool base 0 quantum source = .ok (s.vmp, s.world.pool) ∧
    J s.world.ext (s.vmp.ranges [] .span)

def CountedStep (top : Nat) (s : VmemState τ) : VmemOp → Prop
  | .xalloc req => NoWrap cfg ops top s.vmp req ∧ Served cfg ops s.vmp req
  | _ => True

end Run

section Run

variable {τ : Type} {cfg : Config} {ops : VmemOps τ} {others : τ → List SegId}
  {J : τ → Set (Nat × Nat) → Prop} {top addr : Nat} {s s' : VmemState τ} {vmp vmp' : Vmem}
  {pool pool' : SegPool} {op : VmemOp}

theorem VmemInv.sizes_le (hbelow : Below J top) (h : VmemInv others J s)
    : s.vmp.sizes .allocated + s.vmp.sizes .free ≤ top := by
  rw [← h.good.inv.sizes_span]
  exact h.good.inv.sizes_span_le (hbelow _ _ h.good.source)

theorem vmemAdd_eq_ok {size : Nat} (he : vmemAdd cfg vmp pool addr size = .ok (vmp', pool'))
    : ∃ nf, vmemAddInternal cfg { vmp with stat := { vmp.stat with
        free := Word.add vmp.stat.free size
        total := Word.add vmp.stat.total size } } pool addr size false = .ok (nf, vmp', pool') := by
  unfold vmemAdd at he
  rcases Except.bind_eq_ok he with ⟨_, _, he⟩
  rcases Except.bind_eq_ok he with ⟨⟨nf, vmp1, pool1⟩, hadd, he⟩
  cases he
  exact ⟨nf, hadd⟩

theorem vmemAdd_stat {size : Nat} (he : vmemAdd cfg vmp pool addr size = .ok (vmp', pool'))
    : vmp'.stat = { vmp.stat with
        free := Word.add vmp.stat.free size
        total := Word.add vmp.stat.total size } := by
  rcases vmemAdd_eq_ok he with ⟨nf, hadd⟩
  exact vmemAddInternal_stat hadd

theorem vmemAddInternal_markers {held : List SegId} {size : Nat} {imported : Bool} {nf : SegId}
    (he : vmemAddInternal cfg vmp pool addr size imported = .ok (nf, vmp', pool'))
    (hpool : pool.Ok (vmp.segqueue ++ held))
    : ∀ x ∈ vmp'.segqueue, (vmp'.seg x).type = .span →
        (x ∈ vmp.segqueue ∧ vmp'.seg x = vmp.seg x) ∨ (vmp'.seg x).imported = imported := by
  rcases vmemAddInternal_writes hpool he with ⟨ns, _, _, _, _, hw⟩
  intro x hx ht
  rw [hw.queue] at hx
  simp only [List.mem_append, List.mem_cons, List.not_mem_nil, or_false] at hx
  by_cases hxns : x = ns
  . right
    rw [hxns, hw.span]
  . by_cases hxnf : x = nf
    . simp [hxnf, hw.free] at ht
    . left
      exact ⟨hx.resolve_right (by simp [hxns, hxnf]), hw.other x hxns hxnf⟩

theorem Good.add_markers {w : World τ} {q size : Nat} (h : Good q others J vmp w [])
    (he : vmemAdd cfg vmp w.pool addr size = .ok (vmp', pool'))
    : ∀ x ∈ vmp'.segqueue, (vmp'.seg x).type = .span →
        (x ∈ vmp.segqueue ∧ vmp'.seg x = vmp.seg x) ∨ (vmp'.seg x).imported = false := by
  rcases vmemAdd_eq_ok he with ⟨nf, hadd⟩
  have hpool := h.pool
  rw [List.append_nil] at hpool
  have hmarkers := vmemAddInternal_markers hadd hpool
  exact hmarkers

structure InUseInv (others : τ → List SegId) (J : τ → Set (Nat × Nat) → Prop) (s : VmemState τ)
    : Prop where
  inv : VmemInv others J s
  inUse : s.vmp.stat.inUse = s.vmp.sizes .allocated

theorem InUseInv.init (h : VmemStart cfg others J s) : InUseInv others J s := by
  refine ⟨.init h, ?_⟩
  rcases h with ⟨ret, pool, base, size, quantum, source, hfits, hlt, hpool, he, hJ⟩
  rcases Good.init s.world.irql hpool (one_dvd _) (one_dvd _) hfits hlt he hJ with
    ⟨hgood, _, _, hallocs⟩
  rw [hgood.inv.sizes_of_empty hallocs]
  unfold vmemInit at he
  dsimp only at he
  split at he
  . rw [vmemAdd_stat he]
  . injection he with he
    injection he with hvmp _
    rw [← hvmp]

theorem InUseInv.step (hs : Source ops 1 others J) (hcfg : cfg.disableAsserts = false)
    (hbelow : Below J top) (htop : top < 2 ^ 64) (h : InUseInv others J s)
    (hstep : Guarded (NoWrapStep cfg ops top) (VmemStep cfg ops J) s op s')
    : InUseInv others J s' := by
  have h' := h.inv.step hs hcfg hbelow htop hstep
  have hle := h.inv.sizes_le hbelow
  have hle' := h'.sizes_le hbelow
  refine ⟨h', ?_⟩
  rcases hstep with ⟨hguard, hstep⟩
  cases op with
  | add addr size =>
    rcases hstep with ⟨hpos, hfits, hlt, hdis, hJ, he, _⟩
    rcases h.inv.good.add hpos ⟨hfits, hlt⟩ ⟨one_dvd _, one_dvd _⟩ hdis hJ he with ⟨_, hkeeps, _⟩
    rw [vmemAdd_stat he, h.inv.good.inv.sizes_congr h'.good.inv hkeeps.allocs]
    exact h.inUse
  | xalloc req =>
    rcases hstep with ⟨hreq, fuel, addr, he⟩
    rcases h.inv.xalloc_counts hs hcfg hbelow htop hreq hguard he with ⟨sz, hsizes, hstat, _⟩
    rw [hstat, hsizes, ← h.inUse]
    rw [hsizes, ← h.inUse] at hle'
    exact Word.add_eq (by omega)
  | xfree addr size =>
    rcases hstep with ⟨hmem, he⟩
    rcases h.inv.good.xfree hs h.inv.lock hmem (h.inv.two_le _ hmem) he with ⟨_, _, _, hallocs, _⟩
    have hsizes := h.inv.good.inv.sizes_remove h'.good.inv hallocs hmem
    rw [vmemXfree_stat he, h.inUse]
    dsimp only at hsizes ⊢
    rw [Word.sub_eq (by omega) (by omega)]
    omega

/--
In every run `in_use` is the sum of the sizes of the allocations, whatever was imported.
-/
theorem inUse_exact (hs : Source ops 1 others J) (hcfg : cfg.disableAsserts = false) (hbelow : Below J top)
    (htop : top < 2 ^ 64)
    (hr : Reach (VmemStart cfg others J) (Guarded (NoWrapStep cfg ops top) (VmemStep cfg ops J)) s)
    : s.vmp.stat.inUse = s.vmp.sizes .allocated := by
  have hinv : InUseInv others J s := by
    refine hr.invariant (fun s hs => .init hs) ?_
    intro s op s' h hstep
    exact h.step hs hcfg hbelow htop hstep
  exact hinv.inUse

structure CountedInv (others : τ → List SegId) (J : τ → Set (Nat × Nat) → Prop) (s : VmemState τ)
    : Prop extends InUseInv others J s where
  total : s.vmp.stat.total = s.vmp.sizes .span
  free : s.vmp.stat.free + s.vmp.stat.inUse = s.vmp.stat.total
  own : ∀ x ∈ s.vmp.segqueue, (s.vmp.seg x).type = .span → (s.vmp.seg x).imported = false

theorem CountedInv.exact (h : CountedInv others J s) : StatExact s.vmp := by
  have hspan := h.inv.good.inv.sizes_span
  have hfree := h.free
  have htotal := h.total
  have hinUse := h.inUse
  exact ⟨hinUse, by omega, htotal⟩

theorem CountedInv.init (h : CountedStart cfg others J s) : CountedInv others J s := by
  rcases h with ⟨ret, pool, base, quantum, source, hret, hbase, hpool, he, hJ⟩
  have hinv : InUseInv others J s :=
    .init ⟨ret, pool, base, 0, quantum, source, hbase, by decide, hpool, he, hJ⟩
  have hvmp : s.vmp.segqueue = [] ∧ s.vmp.stat = ⟨0, 0, 0, 0⟩ := by
    unfold vmemInit at he
    simp only [bne_self_eq_false, Bool.and_false, Bool.false_eq_true, if_false] at he
    injection he with he
    injection he with hvmp _
    rw [← hvmp, hret]
    exact ⟨rfl, rfl⟩
  refine ⟨hinv, ?_, ?_, ?_⟩
  . rw [hvmp.2]
    exact (hinv.inv.good.inv.sizes_of_empty (ranges_of_empty _ hvmp.1)).symm
  . simp [hvmp.2]
  . simp [hvmp.1]

section

variable (hs : Source ops 1 others J) (hcfg : cfg.disableAsserts = false) (hbelow : Below J top)
  (htop : top < 2 ^ 64)

include hs hcfg hbelow htop

theorem CountedInv.step (h : CountedInv others J s)
    (hstep : Guarded (CountedStep cfg ops top) (VmemStep cfg ops J) s op s')
    : CountedInv others J s' := by
  rcases hstep with ⟨hguard, hstep⟩
  have hwrap : NoWrapStep cfg ops top s op := by
    cases op with
    | add => trivial
    | xalloc req => exact hguard.1
    | xfree => trivial
  have h' := h.toInUseInv.step hs hcfg hbelow htop ⟨hwrap, hstep⟩
  have hle := h.inv.good.inv.sizes_span_le (hbelow _ _ h.inv.good.source)
  have hle' := h'.inv.good.inv.sizes_span_le (hbelow _ _ h'.inv.good.source)
  have hfree := h.free
  have htotal := h.total
  cases op with
  | add addr size =>
    rcases hstep with ⟨hpos, hfits, hlt, hdis, hJ, he, _⟩
    rcases h.inv.good.add hpos ⟨hfits, hlt⟩ ⟨one_dvd _, one_dvd _⟩ hdis hJ he with ⟨_, _, hspans⟩
    have hsizes := h.inv.good.inv.sizes_insert h'.inv.good.inv hspans (by
      intro hmem
      have := hdis _ hmem
      unfold RangeDisjoint at this
      omega)
    dsimp only at hsizes
    refine ⟨h', ?_, ?_, ?_⟩
    . rw [vmemAdd_stat he, hsizes, ← htotal]
      exact Word.add_eq (by omega)
    . rw [vmemAdd_stat he]
      dsimp only
      rw [Word.add_eq (by omega), Word.add_eq (by omega)]
      omega
    . intro x hx ht
      rcases h.inv.good.add_markers he x hx ht with ⟨hx0, heq⟩ | hown
      . rw [heq] at ht ⊢
        exact h.own x hx0 ht
      . exact hown
  | xalloc req =>
    rcases hstep with ⟨hreq, fuel, addr, he⟩
    rcases h.inv.xalloc_counts hs hcfg hbelow htop hreq hguard.1 he with ⟨sz, hsizes, hstat, hrest⟩
    rcases hrest hguard.2 with ⟨hspans, hmarkers⟩
    have hspan := h.inv.good.inv.sizes_congr h'.inv.good.inv hspans
    have hinUse' := h'.inUse
    have hsum' := h'.inv.good.inv.sizes_span
    have hinUse := h.inUse
    refine ⟨h', ?_, ?_, ?_⟩
    . rw [hstat, hspan]
      exact htotal
    . rw [hinUse', hstat]
      dsimp only
      rw [Word.sub_eq (by omega) (by omega)]
      omega
    . intro x hx ht
      rcases hmarkers x hx ht with ⟨hx0, heq⟩
      rw [heq] at ht ⊢
      exact h.own x hx0 ht
  | xfree addr size =>
    rcases s' with ⟨vmp', w'⟩
    rcases hstep with ⟨hmem, he⟩
    have hstat := vmemXfree_stat he
    have hinUse' := h'.inUse
    have hsum' := h'.inv.good.inv.sizes_span
    have hinUse := h.inUse
    cases h.inv.good.xfree_outcome h.inv.lock hmem (h.inv.two_le _ hmem) he with
    | kept vmp2 pool2 hres hfreed hspans _ =>
      cases hres
      have hspan := h.inv.good.inv.sizes_congr hfreed.inv hspans
      have hsizes := h.inv.good.inv.sizes_remove hfreed.inv hfreed.allocs hmem
      dsimp only at hsizes
      refine ⟨h', ?_, ?_, ?_⟩
      . rw [hstat, hspan]
        exact htotal
      . rw [hinUse', hstat]
        dsimp only
        rw [Word.add_eq (by omega)]
        omega
      . intro x hx ht
        rcases hfreed.markers x hx ht with ⟨hx0, heq⟩
        rw [heq] at ht ⊢
        exact h.own x hx0 ht
    | released free span vmp2 pool2 _ _ _ _ himported _ _ =>
      rcases himported with ⟨y, hy, hyt, hyi, _⟩
      rw [h.own y hy hyt] at hyi
      cases hyi

theorem CountedInv.reach
    (hr : Reach (CountedStart cfg others J) (Guarded (CountedStep cfg ops top) (VmemStep cfg ops J)) s)
    : CountedInv others J s := by
  refine hr.invariant (fun s hs => .init hs) ?_
  intro s op s' h hstep
  exact h.step hs hcfg hbelow htop hstep

end

theorem stat_exact (hs : Source ops 1 others J) (hcfg : cfg.disableAsserts = false) (hbelow : Below J top)
    (htop : top < 2 ^ 64)
    (hr : Reach (CountedStart cfg others J) (Guarded (CountedStep cfg ops top) (VmemStep cfg ops J)) s)
    : StatExact s.vmp :=
  (CountedInv.reach hs hcfg hbelow htop hr).exact

end Run

theorem inUse_exact_page
    : ∃ s : VmemState Unit, Reach (VmemStart ⟨false⟩ (fun _ => []) EndsBefore)
          (Guarded (NoWrapStep ⟨false⟩ ownSpan 0xFFFFE10000000000) (VmemStep ⟨false⟩ ownSpan EndsBefore)) s ∧
        s.vmp.stat.inUse = s.vmp.sizes .allocated := by
  rcases kernelVa_xalloc ⟨4096, 0, 0, 0, 0, 2 ^ 64 - 1, 0⟩ 0xFFFFE00000000000 (by decide +kernel)
    with ⟨s, vmp', w', hstart, hquantum, _, he⟩
  have hstep : Guarded (NoWrapStep ⟨false⟩ ownSpan 0xFFFFE10000000000) (VmemStep ⟨false⟩ ownSpan EndsBefore)
      s (.xalloc ⟨4096, 0, 0, 0, 0, 2 ^ 64 - 1, 0⟩) ⟨vmp', w'⟩ := by
    refine ⟨.inl ?_, ?_, 1, _, he⟩
    . rw [hquantum]
      decide
    . rw [hquantum]
      exact ⟨by decide, by decide, ⟨12, by decide, rfl⟩, by decide, by decide, by decide⟩
  have hreach := Reach.next (.start hstart) hstep
  exact ⟨_, hreach, inUse_exact (ownSpan_source 1 (J := EndsBefore ())) rfl (fun _ _ hheld => hheld)
    (by decide) hreach⟩

theorem stat_exact_added
    : ∃ s : VmemState Unit,
        s.vmp.stat = ⟨4096, 0, 0x10000, 0xF000⟩ ∧ s.vmp.sizes .allocated = 4096 ∧
        s.vmp.sizes .free = 0xF000 ∧ s.vmp.sizes .span = 0x10000 := by
  have hrun : (do
      let init ← arenaAt 0 0 4096 false
      let added ← vmemAdd ⟨false⟩ init.1 init.2 0x8000 0x10000
      let alloc ← vmemXalloc ⟨false⟩ ownSpan 1 added.1 ⟨added.2, 0, ()⟩
        ⟨4096, 0, 0, 0, 0, 2 ^ 64 - 1, 0⟩
      return (added.1.quantum, alloc.2.1.stat)) = .ok (4096, ⟨4096, 0, 0x10000, 0xF000⟩) := by
    set_option maxRecDepth 4096 in decide
  rcases Except.bind_eq_ok hrun with ⟨⟨vmp0, pool0⟩, hinit, hrun⟩
  rcases Except.bind_eq_ok hrun with ⟨⟨vmp1, pool1⟩, hadd, hrun⟩
  rcases Except.bind_eq_ok hrun with ⟨⟨addr, vmp2, w2⟩, halloc, hrun⟩
  injection hrun with hrun
  injection hrun with hquantum hstat
  have hempty : vmp0.ranges [] .span = ∅ := by
    cases hinit
    exact ranges_of_empty _ rfl
  have hreach : Reach (CountedStart ⟨false⟩ (fun _ => []) EndsBefore)
      (Guarded (CountedStep ⟨false⟩ ownSpan 0xFFFFE10000000000) (VmemStep ⟨false⟩ ownSpan EndsBefore))
      ⟨vmp2, w2⟩ := by
    refine .next (e := .xalloc ⟨4096, 0, 0, 0, 0, 2 ^ 64 - 1, 0⟩) (s := ⟨vmp1, ⟨pool1, 0, ()⟩⟩) ?_ ?_
    . refine .next (e := .add 0x8000 0x10000) (s := ⟨vmp0, ⟨pool0, 0, ()⟩⟩) ?_ ?_
      . apply Reach.start
        refine ⟨blankVmem, vmemBootstrap ⟨[], 0, 0⟩, 0, 4096, false, rfl, by decide, .vmemBootstrap,
          hinit, ?_⟩
        rw [hempty]
        simp [EndsBefore]
      . refine ⟨trivial, by decide, by decide, by decide, ?_, ?_, hadd, rfl⟩
        . rw [hempty]
          simp
        . rw [hempty]
          simp [EndsBefore]
    . refine ⟨⟨.inl ?_, .inl rfl⟩, ?_, 1, addr, halloc⟩
      . rw [hquantum]
        decide
      . rw [hquantum]
        exact ⟨by decide, by decide, ⟨12, by decide, rfl⟩, by decide, by decide, by decide⟩
  have h := stat_exact (ownSpan_source 1 (J := EndsBefore ())) rfl (fun _ _ hheld => hheld)
    (by decide) hreach
  refine ⟨⟨vmp2, w2⟩, hstat, ?_, ?_, ?_⟩
  . rw [← h.inUse, hstat]
  . rw [← h.free, hstat]
  . rw [← h.total, hstat]

def onePage : VmemOps Unit :=
  ⟨fun _ => .ok (), some fun _ _ w => .ok (0x8000, w), some fun _ _ w => .ok w⟩

theorem stat_not_exact
    : (∃ s : VmemState Unit,
        VmemStart ⟨false⟩ (fun _ => []) (fun _ _ => True) s ∧
        s.vmp.stat.free = 0x20000 ∧ s.vmp.sizes .free = 0x10000 ∧
        s.vmp.stat.total = 0x20000 ∧ s.vmp.sizes .span = 0x10000) ∧
      (∃ s s' : VmemState Unit,
        VmemStart ⟨false⟩ (fun _ => []) (fun _ _ => True) s ∧
        VmemStep ⟨false⟩ onePage (fun _ _ => True) s (.xalloc ⟨4096, 0, 0, 0, 0, 2 ^ 64 - 1, 0⟩) s' ∧
        s'.vmp.stat.free = 2 ^ 64 - 4096 ∧ s'.vmp.sizes .free = 0 ∧
        s'.vmp.stat.total = 0 ∧ s'.vmp.sizes .span = 4096) := by
  constructor
  . have hrun : (arenaAt 0x8000 0x10000 4096 false).map
        (fun r => (r.1.stat.free, r.1.sizes .free, r.1.stat.total, r.1.sizes .span)) =
          .ok (0x20000, 0x10000, 0x20000, 0x10000) := by
      decide
    rcases Except.map_eq_ok hrun with ⟨⟨vmp, pool⟩, hinit, hstat⟩
    simp only [Prod.mk.injEq] at hstat
    exact ⟨_, vmemStart_arenaAt hinit (by decide) (by decide) trivial, hstat⟩
  . have hrun : (do
        let init ← arenaAt 0 0 4096 true
        let alloc ← vmemXalloc ⟨false⟩ onePage 2 init.1 ⟨init.2, 0, ()⟩
          ⟨4096, 0, 0, 0, 0, 2 ^ 64 - 1, 0⟩
        return (init.1.quantum, alloc.2.1.stat.free, alloc.2.1.sizes .free, alloc.2.1.stat.total,
          alloc.2.1.sizes .span)) =
          .ok (4096, 2 ^ 64 - 4096, 0, 0, 4096) := by
      set_option maxRecDepth 4096 in decide
    rcases Except.bind_eq_ok hrun with ⟨⟨vmp0, pool0⟩, hinit, hrun⟩
    rcases Except.bind_eq_ok hrun with ⟨⟨addr, vmp1, w1⟩, halloc, hrun⟩
    injection hrun with hrun
    simp only [Prod.mk.injEq] at hrun
    refine ⟨_, ⟨vmp1, w1⟩, vmemStart_arenaAt hinit (by decide) (by decide) trivial,
      ⟨?_, 2, addr, halloc⟩, hrun.2⟩
    rw [hrun.1]
    exact ⟨by decide, by decide, ⟨12, by decide, rfl⟩, by decide, by decide, by decide⟩

end Vmem
end Nyy
