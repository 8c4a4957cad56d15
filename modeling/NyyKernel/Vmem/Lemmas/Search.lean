import NyyKernel.Vmem.Impl.Alloc
import NyyKernel.Vmem.Lemmas.Pool
import NyyKernel.Vmem.Lemmas.Ranges

namespace Nyy
namespace Vmem

open Tiling

variable {cfg : Config} {req : XallocReq} {vmp vmp' : Vmem} {x nf : SegId} {start k first nocross : Nat}
  {is : List (Fin 64)} {i : Fin 64} {s : VmemSegment} {l others : List SegId} {pool pool' : SegPool}
  {imported : Bool}

theorem bestFitList_spec (h : bestFitList cfg req vmp l = .ok (some (x, start)))
    : x ∈ l ∧ req.fit cfg vmp x = .ok (some start) := by
  induction l with
  | nil => cases h
  | cons y l ih =>
    unfold bestFitList at h
    split at h
    . rcases Except.bind_eq_ok h with ⟨fit, hfit, h⟩
      cases fit with
      | some s =>
        cases h
        exact ⟨List.mem_cons_self, hfit⟩
      | none =>
        have := ih h
        exact ⟨List.mem_cons_of_mem _ this.1, this.2⟩
    . have := ih h
      exact ⟨List.mem_cons_of_mem _ this.1, this.2⟩

theorem bestFit_spec (h : bestFit cfg req vmp is = .ok (some (x, start)))
    : (∃ i ∈ is, x ∈ vmp.freelist i) ∧ req.fit cfg vmp x = .ok (some start) := by
  induction is with
  | nil => cases h
  | cons i is ih =>
    unfold bestFit at h
    rcases Except.bind_eq_ok h with ⟨found, hfound, h⟩
    cases found with
    | some f =>
      cases h
      have := bestFitList_spec hfound
      exact ⟨⟨i, List.mem_cons_self, this.1⟩, this.2⟩
    | none =>
      rcases ih h with ⟨⟨j, hj, hx⟩, hfit⟩
      exact ⟨⟨j, List.mem_cons_of_mem i hj, hx⟩, hfit⟩

theorem instantFit_spec (h : instantFit cfg req vmp is = .ok (some (x, start)))
    : (∃ i, x ∈ vmp.freelist i) ∧ req.fit cfg vmp x = .ok (some start) := by
  induction is with
  | nil => cases h
  | cons i is ih =>
    unfold instantFit at h
    split at h
    . next y hy =>
      rcases Except.bind_eq_ok h with ⟨fit, hfit, h⟩
      cases fit with
      | some s =>
        cases h
        exact ⟨⟨i, List.mem_of_head? hy⟩, hfit⟩
      | none => exact ih h
    . exact ih h

theorem xallocPass_spec {first' : Nat} (h : xallocPass cfg req first vmp = .ok (some (x, start), first'))
    : (∃ i, x ∈ vmp.freelist i) ∧ req.fit cfg vmp x = .ok (some start) := by
  unfold xallocPass at h
  split at h
  . rcases Except.bind_eq_ok h with ⟨found, hfound, h⟩
    cases h
    exact instantFit_spec hfound
  . split at h
    . rcases Except.bind_eq_ok h with ⟨found, hfound, h⟩
      cases h
      rcases bestFit_spec hfound with ⟨⟨i, _, hx⟩, hfit⟩
      exact ⟨⟨i, hx⟩, hfit⟩
    . rcases Except.bind_eq_ok h with ⟨_, _, h⟩
      cases h

theorem bestFitList_none (h : bestFitList cfg req vmp l = .ok none) (hx : x ∈ l)
    (hsize : req.size ≤ (vmp.seg x).size)
    : req.fit cfg vmp x = .ok none := by
  induction l with
  | nil => cases hx
  | cons y l ih =>
    unfold bestFitList at h
    split at h
    . rcases Except.bind_eq_ok h with ⟨fit, hfit, h⟩
      cases fit with
      | some s => cases h
      | none =>
        cases hx with
        | head => exact hfit
        | tail _ hx => exact ih h hx
    . next hsmall =>
      cases hx with
      | head => exact absurd hsize hsmall
      | tail _ hx => exact ih h hx

theorem bestFit_none (h : bestFit cfg req vmp is = .ok none) (hi : i ∈ is) (hx : x ∈ vmp.freelist i)
    (hsize : req.size ≤ (vmp.seg x).size)
    : req.fit cfg vmp x = .ok none := by
  induction is with
  | nil => cases hi
  | cons j is ih =>
    unfold bestFit at h
    rcases Except.bind_eq_ok h with ⟨found, hfound, h⟩
    cases found with
    | some f => cases h
    | none =>
      cases hi with
      | head => exact bestFitList_none hfound hx hsize
      | tail _ hi => exact ih h hi

theorem mem_listsFrom_iff : i ∈ listsFrom first ↔ first ≤ i.val := by
  simp [listsFrom]

theorem mem_listsFrom (i : Fin 64) : i ∈ listsFrom i.val := mem_listsFrom_iff.mpr (Nat.le_refl _)

theorem segFit_returns {size : Nat} (align phase minaddr maxaddr : Nat) (hpos : 0 < size)
    (hle : size ≤ s.size) (hnocross : check cfg (nocross == 0) = .ok ())
    : ∃ r, segFit cfg s size align phase nocross minaddr maxaddr = .ok r := by
  unfold segFit
  rw [check_of cfg (by simpa using hpos), Except.ok_bind, check_of cfg (by simpa using hle),
    Except.ok_bind]
  simp only [hnocross, Except.ok_bind]
  repeat' split
  all_goals exact ⟨_, rfl⟩

theorem align_base {base : Nat} (hdvd : 2 ^ k ∣ base) (hk : k < 64) (hlt : base < 2 ^ 64)
    : Word.add (vmemAlignup (Word.sub (max base 0) 0) (2 ^ k)) 0 = base := by
  have hle : base + 2 ^ k ≤ 2 ^ 64 := Word.add_two_pow_le hk hlt hdvd
  rw [Nat.max_eq_left (Nat.zero_le _), Word.sub_eq (by omega) (Nat.zero_le _), Nat.sub_zero]
  unfold vmemAlignup
  rw [Word.alignUp_of_dvd hle hk hdvd, Word.add_eq (by omega), Nat.add_zero]

theorem segFit_aligned {size : Nat} (hdvd : 2 ^ k ∣ s.base) (hk : k < 64) (hpos : 0 < s.size)
    (hbound : s.base + s.size ≤ 2 ^ 64)
    (h : segFit cfg s size (2 ^ k) 0 nocross vmemAddrMin vmemAddrMax = .ok (some start))
    : start = s.base ∧ size ≤ s.size := by
  have hstart := align_base hdvd hk (by omega)
  have hadd : Word.add s.base s.size ≤ s.base + s.size := Nat.mod_le _ _
  unfold segFit vmemAddrMin at h
  rcases Except.bind_eq_ok h with ⟨_, _, h⟩
  rcases Except.bind_eq_ok h with ⟨_, _, h⟩
  simp only [hstart, Nat.lt_irrefl, if_false] at h
  split at h
  . cases h
  . rcases Except.bind_eq_ok h with ⟨_, _, h⟩
    split at h
    . next hc =>
      cases h
      rw [Word.sub_eq (by unfold vmemAddrMax at *; omega) hc.1] at hc
      omega
    . cases h

theorem segFit_whole (cfg : Config) (hdvd : 2 ^ k ∣ s.base) (hk : k < 64) (hpos : 0 < s.size)
    (hbelow : s.base + s.size < 2 ^ 64)
    : segFit cfg s s.size (2 ^ k) 0 0 vmemAddrMin vmemAddrMax = .ok (some s.base) := by
  have hstart := align_base hdvd hk (by omega)
  have hend : min (Word.add s.base s.size) vmemAddrMax = s.base + s.size := by
    rw [Word.add_eq hbelow]
    unfold vmemAddrMax
    omega
  unfold segFit
  rw [check_of cfg (by simpa using hpos), Except.ok_bind, check_of cfg (by simp), Except.ok_bind]
  unfold vmemAddrMin
  simp only [hend, hstart, Nat.lt_irrefl, if_false, beq_self_eq_true, check_true, Except.ok_bind]
  rw [if_neg (by simp), if_pos]
  . rfl
  . rw [Word.sub_eq hbelow (by omega)]
    omega

theorem Inv.addSpan {ns : SegId} {base size : Nat} (h : Inv vmp []) (hns : ns ∉ vmp.segqueue)
    (hnf : nf ∉ vmp.segqueue) (hne : nf ≠ ns) (hpos : 0 < size)
    (hfits : base + size ≤ 2 ^ 64 ∧ size < 2 ^ 64)
    (hdis : ∀ r ∈ vmp.ranges [] .span, RangeDisjoint (base, size) r) (hi : freelistForSize size = .ok i)
    (hq : vmp'.segqueue = vmp.segqueue ++ [ns, nf]) (hspan : (vmp'.seg ns).block = ⟨.span, base, size⟩)
    (hfree : (vmp'.seg nf).block = ⟨.free, base, size⟩)
    (hother : ∀ y, y ≠ ns → y ≠ nf → vmp'.seg y = vmp.seg y)
    (hfl : vmp'.freelist = Function.update vmp.freelist i (nf :: vmp.freelist i))
    (hht : vmp'.hashtable = vmp.hashtable)
    : Inv vmp' [] := by
  simp only [VmemSegment.block, Block.mk.injEq, SegType.kind_eq_span, SegType.kind_eq_free]
    at hspan hfree
  have hmem : ∀ y, y ∈ vmp'.segqueue ↔ y ∈ vmp.segqueue ∨ y = ns ∨ y = nf := by
    intro y
    simp [hq]
  have hold : ∀ y ∈ vmp.segqueue, vmp'.seg y = vmp.seg y := by
    intro y hy
    exact hother y (fun heq => hns (heq ▸ hy)) (fun heq => hnf (heq ▸ hy))
  constructor
  . rw [hq, List.nodup_append]
    refine ⟨h.nodup, by simp [hne.symm], ?_⟩
    intro a ha b hb heq
    subst heq
    simp only [List.mem_cons, List.not_mem_nil, or_false] at hb
    rcases hb with rfl | rfl
    . exact hns ha
    . exact hnf ha
  . simp
  . have hsame : vmp'.blocks [] vmp.segqueue = vmp.blocks [] vmp.segqueue :=
      blocks_congr hold (fun y _ => Iff.rfl)
    rw [hq, blocks_append, hsame, blocks_cons, blocks_cons, block_attached _ (by simp),
      block_attached _ (by simp), hspan.1, hspan.2.1, hspan.2.2, hfree.1, hfree.2.1, hfree.2.2]
    exact h.tiled.add_span hpos
  . rw [hfl]
    apply (h.freelist.insert i (by simp [OnFreelist, hnf])).congr
    intro y j
    unfold OnFreelist
    rw [hmem]
    by_cases hynf : y = nf
    . subst hynf
      simp [hfree.1, hfree.2.2, hi, hnf, eq_comm]
    . by_cases hyns : y = ns
      . subst hyns
        simp [hspan.1, hns, hynf]
      . rw [hother y hyns hynf]
        simp [hyns, hynf]
  . rw [hht]
    apply h.hashtable.congr
    intro y j
    unfold OnHashtable
    rw [hmem]
    by_cases hynf : y = nf
    . subst hynf
      simp [hfree.1, hnf]
    . by_cases hyns : y = ns
      . subst hyns
        simp [hspan.1, hns]
      . rw [hother y hyns hynf]
        simp [hyns, hynf]
  . intro y hy hyd hyfree
    rcases (hmem y).mp hy with hy | rfl | rfl
    . rw [hold y hy] at hyfree ⊢
      exact h.sized y hy hyd hyfree
    . simp [hspan.1] at hyfree
    . rw [hfree.2.2]
      exact ⟨i, hi⟩
  . have hcases : ∀ y ∈ vmp'.segqueue, (vmp'.seg y).type = .span →
        y = ns ∨ (y ∈ vmp.segqueue ∧ (vmp.seg y).type = .span ∧ vmp'.seg y = vmp.seg y) := by
      intro y hy hyt
      rcases (hmem y).mp hy with hy | rfl | rfl
      . rw [hold y hy] at hyt ⊢
        exact .inr ⟨hy, hyt, rfl⟩
      . exact .inl rfl
      . simp [hfree.1] at hyt
    have hnew : ∀ y ∈ vmp.segqueue, (vmp.seg y).type = .span →
        (vmp'.seg ns).block.Disjoint (vmp.seg y).block := by
      intro y hy hyt
      have := hdis (vmp.range y) ⟨y, hy, by simp, hyt, rfl⟩
      unfold Block.Disjoint VmemSegment.block
      rw [hspan.2.1, hspan.2.2]
      exact this
    constructor
    . intro a ha b hb hab hat hbt
      rcases hcases a ha hat with rfl | ⟨ha, hat, hasame⟩
      . rcases hcases b hb hbt with rfl | ⟨hb, hbt, hbsame⟩
        . exact absurd rfl hab
        . rw [hbsame]
          exact hnew b hb hbt
      . rw [hasame]
        rcases hcases b hb hbt with rfl | ⟨hb, hbt, hbsame⟩
        . exact (hnew a ha hat).symm
        . rw [hbsame]
          exact h.spans.disjoint a ha b hb hab hat hbt
    . intro a ha hat
      rcases hcases a ha hat with rfl | ⟨ha, hat, hasame⟩
      . rw [hspan.2.1, hspan.2.2]
        exact hfits
      . rw [hasame]
        exact h.spans.fits a ha hat

structure Added (vmp : Vmem) (pool : SegPool) (r : Nat × Nat) (nf : SegId) (vmp' : Vmem) (pool' : SegPool)
    : Prop where
  inv : Inv vmp' []
  moves : pool.Moves vmp.segqueue pool' vmp'.segqueue
  allocs : vmp'.ranges [] .allocated = vmp.ranges [] .allocated
  spans : vmp'.ranges [] .span = insert r (vmp.ranges [] .span)
  lock : vmp'.lock = vmp.lock
  quantum : vmp'.quantum = vmp.quantum

structure AddWrites (vmp vmp' : Vmem) (ns nf : SegId) (base size : Nat) (imported : Bool) : Prop where
  queue : vmp'.segqueue = vmp.segqueue ++ [ns, nf]
  span : vmp'.seg ns = ⟨.span, imported, base, size⟩
  free : vmp'.seg nf = { vmp.seg nf with type := .free, base := base, size := size }
  other : ∀ y, y ≠ ns → y ≠ nf → vmp'.seg y = vmp.seg y
  freelist : ∃ i, freelistForSize size = .ok i ∧
    vmp'.freelist = Function.update vmp.freelist i (nf :: vmp.freelist i)
  hashtable : vmp'.hashtable = vmp.hashtable
  lock : vmp'.lock = vmp.lock
  quantum : vmp'.quantum = vmp.quantum

theorem vmemAddInternal_writes {base size : Nat} (hpool : pool.Ok (vmp.segqueue ++ others))
    (he : vmemAddInternal cfg vmp pool base size imported = .ok (nf, vmp', pool'))
    : ∃ ns, ns ∉ vmp.segqueue ∧ nf ∉ vmp.segqueue ∧ nf ≠ ns ∧
        pool.Moves vmp.segqueue pool' (nf :: ns :: vmp.segqueue) ∧
        AddWrites vmp vmp' ns nf base size imported := by
  unfold vmemAddInternal at he
  rcases Except.bind_eq_ok he with ⟨⟨ns, pool1⟩, hns, he⟩
  rcases Except.bind_eq_ok he with ⟨⟨nf, pool2⟩, hnf, he⟩
  have hpool1 : pool1.Ok ((ns :: vmp.segqueue) ++ others) := hpool.of_moves (.segAlloc hns)
  have hnsq : ns ∉ vmp.segqueue := by
    intro hmem
    exact hpool.not_mem_of_segAlloc hns (List.mem_append_left _ hmem)
  have hnfq := hpool1.not_mem_of_segAlloc hnf
  simp only [List.cons_append, List.mem_cons, List.mem_append, not_or] at hnfq
  have hq : Queue.insertAfter (vmp.segqueue ++ [ns]) ns nf = vmp.segqueue ++ [ns, nf] :=
    Queue.insertAfter_append hnsq
  dsimp only [vmemInsertSegment, vmemAddToFreelist] at he
  simp only [pure_bind, setSeg_self, setSeg_segqueue, hq, bind_assoc] at he
  rcases Except.bind_eq_ok he with ⟨i, hi, he⟩
  cases he
  refine ⟨ns, hnsq, hnfq.2.1, hnfq.1, (SegPool.Moves.segAlloc hns).trans (.segAlloc hnf), ?_⟩
  constructor
  . rfl
  . simp [setSeg, Ne.symm hnfq.1]
  . simp [setSeg, hnfq.1]
  . intro y hyns hynf
    simp [setSeg, hyns, hynf]
  . exact ⟨i, hi, rfl⟩
  . rfl
  . rfl
  . rfl

theorem vmemAddInternal_spec {base size : Nat} (h : Inv vmp []) (hpool : pool.Ok (vmp.segqueue ++ others))
    (hpos : 0 < size) (hfits : base + size ≤ 2 ^ 64 ∧ size < 2 ^ 64)
    (hdis : ∀ r ∈ vmp.ranges [] .span, RangeDisjoint (base, size) r)
    (he : vmemAddInternal cfg vmp pool base size imported = .ok (nf, vmp', pool'))
    : Added vmp pool (base, size) nf vmp' pool' := by
  rcases vmemAddInternal_writes hpool he with ⟨ns, hns, hnf, hne, hmoves, hw⟩
  rcases hw.freelist with ⟨i, hi, hfl⟩
  have hmem : ∀ y, y ∈ vmp'.segqueue ↔ y ∈ vmp.segqueue ∨ y = ns ∨ y = nf := by
    intro y
    simp [hw.queue]
  have hold : ∀ y ∈ vmp.segqueue, vmp'.seg y = vmp.seg y := by
    intro y hy
    exact hw.other y (fun heq => hns (heq ▸ hy)) (fun heq => hnf (heq ▸ hy))
  constructor
  . apply h.addSpan hns hnf hne hpos hfits hdis hi hw.queue _ _ hw.other hfl hw.hashtable
    . rw [hw.span]
      rfl
    . rw [hw.free]
      rfl
  . apply hmoves.trans
    apply SegPool.Moves.of_perm
    rw [hw.queue]
    exact List.perm_append_comm.trans (.swap _ _ _)
  . apply ranges_congr
    . intro y
      rw [hmem]
      by_cases hyns : y = ns
      . simp [hyns, hw.span, hns]
      . by_cases hynf : y = nf
        . simp [hynf, hw.free, hnf]
        . rw [hw.other y hyns hynf]
          simp [hyns, hynf]
    . intro y hy _ _
      unfold range
      rw [hold y hy]
  . have hrange : vmp'.range ns = (base, size) := by
      unfold range
      rw [hw.span]
    rw [← hrange]
    apply ranges_insert
    . intro y
      rw [hmem]
      by_cases hyns : y = ns
      . simp [hyns, hw.span]
      . by_cases hynf : y = nf
        . simp [hynf, hw.free, hnf, hne]
        . rw [hw.other y hyns hynf]
          simp [hyns, hynf]
    . intro y hy _ _
      unfold range
      rw [hold y hy]
  . exact hw.lock
  . exact hw.quantum

theorem Inv.empty (hq : vmp.segqueue = []) (hfl : vmp.freelist = fun _ => [])
    (hht : vmp.hashtable = fun _ => [])
    : Inv vmp [] := by
  constructor
  . simp [hq]
  . simp
  . rw [hq]
    exact ⟨_, .nil _, rfl⟩
  . rw [hfl]
    apply Indexed.empty.congr
    simp [OnFreelist, hq]
  . rw [hht]
    apply Indexed.empty.congr
    simp [OnHashtable, hq]
  . simp [hq]
  . constructor
    . simp [hq]
    . simp [hq]

end Vmem
end Nyy
