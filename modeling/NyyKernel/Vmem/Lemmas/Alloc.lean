import NyyKernel.Vmem.Impl.Alloc
import NyyKernel.Vmem.Lemmas.Pool
import NyyKernel.Vmem.Lemmas.Ranges

namespace Nyy
namespace Vmem

open Tiling

variable {vmp vmp' : Vmem} {x n newSeg : SegId} {pre post d new : List SegId} {start : Nat}
  {pool pool' : SegPool} {r : Nat × Nat}

namespace Inv

variable {vmp vmp' : Vmem} {x n : SegId} {pre post : List SegId}

theorem split {k : Nat} (h : Inv vmp [x]) (ha : Around vmp x pre post) (hn : n ∉ vmp.segqueue) (hk : 0 < k)
    (hlt : k < (vmp.seg x).size) (hq : vmp'.segqueue = pre ++ n :: x :: post)
    (hseg : vmp'.seg x = { vmp.seg x with base := (vmp.seg x).base + k, size := (vmp.seg x).size - k })
    (hnt : (vmp'.seg n).type ≠ .span) (hnb : (vmp'.seg n).base = (vmp.seg x).base)
    (hns : (vmp'.seg n).size = k) (hother : ∀ y, y ≠ x → y ≠ n → vmp'.seg y = vmp.seg y)
    (hfl : vmp'.freelist = vmp.freelist) (hht : vmp'.hashtable = vmp.hashtable)
    : Inv vmp' [n, x] := by
  have hx := h.detached x List.mem_cons_self
  have hne : n ≠ x := fun heq => hn (heq ▸ hx.1)
  have hmem : ∀ y, y ∈ vmp'.segqueue ↔ y = n ∨ y ∈ vmp.segqueue := by
    intro y
    rw [hq, ha.eq]
    simp only [List.mem_append, List.mem_cons]
    tauto
  have hnpre : n ∉ pre := fun hmem => hn (by simp [ha.eq, hmem])
  have hnpost : n ∉ post := fun hmem => hn (by simp [ha.eq, hmem])
  constructor
  . have hnd := h.nodup
    rw [ha.eq] at hn hnd
    rw [hq, List.nodup_middle, List.nodup_cons]
    exact ⟨hn, hnd⟩
  . intro y hy
    simp only [List.mem_cons, List.not_mem_nil, or_false] at hy
    rcases hy with rfl | rfl
    . exact ⟨(hmem y).mpr (.inl rfl), hnt⟩
    . rw [hseg]
      exact ⟨(hmem y).mpr (.inr hx.1), hx.2⟩
  . have hsame : ∀ l : List SegId, x ∉ l → n ∉ l → vmp'.blocks [n, x] l = vmp.blocks [x] l := by
      intro l hxl hnl
      apply blocks_congr
      . intro y hy
        exact hother y (fun heq => hxl (heq ▸ hy)) (fun heq => hnl (heq ▸ hy))
      . intro y hy
        have : y ≠ n := fun heq => hnl (heq ▸ hy)
        simp [this]
    have htiled := h.tiled_around ha
    rw [block_detached _ (by simp)] at htiled
    rw [hq, blocks_append, blocks_cons, blocks_cons, hsame pre ha.pre hnpre,
      hsame post ha.post hnpost, block_detached _ (List.mem_cons_self),
      block_detached _ (List.mem_cons_of_mem _ List.mem_cons_self), hnb, hns, hseg]
    exact htiled.split_used hk hlt
  . rw [hfl]
    apply h.freelist.congr
    intro y i
    unfold OnFreelist
    rw [hmem]
    by_cases hyn : y = n
    . subst hyn
      simp [hn]
    . by_cases hyx : y = x
      . simp [hyx]
      . rw [hother y hyx hyn]
        simp [hyn]
  . rw [hht]
    apply h.hashtable.congr
    intro y i
    unfold OnHashtable
    rw [hmem]
    by_cases hyn : y = n
    . subst hyn
      simp [hn]
    . by_cases hyx : y = x
      . simp [hyx]
      . rw [hother y hyx hyn]
        simp [hyn]
  . intro y hy hyd hfree
    simp only [List.mem_cons, List.not_mem_nil, or_false, not_or] at hyd
    rw [hother y hyd.2 hyd.1] at hfree ⊢
    exact h.sized y (((hmem y).mp hy).resolve_left hyd.1) (by simpa using hyd.2) hfree
  . apply h.spans.of_sub
    intro y hy hys
    have hyn : y ≠ n := by
      rintro rfl
      exact hnt hys
    have hyx : y ≠ x := by
      rintro rfl
      rw [hseg] at hys
      exact hx.2 hys
    exact ⟨((hmem y).mp hy).resolve_left hyn, hother y hyx hyn⟩

end Inv

structure Taken (vmp : Vmem) (x : SegId) (pre post : List SegId) : Prop where
  inv : Inv vmp [x]
  around : Around vmp x pre post
  post : ¬ StartsFree (vmp.blocks [x] post)
  free : (vmp.seg x).type = .free

theorem Inv.taken (h : Inv vmp []) (hx : x ∈ vmp.segqueue) (ht : (vmp.seg x).type = .free)
    : ∃ pre post, Taken (vmp.listRemove x) x pre post ∧
        ¬ EndsFree ((vmp.listRemove x).blocks [x] pre) := by
  rcases h.around hx with ⟨pre, post, ha⟩
  have hsame : ∀ l : List SegId, x ∉ l → (vmp.listRemove x).blocks [x] l = vmp.blocks [] l := by
    intro l hl
    apply blocks_congr
    . intro y _
      rfl
    . intro y hy
      have : y ≠ x := fun heq => hl (heq ▸ hy)
      simp [this]
  have hnb := (h.tiled_around ha).neighbours (by simp [block, ht])
  refine ⟨pre, post, ⟨h.listRemove hx (by simp [ht]), ⟨ha.eq, ha.pre, ha.post⟩, ?_, ht⟩, ?_⟩
  . rw [hsame post ha.post]
    exact hnb.2
  . rw [hsame pre ha.pre]
    exact hnb.1

def cut (vmp : Vmem) (x n : SegId) (pre post : List SegId) (k : Nat) (t : SegType) : Vmem :=
  { (vmp.setSeg n { vmp.seg n with type := t, base := (vmp.seg x).base, size := k }).setSeg x
      { vmp.seg x with base := (vmp.seg x).base + k, size := (vmp.seg x).size - k } with
    segqueue := pre ++ n :: x :: post }

section Cut

variable {vmp : Vmem} {x n y : SegId} {pre post : List SegId} {k : Nat} {t : SegType}

@[simp]
theorem cut_self
    : (vmp.cut x n pre post k t).seg x =
        { vmp.seg x with base := (vmp.seg x).base + k, size := (vmp.seg x).size - k } := by
  exact Function.update_self ..

theorem cut_new (hne : n ≠ x)
    : (vmp.cut x n pre post k t).seg n =
        { vmp.seg n with type := t, base := (vmp.seg x).base, size := k } := by
  simp [cut, setSeg, hne]

theorem cut_other (hx : y ≠ x) (hn : y ≠ n) : (vmp.cut x n pre post k t).seg y = vmp.seg y := by
  simp [cut, setSeg, hx, hn]

theorem cut_mem (ha : Around vmp x pre post)
    : y ∈ (vmp.cut x n pre post k t).segqueue ↔ y = n ∨ y ∈ vmp.segqueue := by
  rw [ha.eq]
  simp only [cut, List.mem_append, List.mem_cons]
  tauto

theorem cut_perm (ha : Around vmp x pre post)
    : (vmp.cut x n pre post k t).segqueue.Perm (n :: vmp.segqueue) := by
  rw [ha.eq]
  exact List.perm_middle

theorem cut_blocks {l d d' : List SegId} (hx : x ∉ l) (hn : n ∉ l) (hd : ∀ y ∈ l, y ∈ d' ↔ y ∈ d)
    : (vmp.cut x n pre post k t).blocks d' l = vmp.blocks d l := by
  apply blocks_congr
  . intro y hy
    exact cut_other (fun heq => hx (heq ▸ hy)) (fun heq => hn (heq ▸ hy))
  . exact hd

theorem cut_around_new (ha : Around vmp x pre post) (hn : n ∉ vmp.segqueue)
    : Around (vmp.cut x n pre post k t) n pre (x :: post) := by
  rw [ha.eq] at hn
  simp only [List.mem_append, not_or] at hn
  exact ⟨rfl, hn.1, hn.2⟩

theorem cut_around_self (ha : Around vmp x pre post) (hne : n ≠ x)
    : Around (vmp.cut x n pre post k t) x (pre ++ [n]) post := by
  refine ⟨?_, ?_, ha.post⟩
  . simp [cut]
  . simp [ha.pre, hne.symm]

theorem Inv.cut (h : Inv vmp [x]) (ha : Around vmp x pre post) (hn : n ∉ vmp.segqueue) (hk : 0 < k)
    (hlt : k < (vmp.seg x).size) (ht : t ≠ .span)
    : Inv (vmp.cut x n pre post k t) [n, x] := by
  have hne : n ≠ x := fun heq => hn (heq ▸ (h.detached x List.mem_cons_self).1)
  apply h.split ha hn hk hlt rfl cut_self
  . rw [cut_new hne]
    exact ht
  . rw [cut_new hne]
  . rw [cut_new hne]
  . exact fun y => cut_other
  . rfl
  . rfl

end Cut

theorem cut_eq {nb : SegId} {k : Nat} {t : SegType} (ha : Around vmp x (pre ++ [nb]) post) (hnb : nb ∉ pre)
    : ({ (vmp.setSeg n { vmp.seg n with type := t, base := (vmp.seg x).base, size := k }).setSeg x
        { vmp.seg x with base := (vmp.seg x).base + k, size := (vmp.seg x).size - k } with
        segqueue := Queue.insertAfter vmp.segqueue nb n } : Vmem)
      = vmp.cut x n (pre ++ [nb]) post k t := by
  unfold cut
  rw [ha.eq, List.append_assoc, List.append_assoc, List.singleton_append,
    Queue.insertAfter_append hnb]
  rfl

structure Agrees (vmp vmp' : Vmem) : Prop where
  seg : vmp'.seg = vmp.seg
  segqueue : vmp'.segqueue = vmp.segqueue
  lock : vmp'.lock = vmp.lock
  quantum : vmp'.quantum = vmp.quantum

namespace Agrees

variable {vmp vmp' : Vmem}

theorem blocks (h : Agrees vmp vmp') (d l : List SegId) : vmp'.blocks d l = vmp.blocks d l := by
  apply blocks_congr
  . intro y _
    rw [h.seg]
  . exact fun y _ => Iff.rfl

theorem range (h : Agrees vmp vmp') (x : SegId) : vmp'.range x = vmp.range x := by
  unfold Vmem.range
  rw [h.seg]

theorem ranges (h : Agrees vmp vmp') (d : List SegId) (t : SegType)
    : vmp'.ranges d t = vmp.ranges d t := by
  unfold Vmem.ranges Vmem.range
  rw [h.seg, h.segqueue]

theorem around (h : Agrees vmp vmp') (ha : Around vmp x pre post) : Around vmp' x pre post := by
  exact ⟨h.segqueue.trans ha.eq, ha.pre, ha.post⟩

end Agrees

theorem splitFront_eq (h : Taken vmp x pre post) (hn : n ∉ vmp.segqueue) (hlo : (vmp.seg x).base < start)
    (hhi : start < (vmp.seg x).base + (vmp.seg x).size) (he : xallocSplitFront vmp x n start = .ok vmp')
    : ∃ i, freelistForSize (start - (vmp.seg x).base) = .ok i ∧
        Agrees (vmp.cut x n pre post (start - (vmp.seg x).base) .free) vmp' ∧
        vmp'.freelist = Function.update vmp.freelist i (n :: vmp.freelist i) ∧
        vmp'.hashtable = vmp.hashtable := by
  have hx := h.inv.detached x List.mem_cons_self
  have hne : n ≠ x := fun heq => hn (heq ▸ hx.1)
  have hbound := h.inv.bounded hx.1
  rcases h.inv.exists_prev h.around hx.2 with ⟨pre, nb, rfl⟩
  have hnb : Around vmp nb pre (x :: post) := h.inv.around_of_eq (by simp [h.around.eq])
  have hfront : Word.sub start (vmp.seg x).base = start - (vmp.seg x).base :=
    Word.sub_eq (by omega) (by omega)
  have hrest : Word.sub (vmp.seg x).size (start - (vmp.seg x).base)
      = (vmp.seg x).size - (start - (vmp.seg x).base) := Word.sub_eq (by omega) (by omega)
  have hstart : (vmp.seg x).base + (start - (vmp.seg x).base) = start := by omega
  unfold xallocSplitFront vmemAddToFreelist at he
  simp only [hfront, hrest, setSeg_of_ne _ _ hne, setSeg_self, bind_assoc] at he
  rcases Except.bind_eq_ok he with ⟨i, hi, he⟩
  simp only [pure_bind, setSeg_segqueue, h.around.prev, vmemInsertSegment] at he
  cases he
  refine ⟨i, hi, ?_, rfl, rfl⟩
  rw [← cut_eq h.around hnb.pre, hstart]
  exact ⟨rfl, rfl, rfl, rfl⟩

theorem splitTail_eq {size : Nat} (h : Taken vmp x pre post) (hn : n ∉ vmp.segqueue)
    (hlt : size < (vmp.seg x).size) (he : xallocSplitTail vmp x n size = .ok vmp')
    : ∃ i, freelistForSize ((vmp.seg x).size - size) = .ok i ∧
        Agrees (vmp.cut x n pre post size .allocated) vmp' ∧
        vmp'.freelist = Function.update vmp.freelist i (x :: vmp.freelist i) ∧
        vmp'.hashtable = Function.update vmp.hashtable (hashtableForAddr (vmp.seg x).base)
          (n :: vmp.hashtable (hashtableForAddr (vmp.seg x).base)) := by
  have hx := h.inv.detached x List.mem_cons_self
  have hne : n ≠ x := fun heq => hn (heq ▸ hx.1)
  have hbound := h.inv.bounded hx.1
  rcases h.inv.exists_prev h.around hx.2 with ⟨pre, nb, rfl⟩
  have hnb : Around vmp nb pre (x :: post) := h.inv.around_of_eq (by simp [h.around.eq])
  have hbase : Word.add (vmp.seg x).base size = (vmp.seg x).base + size := Word.add_eq (by omega)
  have hrest : Word.sub (vmp.seg x).size size = (vmp.seg x).size - size :=
    Word.sub_eq (by omega) (by omega)
  unfold xallocSplitTail vmemAddToFreelist at he
  simp only [hbase, hrest, setSeg_self, bind_assoc] at he
  rcases Except.bind_eq_ok he with ⟨i, hi, he⟩
  simp only [pure_bind, setSeg_segqueue, h.around.prev, vmemInsertSegment, hashtabInsert,
    setSeg_of_ne _ _ hne, setSeg_self] at he
  cases he
  refine ⟨i, hi, ?_, rfl, rfl⟩
  rw [← cut_eq h.around hnb.pre]
  exact ⟨rfl, rfl, rfl, rfl⟩

theorem splitFront_spec (h : Taken vmp x pre post) (hpre : ¬ EndsFree (vmp.blocks [x] pre))
    (hn : n ∉ vmp.segqueue) (hlo : (vmp.seg x).base < start)
    (hhi : start < (vmp.seg x).base + (vmp.seg x).size) (he : xallocSplitFront vmp x n start = .ok vmp')
    : Taken vmp' x (pre ++ [n]) post ∧ vmp'.segqueue.Perm (n :: vmp.segqueue) ∧
        vmp'.range x = (start, (vmp.seg x).base + (vmp.seg x).size - start) ∧
        (∀ t, t ≠ .free → vmp'.ranges [x] t = vmp.ranges [x] t) ∧
        Markers vmp vmp' ∧ vmp'.lock = vmp.lock ∧ vmp'.quantum = vmp.quantum := by
  have hx := h.inv.detached x List.mem_cons_self
  have hne : n ≠ x := fun heq => hn (heq ▸ hx.1)
  have ha := h.around
  rcases splitFront_eq h hn hlo hhi he with ⟨i, hi, hagrees, hfl, hht⟩
  have hcut : Inv (vmp.cut x n pre post (start - (vmp.seg x).base) .free) [n, x] :=
    h.inv.cut ha hn (by omega) (by omega) (by simp)
  have hnew : Around (vmp.cut x n pre post (start - (vmp.seg x).base) .free) n pre (x :: post) :=
    cut_around_new ha hn
  have hnpost : n ∉ post := fun hmem => hnew.post (List.mem_cons_of_mem _ hmem)
  have hd : ∀ y, y ∈ [x] ↔ y ∈ [n, x] ∧ y ≠ n := by
    intro y
    simp only [List.mem_cons, List.not_mem_nil, or_false]
    constructor
    . rintro rfl
      exact ⟨.inr rfl, hne.symm⟩
    . rintro ⟨hy, hyn⟩
      exact hy.resolve_left hyn
  refine ⟨⟨?_, ?_, ?_, ?_⟩, ?_, ?_, ?_, ?_, ?_, ?_⟩
  . apply hcut.attachFree List.mem_cons_self hd hnew
    . rw [cut_blocks ha.pre hnew.pre]
      . exact hpre
      . intro y hy
        have : y ≠ n := fun heq => hnew.pre (heq ▸ hy)
        simp [this]
    . apply not_startsFree_blocks
      intro y hy hyd
      cases hy
      simp at hyd
    . rw [cut_new hne]
      exact hi
    . exact hagrees.segqueue
    . rw [hagrees.seg, cut_new hne]
    . intro y _
      rw [hagrees.seg]
    . exact hfl
    . exact hht
  . exact hagrees.around (cut_around_self ha hne)
  . rw [hagrees.blocks, cut_blocks ha.post hnpost (fun y _ => Iff.rfl)]
    exact h.post
  . rw [hagrees.seg, cut_self]
    exact h.free
  . rw [hagrees.segqueue]
    exact cut_perm ha
  . unfold range
    rw [hagrees.seg, cut_self, Prod.mk.injEq]
    dsimp only
    omega
  . intro t ht
    rw [hagrees.ranges]
    apply ranges_congr
    . intro y
      rw [cut_mem ha]
      by_cases hyn : y = n
      . subst hyn
        rw [cut_new hne]
        simp [hn, ht.symm]
      . by_cases hyx : y = x
        . simp [hyx]
        . rw [cut_other hyx hyn]
          simp [hyn]
    . intro y hy hyd _
      have hyn : y ≠ n := fun heq => hn (heq ▸ hy)
      unfold range
      rw [cut_other (by simpa using hyd) hyn]
  . intro y hy hyt
    rw [hagrees.segqueue, cut_mem ha] at hy
    rw [hagrees.seg] at hyt ⊢
    have hyn : y ≠ n := by
      rintro rfl
      simp [cut_new hne] at hyt
    have hyx : y ≠ x := by
      rintro rfl
      simp [h.free] at hyt
    exact ⟨hy.resolve_left hyn, cut_other hyx hyn⟩
  . rw [hagrees.lock]
    rfl
  . rw [hagrees.quantum]
    rfl

theorem xallocFront_spec (h : Taken vmp x pre post) (hpre : ¬ EndsFree (vmp.blocks [x] pre))
    (hn : n ∉ vmp.segqueue) (hlo : (vmp.seg x).base ≤ start)
    (hhi : start < (vmp.seg x).base + (vmp.seg x).size) (he : xallocFront vmp x n start = .ok vmp')
    : ∃ pre', Taken vmp' x pre' post ∧
        vmp'.segqueue.Perm ((if (vmp.seg x).base ≠ start then [n] else []) ++ vmp.segqueue) ∧
        vmp'.range x = (start, (vmp.seg x).base + (vmp.seg x).size - start) ∧
        (∀ t, t ≠ .free → vmp'.ranges [x] t = vmp.ranges [x] t) ∧
        Markers vmp vmp' ∧ vmp'.lock = vmp.lock ∧ vmp'.quantum = vmp.quantum := by
  unfold xallocFront at he
  split at he
  . next hc =>
    rw [if_pos hc]
    exact ⟨_, splitFront_spec h hpre hn (by omega) hhi he⟩
  . next hc =>
    cases he
    rw [if_neg hc]
    refine ⟨pre, h, .refl _, ?_, fun _ _ => rfl, .refl _, rfl, rfl⟩
    unfold range
    rw [Prod.mk.injEq]
    omega

structure Placed (vmp : Vmem) (d new : List SegId) (vmp' : Vmem) (n : SegId) (r : Nat × Nat)
    : Prop where
  inv : Inv vmp' []
  perm : vmp'.segqueue.Perm (new ++ vmp.segqueue)
  mem : n ∈ vmp'.segqueue
  type : (vmp'.seg n).type = .allocated
  range : vmp'.range n = r
  allocs : vmp'.ranges [] .allocated = insert r (vmp.ranges d .allocated)
  spans : vmp'.ranges [] .span = vmp.ranges d .span
  markers : Markers vmp vmp'
  lock : vmp'.lock = vmp.lock
  quantum : vmp'.quantum = vmp.quantum

theorem splitTail_spec {size : Nat} (h : Taken vmp x pre post) (hn : n ∉ vmp.segqueue) (hsize : 0 < size)
    (hlt : size < (vmp.seg x).size) (he : xallocSplitTail vmp x n size = .ok vmp')
    : Placed vmp [x] [n] vmp' n ((vmp.seg x).base, size) := by
  have hx := h.inv.detached x List.mem_cons_self
  have hne : n ≠ x := fun heq => hn (heq ▸ hx.1)
  have ha := h.around
  rcases splitTail_eq h hn hlt he with ⟨i, hi, hagrees, hfl, hht⟩
  have hcut : Inv (vmp.cut x n pre post size .allocated) [n, x] :=
    h.inv.cut ha hn hsize hlt (by simp)
  have hnew : Around (vmp.cut x n pre post size .allocated) n pre (x :: post) :=
    cut_around_new ha hn
  have hself : Around (vmp.cut x n pre post size .allocated) x (pre ++ [n]) post :=
    cut_around_self ha hne
  have hnpost : n ∉ post := fun hmem => hnew.post (List.mem_cons_of_mem _ hmem)
  have hd : ∀ y, y ∈ [n] ↔ y ∈ [n, x] ∧ y ≠ x := by
    intro y
    simp only [List.mem_cons, List.not_mem_nil, or_false]
    constructor
    . rintro rfl
      exact ⟨.inl rfl, hne⟩
    . rintro ⟨hy, hyx⟩
      exact hy.resolve_right hyx
  -- first the rest of `x` goes to its freelist, then `n` to its hash bucket
  have hmid : Inv { vmp' with hashtable := vmp.hashtable } [n] := by
    apply hcut.attachFree (List.mem_cons_of_mem _ List.mem_cons_self) hd hself
    . exact not_endsFree_blocks (fun hyd => absurd List.mem_cons_self hyd)
    . rw [cut_blocks ha.post hnpost]
      . exact h.post
      . intro y hy
        have : y ≠ n := fun heq => hnpost (heq ▸ hy)
        simp [this]
    . rw [cut_self]
      exact hi
    . exact hagrees.segqueue
    . dsimp only
      rw [hagrees.seg, cut_self]
      dsimp only
      rw [h.free]
    . intro y _
      dsimp only
      rw [hagrees.seg]
    . exact hfl
    . rfl
  have hseg : vmp'.seg n =
      { vmp.seg n with type := .allocated, base := (vmp.seg x).base, size := size } := by
    rw [hagrees.seg, cut_new hne]
  have hinv : Inv vmp' [] := by
    apply hmid.attachUsed List.mem_cons_self (by simp)
    . rfl
    . dsimp only
      rw [hseg]
    . intro y _
      rfl
    . rfl
    . dsimp only
      rw [hseg]
      exact hht
  have hmem : ∀ y, y ∈ vmp'.segqueue ↔ y = n ∨ y ∈ vmp.segqueue := by
    intro y
    rw [hagrees.segqueue, cut_mem ha]
  have hrange : vmp'.range n = ((vmp.seg x).base, size) := by
    unfold range
    rw [hseg]
  have hother : ∀ y ∈ vmp.segqueue, y ∉ [x] → vmp'.seg y = vmp.seg y := by
    intro y hy hyx
    have hyn : y ≠ n := fun heq => hn (heq ▸ hy)
    rw [hagrees.seg, cut_other (by simpa using hyx) hyn]
  have hxfree : (vmp'.seg x).type = .free := by
    rw [hagrees.seg, cut_self]
    exact h.free
  refine ⟨hinv, ?_, ?_, ?_, hrange, ?_, ?_, ?_, ?_, ?_⟩
  . rw [hagrees.segqueue]
    exact cut_perm ha
  . rw [hmem]
    exact .inl rfl
  . rw [hseg]
  . rw [← hrange]
    apply ranges_insert
    . intro y
      rw [hmem]
      by_cases hyn : y = n
      . simp [hyn, hseg]
      . by_cases hyx : y = x
        . simp [hyx, hxfree, hne.symm]
        . rw [hagrees.seg, cut_other hyx hyn]
          simp [hyn, hyx]
    . intro y hy hyx _
      unfold range
      rw [hother y hy hyx]
  . apply ranges_congr
    . intro y
      rw [hmem]
      by_cases hyn : y = n
      . simp [hyn, hseg, hn]
      . by_cases hyx : y = x
        . simp [hyx, hxfree]
        . rw [hagrees.seg, cut_other hyx hyn]
          simp [hyn, hyx]
    . intro y hy hyx _
      unfold range
      rw [hother y hy hyx]
  . intro y hy hyt
    have hyn : y ≠ n := by
      rintro rfl
      simp [hseg] at hyt
    have hyx : y ≠ x := by
      rintro rfl
      simp [hxfree] at hyt
    have hy' := ((hmem y).mp hy).resolve_left hyn
    exact ⟨hy', hother y hy' (by simpa using hyx)⟩
  . rw [hagrees.lock]
    rfl
  . rw [hagrees.quantum]
    rfl

theorem takeWhole_spec (h : Taken vmp x pre post)
    : Placed vmp [x] [] (xallocTakeWhole vmp x) x (vmp.range x) := by
  have hx := h.inv.detached x List.mem_cons_self
  have hself : (xallocTakeWhole vmp x).seg x = { vmp.seg x with type := .allocated } := by
    exact Function.update_self ..
  have hother : ∀ y, y ≠ x → (xallocTakeWhole vmp x).seg y = vmp.seg y := by
    intro y hy
    exact setSeg_of_ne _ _ hy
  have hrange : (xallocTakeWhole vmp x).range x = vmp.range x := by
    unfold range
    rw [hself]
  refine ⟨?_, .refl _, hx.1, ?_, hrange, ?_, ?_, ?_, rfl, rfl⟩
  . apply h.inv.attachUsed List.mem_cons_self (by simp)
    . rfl
    . exact hself
    . exact hother
    . rfl
    . simp [xallocTakeWhole, hashtabInsert, setSeg]
  . rw [hself]
  . rw [← hrange]
    apply ranges_insert
    . intro y
      by_cases hyx : y = x
      . simp only [hyx, hself]
        simp [xallocTakeWhole, hashtabInsert, hx.1]
      . rw [hother y hyx]
        simp [xallocTakeWhole, hashtabInsert, hyx]
    . intro y _ hyx _
      unfold range
      rw [hother y (by simpa using hyx)]
  . apply ranges_congr
    . intro y
      by_cases hyx : y = x
      . simp [hyx, hself]
      . rw [hother y hyx]
        simp [xallocTakeWhole, hashtabInsert, hyx]
    . intro y _ hyx _
      unfold range
      rw [hother y (by simpa using hyx)]
  . intro y hy hyt
    have hyx : y ≠ x := by
      rintro rfl
      simp [hself] at hyt
    exact ⟨hy, hother y hyx⟩

theorem Placed.finish (h : Placed vmp d new vmp' n r)
    : Placed vmp d new (xallocFinish vmp' n) n r := by
  have hsame : (xallocFinish vmp' n).seg = vmp'.seg := by
    apply Function.update_eq_self_iff.mpr
    cases hn : vmp'.seg n with
    | mk type imported base size =>
      have ht := h.type
      rw [hn] at ht
      dsimp only at ht
      rw [ht]
  have hagrees : Agrees vmp' (xallocFinish vmp' n) := ⟨hsame, rfl, rfl, rfl⟩
  constructor
  . exact h.inv.of_eq hsame rfl rfl rfl
  . exact h.perm
  . exact h.mem
  . rw [hsame]
    exact h.type
  . rw [hagrees.range]
    exact h.range
  . rw [hagrees.ranges]
    exact h.allocs
  . rw [hagrees.ranges]
    exact h.spans
  . intro y hy hyt
    rw [hsame] at hyt ⊢
    exact h.markers y hy hyt
  . exact h.lock
  . exact h.quantum

theorem xallocPlace_spec {new : SegId} {size : Nat} (h : Taken vmp x pre post) (hn : newSeg ∉ vmp.segqueue)
    (hsize : 0 < size) (hle : size ≤ (vmp.seg x).size)
    (he : xallocPlace vmp pool x newSeg size = .ok (new, vmp', pool'))
    : ∃ sz, size ≤ sz ∧
        (sz = size ∨ (sz = (vmp.seg x).size ∧ sz - size ≤ Word.sub vmp.quantum 1)) ∧
        pool.Moves (newSeg :: vmp.segqueue) pool' vmp'.segqueue ∧
        ∃ tags, Placed vmp [x] tags vmp' new ((vmp.seg x).base, sz) := by
  have hbound := h.inv.bounded (h.inv.detached x List.mem_cons_self).1
  unfold xallocPlace at he
  dsimp only at he
  split at he
  . next hc =>
    rcases Except.bind_eq_ok he with ⟨vmp2, he2, he⟩
    cases he
    have hplaced := splitTail_spec h hn hsize (by omega) he2
    exact ⟨size, Nat.le_refl _, .inl rfl, .of_perm hplaced.perm, _, hplaced⟩
  . next hc =>
    cases he
    have hplaced := takeWhole_spec h
    refine ⟨(vmp.seg x).size, hle, ?_, ?_, _, hplaced⟩
    . rw [Word.sub_eq hbound.2 hle] at hc
      by_cases heq : (vmp.seg x).size = size
      . exact .inl heq
      . refine .inr ⟨rfl, ?_⟩
        by_contra hgt
        exact hc ⟨heq, by omega⟩
    . have hmoves : pool.Moves (newSeg :: vmp.segqueue) (segFree newSeg pool)
          ((newSeg :: vmp.segqueue).erase newSeg) := .segFree List.mem_cons_self
      rw [List.erase_cons_head] at hmoves
      exact hmoves

theorem vmemAddToFreelist_stat (he : vmemAddToFreelist vmp x = .ok vmp')
    : vmp'.stat = vmp.stat := by
  unfold vmemAddToFreelist at he
  rcases Except.bind_eq_ok he with ⟨idx, _, he⟩
  cases he
  rfl

theorem vmemInsertSegment_stat {prev : Option SegId} (he : vmemInsertSegment vmp x prev = .ok vmp')
    : vmp'.stat = vmp.stat := by
  cases prev with
  | none => cases he
  | some prev =>
    cases he
    rfl

theorem xallocFront_stat (he : xallocFront vmp x n start = .ok vmp') : vmp'.stat = vmp.stat := by
  unfold xallocFront at he
  split at he
  . unfold xallocSplitFront at he
    rcases Except.bind_eq_ok he with ⟨vmp1, he1, he2⟩
    rw [vmemInsertSegment_stat he2, vmemAddToFreelist_stat he1]
    rfl
  . cases he
    rfl

theorem xallocPlace_stat {new : SegId} {size : Nat}
    (he : xallocPlace vmp pool x newSeg size = .ok (new, vmp', pool'))
    : vmp'.stat = vmp.stat := by
  unfold xallocPlace at he
  dsimp only at he
  split at he
  . rcases Except.bind_eq_ok he with ⟨vmp1, he1, he⟩
    cases he
    unfold xallocSplitTail at he1
    rcases Except.bind_eq_ok he1 with ⟨vmp2, he2, he1⟩
    rcases Except.bind_eq_ok he1 with ⟨vmp3, he3, he1⟩
    cases he1
    show vmp3.stat = vmp.stat
    rw [vmemInsertSegment_stat he3, vmemAddToFreelist_stat he2]
    rfl
  . cases he
    rfl

def CountsAlloc (stat : VmemStat) (vmp' : Vmem) (start : Nat) : Prop :=
  ∃ n ∈ vmp'.segqueue, (vmp'.seg n).type = .allocated ∧ (vmp'.seg n).base = start ∧
    vmp'.stat = { stat with
      free := Word.sub stat.free (vmp'.seg n).size
      inUse := Word.add stat.inUse (vmp'.seg n).size }

theorem Placed.counts (h : Placed vmp d new vmp' n r)
    : CountsAlloc vmp'.stat (xallocFinish vmp' n) r.1 := by
  have hfinish := h.finish
  refine ⟨n, hfinish.mem, hfinish.type, congrArg Prod.fst hfinish.range, ?_⟩
  have hsize : ((xallocFinish vmp' n).seg n).size = (vmp'.seg n).size := by
    exact (congrArg Prod.snd hfinish.range).trans (congrArg Prod.snd h.range).symm
  rw [hsize]
  rfl

structure Found (vmp : Vmem) (pool : SegPool) (owned : List SegId) (x : SegId) (start size : Nat)
    (vmp' : Vmem) (pool' : SegPool) : Prop where
  inv : Inv vmp' []
  moves : pool.Moves (owned ++ vmp.segqueue) pool' vmp'.segqueue
  allocs : ∃ sz, size ≤ sz ∧
    (sz = size ∨ (sz = (vmp.seg x).base + (vmp.seg x).size - start ∧
      sz - size ≤ Word.sub vmp.quantum 1)) ∧
    vmp'.ranges [] .allocated = insert (start, sz) (vmp.ranges [] .allocated)
  spans : vmp'.ranges [] .span = vmp.ranges [] .span
  markers : Markers vmp vmp'
  lock : vmp'.lock = vmp.lock
  quantum : vmp'.quantum = vmp.quantum

theorem xallocFound_spec {cfg : Config} {newSeg2 : SegId} {size ret : Nat} (h : Inv vmp [])
    (hx : x ∈ vmp.segqueue) (ht : (vmp.seg x).type = .free) (hn : newSeg ∉ vmp.segqueue)
    (hn2 : newSeg2 ∉ vmp.segqueue) (hne : newSeg ≠ newSeg2) (hsize : 0 < size)
    (hlo : (vmp.seg x).base ≤ start) (hhi : start + size ≤ (vmp.seg x).base + (vmp.seg x).size)
    (he : xallocFound cfg vmp pool x start newSeg newSeg2 size = .ok (ret, vmp', pool'))
    : ret = start ∧ Found vmp pool [newSeg, newSeg2] x start size vmp' pool' ∧
        CountsAlloc vmp.stat vmp' start := by
  rcases h.taken hx ht with ⟨pre, post, htaken, hpre⟩
  unfold xallocFound at he
  rcases Except.bind_eq_ok he with ⟨_, _, he⟩
  rcases Except.bind_eq_ok he with ⟨_, _, he⟩
  rcases Except.bind_eq_ok he with ⟨vmp1, he1, he⟩
  rcases Except.bind_eq_ok he with ⟨_, _, he⟩
  rcases Except.bind_eq_ok he with ⟨⟨new, vmp2, pool2⟩, he2, he⟩
  rcases Except.bind_eq_ok he with ⟨_, _, he⟩
  have hallocs0 : (vmp.listRemove x).ranges [x] .allocated = vmp.ranges [] .allocated := by
    apply ranges_congr
    . intro y
      by_cases hyx : y = x
      . simp [hyx, ht]
      . simp [hyx]
    . exact fun y _ _ _ => rfl
  have hspans0 : (vmp.listRemove x).ranges [x] .span = vmp.ranges [] .span := by
    rw [htaken.inv.ranges_span]
    rfl
  have hhi0 : start < ((vmp.listRemove x).seg x).base + ((vmp.listRemove x).seg x).size := by
    rw [listRemove_seg]
    omega
  rcases xallocFront_spec htaken hpre hn2 hlo hhi0 he1 with
    ⟨pre1, htaken1, hperm1, hrange1, hranges1, hmarkers1, hlock1, hquantum1⟩
  rw [listRemove_segqueue, listRemove_seg] at hperm1
  have hbase1 : (vmp1.seg x).base = start := congrArg Prod.fst hrange1
  have hsize1 : (vmp1.seg x).size = (vmp.seg x).base + (vmp.seg x).size - start :=
    congrArg Prod.snd hrange1
  have hn1 : newSeg ∉ vmp1.segqueue := by
    rw [hperm1.mem_iff, List.mem_append, not_or]
    refine ⟨?_, hn⟩
    split
    . simp [hne]
    . simp
  rcases xallocPlace_spec htaken1 hn1 hsize (by omega) he2 with ⟨sz, hsz, hsz2, hmoves, tags, hplaced⟩
  rw [hbase1] at hplaced
  rw [hsize1, hquantum1] at hsz2
  cases he
  have hfinish := hplaced.finish
  have hstat : vmp2.stat = vmp.stat := by
    rw [xallocPlace_stat he2, xallocFront_stat he1]
    rfl
  refine ⟨congrArg Prod.fst hfinish.range, ⟨hfinish.inv, ?_, ⟨sz, hsz, hsz2, ?_⟩, ?_, ?_, ?_, ?_⟩,
    hstat ▸ hplaced.counts⟩
  . -- the tag of the front is used up by a split and goes back otherwise
    have hmoves2 : pool2.Moves vmp2.segqueue pool2 (xallocFinish vmp2 new).segqueue := .refl _ _
    rw [listRemove_seg]
    by_cases hsplit : (vmp.seg x).base ≠ start
    . rw [if_pos hsplit] at hperm1
      rw [if_pos hsplit]
      apply (SegPool.Moves.of_perm (hperm1.cons newSeg)).trans
      exact hmoves.trans hmoves2
    . rw [if_neg hsplit] at hperm1
      rw [if_neg hsplit]
      have hperm2 : (newSeg2 :: newSeg :: vmp1.segqueue).Perm ([newSeg, newSeg2] ++ vmp.segqueue) :=
        ((hperm1.cons newSeg).cons newSeg2).trans (.swap _ _ _)
      apply (SegPool.Moves.of_perm hperm2).trans
      apply hmoves.cons.trans
      have hback : pool2.Moves (newSeg2 :: vmp2.segqueue) (segFree newSeg2 pool2)
          ((newSeg2 :: vmp2.segqueue).erase newSeg2) := .segFree List.mem_cons_self
      rw [List.erase_cons_head] at hback
      exact hback
  . rw [hfinish.allocs, hranges1 _ (by simp), hallocs0]
  . rw [hfinish.spans, hranges1 _ (by simp), hspans0]
  . exact Markers.trans hmarkers1 hfinish.markers
  . rw [hfinish.lock, hlock1]
    rfl
  . rw [hfinish.quantum, hquantum1]
    rfl

end Vmem
end Nyy
