import NyyKernel.Vmem.Impl.Alloc
import NyyKernel.Vmem.Lemmas.Pool
import NyyKernel.Vmem.Lemmas.Ranges

namespace Nyy
namespace Vmem

open Tiling

variable {x nb y : SegId} {vmp vmp' : Vmem} {pre post d : List SegId} {τ : Type} {ops : VmemOps τ}
  {w : World τ}

structure Frame (vmp vmp' : Vmem) (x : SegId) : Prop where
  seg : ∀ y, y ≠ x → vmp'.seg y = vmp.seg y
  type : (vmp'.seg x).type = (vmp.seg x).type
  covers : (vmp.seg x).block.Inside (vmp'.seg x).block
  sub : ∀ y ∈ vmp'.segqueue, y ∈ vmp.segqueue
  keep : ∀ y ∈ vmp.segqueue, (vmp.seg y).type ≠ .free → y ∈ vmp'.segqueue
  quantum : vmp'.quantum = vmp.quantum
  lock : vmp'.lock = vmp.lock

theorem Frame.refl (vmp : Vmem) (x : SegId) : Frame vmp vmp x := by
  constructor
  . exact fun y _ => rfl
  . rfl
  . exact ⟨Nat.le_refl _, Nat.le_refl _⟩
  . exact fun y hy => hy
  . exact fun y hy _ => hy
  . rfl
  . rfl

theorem Frame.trans {vmp1 vmp2 vmp3 : Vmem} (h12 : Frame vmp1 vmp2 x) (h23 : Frame vmp2 vmp3 x)
    : Frame vmp1 vmp3 x := by
  constructor
  . intro y hy
    rw [h23.seg y hy, h12.seg y hy]
  . rw [h23.type, h12.type]
  . exact ⟨Nat.le_trans h23.covers.1 h12.covers.1, Nat.le_trans h12.covers.2 h23.covers.2⟩
  . intro y hy
    exact h12.sub y (h23.sub y hy)
  . intro y hy ht
    have ht2 : (vmp2.seg y).type ≠ .free := by
      by_cases hyx : y = x
      . subst hyx
        rwa [h12.type]
      . rwa [h12.seg y hyx]
    exact h23.keep y (h12.keep y hy ht) ht2
  . rw [h23.quantum, h12.quantum]
  . rw [h23.lock, h12.lock]

theorem Frame.grows (h : Frame vmp vmp' x) : (vmp.seg x).size ≤ (vmp'.seg x).size := by
  have hlow := h.covers.1
  have hhigh := h.covers.2
  unfold VmemSegment.block at hlow hhigh
  dsimp only at hlow hhigh
  omega

theorem Frame.markers (h : Frame vmp vmp' x) (hx : (vmp.seg x).type ≠ .span)
    : Markers vmp vmp' := by
  intro y hy hyt
  have hyx : y ≠ x := by
    rintro rfl
    rw [h.type] at hyt
    exact hx hyt
  exact ⟨h.sub y hy, h.seg y hyx⟩

def absorb (vmp : Vmem) (x nb : SegId) (base size : Nat) : Vmem :=
  (xfreeUnlink vmp nb).setSeg x { vmp.seg x with base := base, size := size }

@[simp]
theorem absorb_segqueue (vmp : Vmem) (x nb : SegId) (base size : Nat)
    : (vmp.absorb x nb base size).segqueue = vmp.segqueue.erase nb := by
  rfl

@[simp]
theorem absorb_seg_self (vmp : Vmem) (x nb : SegId) (base size : Nat)
    : (vmp.absorb x nb base size).seg x = { vmp.seg x with base := base, size := size } := by
  simp [absorb]

theorem absorb_seg_of_ne (vmp : Vmem) (base size : Nat) (h : y ≠ x)
    : (vmp.absorb x nb base size).seg y = vmp.seg y := by
  unfold absorb
  rw [setSeg_of_ne _ _ h]
  rfl

theorem absorb_blocks (vmp : Vmem) (base size : Nat) {l : List SegId} (h : x ∉ l)
    : (vmp.absorb x nb base size).blocks [x] l = vmp.blocks [x] l := by
  apply blocks_congr
  . intro y hy
    exact absorb_seg_of_ne _ _ _ (fun heq => h (heq ▸ hy))
  . exact fun y _ => Iff.rfl

namespace Inv

variable {vmp vmp' : Vmem} {x nb : SegId} {pre post d : List SegId}

theorem absorb (base size : Nat) (h : Inv vmp [x]) (hnb : nb ∈ vmp.segqueue) (hne : nb ≠ x)
    (hfree : (vmp.seg nb).type = .free) (hlow : base ≤ (vmp.seg x).base)
    (hhigh : (vmp.seg x).base + (vmp.seg x).size ≤ base + size)
    (htiled : Tiled ((vmp.absorb x nb base size).blocks [x] (vmp.segqueue.erase nb)))
    : Inv (vmp.absorb x nb base size) [x] ∧ Frame vmp (vmp.absorb x nb base size) x := by
  have hmem : ∀ y, y ∈ vmp.segqueue.erase nb ↔ y ≠ nb ∧ y ∈ vmp.segqueue := by
    intro y
    exact h.nodup.mem_erase_iff
  have hx := h.detached x List.mem_cons_self
  constructor
  . constructor
    . exact h.nodup.erase nb
    . simp only [List.mem_singleton, forall_eq]
      rw [absorb_segqueue, hmem, absorb_seg_self]
      exact ⟨⟨hne.symm, hx.1⟩, hx.2⟩
    . exact htiled
    . apply (h.freelist.erase nb).congr
      intro y i
      unfold OnFreelist
      rw [absorb_segqueue, hmem]
      by_cases hyx : y = x
      . simp [hyx]
      . rw [absorb_seg_of_ne _ _ _ hyx]
        tauto
    . apply (h.hashtable.erase nb).congr
      intro y i
      unfold OnHashtable
      rw [absorb_segqueue, hmem]
      by_cases hyx : y = x
      . simp [hyx]
      . rw [absorb_seg_of_ne _ _ _ hyx]
        tauto
    . intro y hy hyx hyfree
      simp only [List.mem_singleton] at hyx
      rw [absorb_seg_of_ne _ _ _ hyx] at hyfree ⊢
      exact h.sized y ((hmem y).mp hy).2 (by simpa using hyx) hyfree
    . apply h.spans.of_sub
      intro y hy hys
      have hyx : y ≠ x := by
        rintro rfl
        rw [absorb_seg_self] at hys
        exact hx.2 hys
      exact ⟨((hmem y).mp hy).2, absorb_seg_of_ne _ _ _ hyx⟩
  . constructor
    . intro y hy
      exact absorb_seg_of_ne _ _ _ hy
    . simp
    . rw [absorb_seg_self]
      exact ⟨hlow, hhigh⟩
    . intro y hy
      exact ((hmem y).mp hy).2
    . intro y hy ht
      refine (hmem y).mpr ⟨?_, hy⟩
      rintro rfl
      exact ht hfree
    . rfl
    . rfl

theorem bounded_of_tiled {base size : Nat} (h : Inv vmp d) (hpre : ∀ y ∈ pre, y ∈ vmp.segqueue)
    (hpost : ∀ y ∈ post, y ∈ vmp.segqueue)
    (htiled : Tiled (vmp.blocks d pre ++ ⟨.used, base, size⟩ :: vmp.blocks d post))
    : base + size ≤ 2 ^ 64 ∧ size < 2 ^ 64 := by
  have hspan : ∀ l : List SegId, (∀ y ∈ l, y ∈ vmp.segqueue) → ∀ s ∈ vmp.blocks d l,
      s.kind = .span → s.base + s.size ≤ 2 ^ 64 ∧ s.size < 2 ^ 64 := by
    intro l hl s hs hk
    rcases List.mem_map.mp hs with ⟨y, hy, rfl⟩
    rw [h.block_kind_eq_span] at hk
    exact h.spans.fits y (hl y hy) hk
  refine htiled.bounded ?_ ⟨.used, base, size⟩ (by simp)
  intro s hs hk
  rcases List.mem_append.mp hs with hs | hs
  . exact hspan pre hpre s hs hk
  . cases hs with
    | head => simp at hk
    | tail _ hs => exact hspan post hpost s hs hk

theorem absorb_next (h : Inv vmp [x]) (ha : Around vmp x pre (nb :: post))
    (hfree : (vmp.seg nb).type = .free)
    (he : vmp' = vmp.absorb x nb (vmp.seg x).base (Word.add (vmp.seg x).size (vmp.seg nb).size))
    : Inv vmp' [x] ∧ Frame vmp vmp' x ∧ Around vmp' x pre post ∧
        ¬ StartsFree (vmp'.blocks [x] post) := by
  have hnb : Around vmp nb (pre ++ [x]) post := h.around_of_eq (by simp [ha.eq])
  have hne : nb ≠ x := by
    rintro rfl
    exact ha.post List.mem_cons_self
  have hxpost : x ∉ post := fun hmem => ha.post (List.mem_cons_of_mem _ hmem)
  have herase : vmp.segqueue.erase nb = pre ++ x :: post := by
    rw [hnb.eq, Queue.erase_append_cons hnb.pre]
    simp
  have htiled := h.tiled_around ha
  rw [blocks_cons, block_detached _ (List.mem_singleton_self x),
    block_attached _ (mt List.mem_singleton.mp hne), hfree] at htiled
  have hmerged := htiled.merge (by simp) (by simp [SegType.kind])
  have hbound := h.bounded_of_tiled (by simp +contextual [ha.eq]) (by simp +contextual [ha.eq])
    hmerged
  rw [Word.add_eq hbound.2] at he
  subst he
  have hinv := h.absorb (vmp.seg x).base ((vmp.seg x).size + (vmp.seg nb).size)
    (by simp [ha.eq]) hne hfree (by omega) (by omega) (by
      rw [herase, blocks_append, blocks_cons, absorb_blocks _ _ _ ha.pre,
        absorb_blocks _ _ _ hxpost, block_detached _ (by simp), absorb_seg_self]
      exact hmerged)
  refine ⟨hinv.1, hinv.2, ⟨herase, ha.pre, hxpost⟩, ?_⟩
  rw [absorb_blocks _ _ _ hxpost]
  rw [List.append_cons] at htiled
  exact (htiled.neighbours rfl).2

theorem absorb_prev (h : Inv vmp [x]) (ha : Around vmp x (pre ++ [nb]) post)
    (hfree : (vmp.seg nb).type = .free)
    (he : vmp' = vmp.absorb x nb (vmp.seg nb).base (Word.add (vmp.seg x).size (vmp.seg nb).size))
    : Inv vmp' [x] ∧ Frame vmp vmp' x ∧ Around vmp' x pre post ∧
        ¬ EndsFree (vmp'.blocks [x] pre) ∧ vmp'.blocks [x] post = vmp.blocks [x] post := by
  have hnb : Around vmp nb pre (x :: post) := h.around_of_eq (by simp [ha.eq])
  have hne : nb ≠ x := by
    rintro rfl
    exact hnb.post List.mem_cons_self
  have hxpre : x ∉ pre := fun hmem => ha.pre (by simp [hmem])
  have herase : vmp.segqueue.erase nb = pre ++ x :: post := by
    rw [hnb.eq, Queue.erase_append_cons hnb.pre]
  have htiled := h.tiled_around hnb
  rw [blocks_cons, block_detached _ (List.mem_singleton_self x),
    block_attached _ (mt List.mem_singleton.mp hne), hfree] at htiled
  have hbase := htiled.base_eq (by simp)
  simp only [SegType.kind, reduceCtorEq, if_false] at hbase
  have hmerged := htiled.merge (by simp [SegType.kind]) (by simp)
  have hbound := h.bounded_of_tiled (by simp +contextual [ha.eq]) (by simp +contextual [ha.eq])
    hmerged
  rw [Nat.add_comm] at hmerged
  rw [Word.add_eq (by omega)] at he
  subst he
  have hinv := h.absorb (vmp.seg nb).base ((vmp.seg x).size + (vmp.seg nb).size)
    (by simp [ha.eq]) hne hfree (by omega) (by omega) (by
      rw [herase, blocks_append, blocks_cons, absorb_blocks _ _ _ hxpre,
        absorb_blocks _ _ _ ha.post, block_detached _ (by simp), absorb_seg_self]
      exact hmerged)
  refine ⟨hinv.1, hinv.2, ⟨herase, hxpre, ha.post⟩, ?_, ?_⟩
  . rw [absorb_blocks _ _ _ hxpre]
    exact (htiled.neighbours rfl).1
  . exact absorb_blocks _ _ _ ha.post

theorem span_unique {z : SegId} {p : Nat} (h : Inv vmp d) (hy : y ∈ vmp.segqueue) (hz : z ∈ vmp.segqueue)
    (hyt : (vmp.seg y).type = .span) (hzt : (vmp.seg z).type = .span)
    (hyp : (vmp.seg y).base ≤ p ∧ p < (vmp.seg y).base + (vmp.seg y).size)
    (hzp : (vmp.seg z).base ≤ p ∧ p < (vmp.seg z).base + (vmp.seg z).size)
    : y = z := by
  by_contra hne
  have hdis := h.spans.disjoint y hy z hz hne hyt hzt
  unfold Block.Disjoint VmemSegment.block at hdis
  dsimp only at hdis
  omega

theorem exists_span (h : Inv vmp d) (hx : x ∈ vmp.segqueue) (hxt : (vmp.seg x).type ≠ .span)
    : ∃ s ∈ vmp.segqueue, (vmp.seg s).type = .span ∧ (vmp.seg s).base ≤ (vmp.seg x).base
      ∧ (vmp.seg x).base + (vmp.seg x).size ≤ (vmp.seg s).base + (vmp.seg s).size := by
  have hk : (vmp.block d x).kind ≠ .span := by
    rwa [ne_eq, h.block_kind_eq_span]
  rcases h.tiled.inside (List.mem_map_of_mem hx) hk with ⟨b, hb, hbk, hin⟩
  rcases List.mem_map.mp hb with ⟨s, hs, rfl⟩
  rw [h.block_kind_eq_span] at hbk
  exact ⟨s, hs, hbk, hin⟩

theorem prev_marker (h : Inv vmp d) (ha : Around vmp x (pre ++ [nb]) post) (hxt : (vmp.seg x).type ≠ .span)
    (hy : y ∈ vmp.segqueue) (hyt : (vmp.seg y).type = .span) (hbase : (vmp.seg y).base = (vmp.seg x).base)
    : nb = y := by
  have hnb : nb ∈ vmp.segqueue := by simp [ha.eq]
  have hx : x ∈ vmp.segqueue := by simp [ha.eq]
  have hysize := h.size_pos hy
  have hxsize := h.size_pos hx
  have hnbsize := h.size_pos hnb
  have htiled := h.tiled
  rw [ha.eq, blocks_append, blocks_append, blocks_cons, List.append_assoc] at htiled
  have hkx : (vmp.block d x).kind ≠ .span := by
    rwa [ne_eq, h.block_kind_eq_span]
  have hstart := htiled.base_eq hkx
  by_cases hnbt : (vmp.seg nb).type = .span
  . rw [if_pos (h.block_kind_eq_span.mpr hnbt)] at hstart
    change (vmp.seg x).base = (vmp.seg nb).base at hstart
    apply h.span_unique hnb hy hnbt hyt (show (vmp.seg nb).base ≤ (vmp.seg x).base ∧ _ by omega)
    omega
  . -- the span would start inside of the one that holds both segments
    have hknb : (vmp.block d nb).kind ≠ .span := by
      rwa [ne_eq, h.block_kind_eq_span]
    rw [if_neg hknb] at hstart
    change (vmp.seg x).base = (vmp.seg nb).base + (vmp.seg nb).size at hstart
    have hmerged := Tiled.merge htiled hknb hkx
    rcases hmerged.inside (List.mem_append_right _ List.mem_cons_self) (by simp) with
      ⟨b, hb, hbk, hin⟩
    have hmem : ∃ s ∈ vmp.segqueue, vmp.block d s = b := by
      simp only [List.mem_append, List.mem_cons] at hb
      rcases hb with hb | hb | hb
      . rcases List.mem_map.mp hb with ⟨s, hs, hsb⟩
        exact ⟨s, by simp [ha.eq, hs], hsb⟩
      . rw [hb] at hbk
        cases hbk
      . rcases List.mem_map.mp hb with ⟨s, hs, hsb⟩
        exact ⟨s, by simp [ha.eq, hs], hsb⟩
    rcases hmem with ⟨s, hs, rfl⟩
    rw [h.block_kind_eq_span] at hbk
    have hlow : (vmp.seg s).base ≤ (vmp.seg nb).base := hin.1
    have hhigh : (vmp.seg nb).base + ((vmp.seg nb).size + (vmp.seg x).size)
        ≤ (vmp.seg s).base + (vmp.seg s).size := hin.2
    have hys := h.span_unique hy hs hyt hbk (show (vmp.seg y).base ≤ (vmp.seg x).base ∧ _ by omega)
      (by omega)
    subst hys
    omega

theorem release (h : Inv vmp [x]) (ha : Around vmp x (pre ++ [nb]) post) (hspan : (vmp.seg nb).type = .span)
    (hsize : (vmp.seg nb).size = (vmp.seg x).size) (hq : vmp'.segqueue = (vmp.segqueue.erase x).erase nb)
    (hother : ∀ y, y ≠ x → vmp'.seg y = vmp.seg y) (hfl : vmp'.freelist = vmp.freelist)
    (hht : vmp'.hashtable = vmp.hashtable)
    : Inv vmp' [] ∧ (vmp.seg x).base = (vmp.seg nb).base := by
  have hnb : Around vmp nb pre (x :: post) := h.around_of_eq (by simp [ha.eq])
  have hne : nb ≠ x := by
    rintro rfl
    exact hnb.post List.mem_cons_self
  have hxpre : x ∉ pre := fun hmem => ha.pre (by simp [hmem])
  have hmem : ∀ y, y ∈ vmp'.segqueue ↔ y ≠ nb ∧ y ≠ x ∧ y ∈ vmp.segqueue := by
    intro y
    rw [hq, (h.nodup.erase x).mem_erase_iff, h.nodup.mem_erase_iff]
  have hq' : vmp'.segqueue = pre ++ post := by
    rw [hq, ha.eq, Queue.erase_append_cons ha.pre, List.append_assoc, List.cons_append,
      List.nil_append, Queue.erase_append_cons hnb.pre]
  have htiled := h.tiled_around hnb
  rw [blocks_cons, block_detached _ (List.mem_singleton_self x),
    block_attached _ (mt List.mem_singleton.mp hne), hspan, hsize] at htiled
  have hbase := htiled.base_eq (by simp)
  simp only [SegType.kind, if_true] at hbase
  rw [hbase] at htiled
  refine ⟨?_, hbase⟩
  constructor
  . rw [hq]
    exact (h.nodup.erase x).erase nb
  . simp
  . have hsame : ∀ l : List SegId, x ∉ l → vmp'.blocks [] l = vmp.blocks [x] l := by
      intro l hl
      apply blocks_congr
      . intro y hy
        exact hother y (fun heq => hl (heq ▸ hy))
      . intro y hy
        have : y ≠ x := fun heq => hl (heq ▸ hy)
        simp [this]
    rw [hq', blocks_append, hsame pre hxpre, hsame post ha.post]
    exact htiled.drop_span (by simp)
  . rw [hfl]
    apply h.freelist.congr
    intro y i
    unfold OnFreelist
    rw [hmem]
    by_cases hyx : y = x
    . simp [hyx]
    . rw [hother y hyx]
      by_cases hynb : y = nb
      . subst hynb
        simp [hspan]
      . simp [hyx, hynb]
  . rw [hht]
    apply h.hashtable.congr
    intro y i
    unfold OnHashtable
    rw [hmem]
    by_cases hyx : y = x
    . simp [hyx]
    . rw [hother y hyx]
      by_cases hynb : y = nb
      . subst hynb
        simp [hspan]
      . simp [hyx, hynb]
  . intro y hy _ hfree
    rw [hmem] at hy
    rw [hother y hy.2.1] at hfree ⊢
    exact h.sized y hy.2.2 (by simpa using hy.2.1) hfree
  . apply h.spans.of_sub
    intro y hy _
    rw [hmem] at hy
    exact ⟨hy.2.2, hother y hy.2.1⟩

end Inv

theorem coalesceRight_spec {pool pool' : SegPool} (h : Inv vmp [x])
    (he : xfreeCoalesceRight vmp pool x = (vmp', pool'))
    : Inv vmp' [x] ∧ Frame vmp vmp' x ∧
        pool.Moves vmp.segqueue pool' vmp'.segqueue ∧
        (∃ pre post, Around vmp' x pre post ∧ ¬ StartsFree (vmp'.blocks [x] post)) := by
  rcases h.around (h.detached x List.mem_cons_self).1 with ⟨pre, post, ha⟩
  unfold xfreeCoalesceRight at he
  rw [ha.eq, Queue.next?_append ha.pre] at he
  cases post with
  | nil =>
    cases he
    refine ⟨h, Frame.refl vmp x, .refl _ _, pre, [], ha, ?_⟩
    exact not_startsFree_blocks (by simp)
  | cons nb post =>
    dsimp only [List.head?_cons] at he
    split at he
    . next hfree =>
      cases he
      rcases h.absorb_next ha hfree rfl with ⟨hinv, hframe, ha', hstart⟩
      refine ⟨hinv, hframe, ?_, pre, post, ha', hstart⟩
      exact .segFree (by simp [ha.eq])
    . next hfree =>
      cases he
      refine ⟨h, Frame.refl vmp x, .refl _ _, pre, nb :: post, ha, ?_⟩
      apply not_startsFree_blocks
      intro y hy _
      cases hy
      exact hfree

theorem coalesceLeft_spec (pool : SegPool) (h : Inv vmp [x]) (ha : Around vmp x pre post)
    : ∃ vmp' pool' pre', xfreeCoalesceLeft vmp pool x = .ok (vmp', pool') ∧
        Inv vmp' [x] ∧ Frame vmp vmp' x ∧
        pool.Moves vmp.segqueue pool' vmp'.segqueue ∧
        Around vmp' x pre' post ∧ ¬ EndsFree (vmp'.blocks [x] pre') ∧
        vmp'.blocks [x] post = vmp.blocks [x] post := by
  rcases h.exists_prev ha (h.detached x List.mem_cons_self).2 with ⟨pre, nb, rfl⟩
  unfold xfreeCoalesceLeft
  simp only [ha.prev]
  split
  . next hfree =>
    rcases h.absorb_prev ha hfree rfl with ⟨hinv, hframe, ha', hend, hpost⟩
    refine ⟨_, _, pre, rfl, hinv, hframe, ?_, ha', hend, hpost⟩
    exact .segFree (by simp [ha.eq])
  . next hfree =>
    refine ⟨_, _, pre ++ [nb], rfl, h, Frame.refl vmp x, .refl _ _, ha, ?_, rfl⟩
    exact not_endsFree_blocks (fun _ => hfree)

theorem coalesce_spec (pool : SegPool) (h : Inv vmp [x])
    : ∃ vmp1 pool1 vmp2 pool2 pre post,
        xfreeCoalesceRight vmp pool x = (vmp1, pool1) ∧
        xfreeCoalesceLeft vmp1 pool1 x = .ok (vmp2, pool2) ∧
        Inv vmp2 [x] ∧ Frame vmp vmp2 x ∧ pool.Moves vmp.segqueue pool2 vmp2.segqueue ∧
        Around vmp2 x pre post ∧ ¬ EndsFree (vmp2.blocks [x] pre) ∧
        ¬ StartsFree (vmp2.blocks [x] post) := by
  rcases he : xfreeCoalesceRight vmp pool x with ⟨vmp1, pool1⟩
  rcases coalesceRight_spec h he with ⟨h1, hframe1, hmoves1, pre1, post, ha1, hstart⟩
  rcases coalesceLeft_spec pool1 h1 ha1 with ⟨vmp2, pool2, pre, he2, h2, hframe2, hmoves2, ha2, hend,
    hpost⟩
  refine ⟨vmp1, pool1, vmp2, pool2, pre, post, rfl, he2, h2, hframe1.trans hframe2,
    hmoves1.trans hmoves2, ha2, hend, ?_⟩
  rwa [hpost]

theorem Frame.ranges_eq {t : SegType} (h : Frame vmp vmp' x) (ht : t ≠ .free)
    : vmp'.ranges [x] t = vmp.ranges [x] t := by
  apply ranges_congr
  . intro y
    rw [List.mem_singleton]
    constructor
    . rintro ⟨hy, hyx, hyt⟩
      rw [h.seg y hyx] at hyt
      exact ⟨h.sub y hy, hyx, hyt⟩
    . rintro ⟨hy, hyx, hyt⟩
      rw [h.seg y hyx]
      exact ⟨h.keep y hy (hyt ▸ ht), hyx, hyt⟩
  . intro y _ hyx _
    unfold range
    rw [h.seg y (by simpa using hyx)]

inductive Finished {τ : Type} (ops : VmemOps τ) (vmp : Vmem) (w : World τ) (x : SegId)
    (r : Except Fault (Vmem × World τ)) : Prop where
  | kept (vmp' : Vmem) (hr : r = .ok (vmp', w)) (hinv : Inv vmp' []) (hq : vmp'.segqueue = vmp.segqueue)
      (hranges : ∀ t, t ≠ .free → vmp'.ranges [] t = vmp.ranges [x] t) (hmarkers : Markers vmp vmp')
      (hpart : ops.free ≠ none → ∀ y ∈ vmp.segqueue, (vmp.seg y).type = .span
        → (vmp.seg y).imported = true → vmp.range y ≠ vmp.range x) (hlock : vmp'.lock = vmp.lock)
      (hquantum : vmp'.quantum = vmp.quantum)
  | released (free : Nat → Nat → World τ → Except Fault (World τ)) (nb : SegId) (vmp' : Vmem)
      (hfree : ops.free = some free)
      (hr : r = (free (vmp.seg nb).base (vmp.seg nb).size
        { w with pool := segFree nb (segFree x w.pool) }).map fun w => (vmp', w)) (hinv : Inv vmp' [])
      (hq : vmp'.segqueue = (vmp.segqueue.erase x).erase nb) (hx : x ∈ vmp.segqueue)
      (hnb : nb ∈ vmp.segqueue) (hne : nb ≠ x) (hspan : (vmp.seg nb).type = .span)
      (himported : (vmp.seg nb).imported = true) (hwhole : vmp.range nb = vmp.range x)
      (hallocs : vmp'.ranges [] .allocated = vmp.ranges [x] .allocated)
      (hspans : vmp'.ranges [] .span = vmp.ranges [] .span \ {vmp.range nb}) (hmarkers : Markers vmp vmp')
      (hlock : vmp'.lock = vmp.lock) (hquantum : vmp'.quantum = vmp.quantum)

theorem Inv.range_ne_of_span (h : Inv vmp d) (hx : x ∈ vmp.segqueue) (hy : y ∈ vmp.segqueue) (hne : x ≠ y)
    (hxt : (vmp.seg x).type = .span) (hyt : (vmp.seg y).type = .span)
    : vmp.range x ≠ vmp.range y := by
  intro heq
  have hdis := h.spans.disjoint x hx y hy hne hxt hyt
  have hbase := congrArg Prod.fst heq
  have hxs := h.size_pos hx
  have hys := h.size_pos hy
  unfold Block.Disjoint VmemSegment.block at hdis
  dsimp only [range] at hdis hbase
  omega

theorem finished_kept (h : Inv vmp [x]) (ha : Around vmp x pre post)
    (hpre : ¬ EndsFree (vmp.blocks [x] pre)) (hpost : ¬ StartsFree (vmp.blocks [x] post))
    (hsize : 2 ≤ (vmp.seg x).size)
    (hpart : ops.free ≠ none → ∀ y ∈ vmp.segqueue, (vmp.seg y).type = .span
      → (vmp.seg y).imported = true → vmp.range y ≠ vmp.range x)
    : Finished ops vmp w x (do
        return (← vmemAddToFreelist (vmp.setSeg x { vmp.seg x with type := .free }) x, w)) := by
  have hx := (h.detached x List.mem_cons_self)
  rcases freelistForSize_of_le hsize (h.bounded hx.1).2 with ⟨hi, hidx⟩
  unfold vmemAddToFreelist
  simp only [setSeg_self, hidx, Except.ok_bind, pure_bind]
  have hother : ∀ y, y ≠ x → (vmp.setSeg x { vmp.seg x with type := .free }).seg y = vmp.seg y := by
    intro y hy
    exact setSeg_of_ne _ _ hy
  refine .kept _ rfl ?_ rfl ?_ ?_ hpart rfl rfl
  . have hd : ∀ y, y ∈ ([] : List SegId) ↔ y ∈ [x] ∧ y ≠ x := by simp
    exact h.attachFree (by simp) hd ha hpre hpost hidx rfl (by simp) hother rfl rfl
  . intro t ht
    apply ranges_congr
    . intro y
      by_cases hyx : y = x
      . subst hyx
        simp [ht.symm]
      . simp only [setSeg_segqueue, hother y hyx]
        simp [hyx]
    . intro y _ hyx _
      unfold range
      simp only [hother y (by simpa using hyx)]
  . intro y hy hyt
    have hyx : y ≠ x := by
      rintro rfl
      simp at hyt
    exact ⟨hy, hother y hyx⟩

theorem finished_released {free : Nat → Nat → World τ → Except Fault (World τ)} (h : Inv vmp [x])
    (ha : Around vmp x (pre ++ [nb]) post) (hfree : ops.free = some free)
    (hspan : (vmp.seg nb).type = .span) (himported : (vmp.seg nb).imported = true)
    (hsize : (vmp.seg nb).size = (vmp.seg x).size)
    : Finished ops vmp w x (do
        let w ← free (vmp.seg x).base (vmp.seg x).size
          { w with pool := segFree nb (segFree x w.pool) }
        return ((((vmp.setSeg x { vmp.seg x with type := .free }).queueRemove x).queueRemove nb),
          w)) := by
  have hother : ∀ y, y ≠ x → (vmp.setSeg x { vmp.seg x with type := .free }).seg y = vmp.seg y := by
    intro y hy
    exact setSeg_of_ne _ _ hy
  have hx := (h.detached x List.mem_cons_self)
  have hnb : nb ∈ vmp.segqueue := by simp [ha.eq]
  have hne : nb ≠ x := by
    rintro rfl
    exact hx.2 hspan
  have hmem : ∀ y, y ∈ (vmp.segqueue.erase x).erase nb ↔ y ≠ nb ∧ y ≠ x ∧ y ∈ vmp.segqueue := by
    intro y
    rw [(h.nodup.erase x).mem_erase_iff, h.nodup.mem_erase_iff]
  have hrel : Inv (((vmp.setSeg x { vmp.seg x with type := .free }).queueRemove x).queueRemove nb) []
      ∧ _ := h.release ha hspan hsize rfl hother rfl rfl
  rcases hrel with ⟨hinv, hbase⟩
  refine .released free nb _ hfree ?_ hinv rfl hx.1 hnb hne hspan himported
    (Prod.ext hbase.symm hsize) ?_ ?_ ?_ rfl rfl
  . rw [hbase, ← hsize]
    rfl
  . apply ranges_congr
    . intro y
      simp only [queueRemove, setSeg_segqueue]
      rw [hmem]
      by_cases hyx : y = x
      . simp [hyx]
      . rw [hother y hyx]
        by_cases hynb : y = nb
        . subst hynb
          simp [hspan]
        . simp [hyx, hynb]
    . intro y _ hyx _
      unfold range
      simp only [queueRemove, hother y (by simpa using hyx)]
  . ext r
    rw [Set.mem_sdiff, Set.mem_singleton_iff]
    constructor
    . rintro ⟨y, hy, _, hyt, rfl⟩
      simp only [queueRemove, setSeg_segqueue] at hy hyt
      rw [hmem] at hy
      rw [hother y hy.2.1] at hyt
      refine ⟨⟨y, hy.2.2, by simp, hyt, ?_⟩, ?_⟩
      . simp only [range, queueRemove, hother y hy.2.1]
      . simp only [range, queueRemove, hother y hy.2.1]
        exact h.range_ne_of_span hy.2.2 hnb hy.1 hyt hspan
    . rintro ⟨⟨y, hy, _, hyt, rfl⟩, hrne⟩
      have hyx : y ≠ x := by
        rintro rfl
        exact hx.2 hyt
      have hynb : y ≠ nb := by
        rintro rfl
        exact hrne rfl
      refine ⟨y, (hmem y).mpr ⟨hynb, hyx, hy⟩, by simp, ?_, ?_⟩
      . simp only [queueRemove]
        rw [hother y hyx, hyt]
      . simp only [range, queueRemove, hother y hyx]
  . intro y hy _
    have hy' := (hmem y).mp hy
    exact ⟨hy'.2.2, hother y hy'.2.1⟩

theorem xfreeFinish_spec (cfg : Config) (ops : VmemOps τ) (w : World τ) (h : Inv vmp [x])
    (ha : Around vmp x pre post) (hpre : ¬ EndsFree (vmp.blocks [x] pre))
    (hpost : ¬ StartsFree (vmp.blocks [x] post)) (hsize : 2 ≤ (vmp.seg x).size)
    : Finished ops vmp w x (xfreeFinish cfg ops vmp w x) := by
  rcases h.exists_prev ha (h.detached x List.mem_cons_self).2 with ⟨pre, nb, rfl⟩
  have hne : nb ≠ x := by
    rintro rfl
    exact ha.pre (by simp)
  have hnb : (vmp.seg nb).type ≠ .free := by
    intro hfree
    apply hpre
    refine ⟨vmp.block [x] nb, by simp [blocks], ?_⟩
    rw [block_attached _ (mt List.mem_singleton.mp hne)]
    simp [hfree]
  have hassert : ((vmp.seg nb).type == .span || (vmp.seg nb).type == .allocated) = true := by
    cases ht : (vmp.seg nb).type with
    | free => exact absurd ht hnb
    | span => rfl
    | allocated => rfl
  unfold xfreeFinish
  simp only [ha.prev]
  rw [check_of cfg hassert, Except.ok_bind]
  simp only [setSeg_of_ne _ _ hne, setSeg_self]
  cases hops : ops.free with
  | none => exact finished_kept h ha hpre hpost hsize (fun hsome => absurd hops hsome)
  | some free =>
    dsimp only
    split
    . next hc => exact finished_released h ha hops hc.1 hc.2.1 hc.2.2
    . next hc =>
      apply finished_kept h ha hpre hpost hsize
      intro _ y hy hyt himported hrange
      have hy' := h.prev_marker ha (h.detached x List.mem_cons_self).2 hy hyt
        (congrArg Prod.fst hrange)
      subst hy'
      exact hc ⟨hyt, himported, congrArg Prod.snd hrange⟩

structure Freed (vmp : Vmem) (pool : SegPool) (r : Nat × Nat) (vmp' : Vmem) (pool' : SegPool)
    : Prop where
  inv : Inv vmp' []
  moves : pool.Moves vmp.segqueue pool' vmp'.segqueue
  allocs : vmp'.ranges [] .allocated = vmp.ranges [] .allocated \ {r}
  markers : Markers vmp vmp'
  lock : vmp'.lock = false
  quantum : vmp'.quantum = vmp.quantum

inductive XfreeOutcome {τ : Type} (ops : VmemOps τ) (vmp : Vmem) (w : World τ) (r : Nat × Nat)
    (res : Except Fault (Vmem × World τ)) : Prop where
  | kept (vmp' : Vmem) (pool' : SegPool) (hres : res = .ok (vmp', { w with pool := pool' }))
      (hfreed : Freed vmp w.pool r vmp' pool') (hspans : vmp'.ranges [] .span = vmp.ranges [] .span)
      (hpart : ops.free ≠ none → ∀ y ∈ vmp.segqueue, (vmp.seg y).type = .span
        → (vmp.seg y).imported = true → vmp.range y ≠ r)
  | released (free : Nat → Nat → World τ → Except Fault (World τ)) (span : Nat × Nat) (vmp' : Vmem)
      (pool' : SegPool) (hfree : ops.free = some free)
      (hres : res = (free span.1 span.2 ⟨pool', irqlDispatch, w.ext⟩).map
        fun w' => (vmp', { w' with irql := w.irql })) (hfreed : Freed vmp w.pool r vmp' pool')
      (hspan : span ∈ vmp.ranges [] .span)
      (himported : ∃ y ∈ vmp.segqueue, (vmp.seg y).type = .span ∧ (vmp.seg y).imported = true
        ∧ vmp.range y = span) (hinside : span.1 ≤ r.1 ∧ r.1 + r.2 ≤ span.1 + span.2)
      (hspans : vmp'.ranges [] .span = vmp.ranges [] .span \ {span})

theorem Inv.range_eq_of_marker {old : VmemSegment} (h : Inv vmp d) (hx : x ∈ vmp.segqueue)
    (hxt : (vmp.seg x).type ≠ .span) (hy : y ∈ vmp.segqueue) (hyt : (vmp.seg y).type = .span)
    (hrange : vmp.range y = (old.base, old.size)) (hcovers : old.block.Inside (vmp.seg x).block)
    (hsize : 0 < old.size)
    : (old.base, old.size) = vmp.range x := by
  rcases h.exists_span hx hxt with ⟨s, hs, hst, hlow, hhigh⟩
  have hbase : (vmp.seg y).base = old.base := congrArg Prod.fst hrange
  have hsizey : (vmp.seg y).size = old.size := congrArg Prod.snd hrange
  have hcov1 : (vmp.seg x).base ≤ old.base := hcovers.1
  have hcov2 : old.base + old.size ≤ (vmp.seg x).base + (vmp.seg x).size := hcovers.2
  have hys := h.span_unique hy hs hyt hst (show (vmp.seg y).base ≤ old.base ∧ _ by omega)
    (by omega)
  subst hys
  unfold range
  rw [Prod.mk.injEq]
  omega

theorem Inv.xfreeFind (h : Inv vmp []) (hx : x ∈ vmp.segqueue) (ht : (vmp.seg x).type = .allocated)
    : xfreeFind vmp (vmp.seg x).base = some x := by
  unfold Nyy.xfreeFind
  have hmem : ∀ y, y ∈ vmp.hashtable (hashtableForAddr (vmp.seg x).base) → y ∈ vmp.segqueue ∧
      (vmp.seg y).type = .allocated := by
    intro y hy
    have hon := (h.hashtable.mem y _).mp hy
    exact ⟨hon.1, hon.2.2.1⟩
  cases hfind : (vmp.hashtable (hashtableForAddr (vmp.seg x).base)).find?
      (fun y => (vmp.seg y).base == (vmp.seg x).base) with
  | none =>
    rw [List.find?_eq_none] at hfind
    have hon := (h.hashtable.mem x (hashtableForAddr (vmp.seg x).base)).mpr ⟨hx, by simp, ht, rfl⟩
    simpa using hfind x hon
  | some y =>
    have hy := hmem y (List.mem_of_find?_eq_some hfind)
    have hbase := List.find?_some hfind
    rw [beq_iff_eq] at hbase
    rw [h.eq_of_base_eq hy.1 hx (by simp [hy.2]) (by simp [ht]) hbase]

theorem vmemXfree_spec {cfg : Config} (ops : VmemOps τ) {addr size : Nat} (h : Inv vmp [])
    (hlock : vmp.lock = false) (hirql : check cfg (w.irql ≤ irqlDispatch) = .ok ())
    (hr : (addr, size) ∈ vmp.ranges [] .allocated) (hsize : 2 ≤ size)
    : XfreeOutcome ops vmp w (addr, size) (vmemXfree cfg ops vmp w addr size) := by
  rcases hr with ⟨x, hx, _, ht, hrange⟩
  cases hrange
  unfold vmemXfree spinlockAcquireRaise
  rw [hirql, hlock]
  simp only [Except.ok_bind, Bool.false_eq_true, if_false, pure_bind]
  have h0 : Inv { vmp with lock := true } [] := h.of_eq rfl rfl rfl rfl
  have hfind := h0.xfreeFind hx ht
  dsimp only at hfind
  simp only [hfind, beq_self_eq_true, check_true, Except.ok_bind]
  have h1 := h0.listRemove hx (by simp [ht])
  have hdetach := h.ranges_detach hx (by simp [ht])
  rw [ht] at hdetach
  rcases coalesce_spec w.pool h1 with ⟨vmp1, pool1, vmp2, pool2, pre, post, he1, he2, h2, hframe,
    hmoves, ha, hend, hstart⟩
  simp only [he1, he2, Except.ok_bind]
  have hsize2 : 2 ≤ (vmp2.seg x).size := Nat.le_trans hsize hframe.grows
  have hspans : vmp2.ranges [] .span = vmp.ranges [] .span := by
    rw [← h2.ranges_span, hframe.ranges_eq (by simp), h1.ranges_span]
    rfl
  have hallocs : vmp2.ranges [x] .allocated = vmp.ranges [] .allocated \ {vmp.range x} := by
    rw [hframe.ranges_eq (by simp), ← hdetach]
    rfl
  have hxt : ((vmp.listRemove x).seg x).type ≠ .span := by simp [ht]
  have hmarkers : Markers vmp vmp2 := hframe.markers hxt
  cases xfreeFinish_spec cfg ops ⟨pool2, irqlDispatch, w.ext⟩ h2 ha hend hstart hsize2 with
  | kept vmp3 hr hinv hq hranges hmarkers3 hpart _ hquantum =>
    rw [hr]
    refine .kept _ pool2 rfl ⟨hinv.of_eq rfl rfl rfl rfl, ?_, ?_, hmarkers.trans hmarkers3, rfl, ?_⟩
      ?_ ?_
    . rw [← hq] at hmoves
      exact hmoves
    . exact (hranges .allocated (by simp)).trans hallocs
    . exact hquantum.trans hframe.quantum
    . exact (hranges .span (by simp)).trans (h2.ranges_span.trans hspans)
    . intro hsome y hy hyt himported hrange
      have hyx : y ≠ x := by
        rintro rfl
        exact hxt hyt
      have hy2 : vmp2.seg y = vmp.seg y := hframe.seg y hyx
      have hymem : y ∈ vmp2.segqueue := hframe.keep y hy (by simp [hyt])
      apply hpart hsome y hymem (by rw [hy2, hyt]) (by rw [hy2, himported])
      rw [show vmp2.range y = vmp.range x by
        unfold range
        rw [hy2]
        exact hrange]
      exact h2.range_eq_of_marker (h2.detached x List.mem_cons_self).1
        (h2.detached x List.mem_cons_self).2 hymem (by rw [hy2, hyt]) (by
          unfold range
          rw [hy2]
          exact hrange) hframe.covers (h.size_pos hx)
  | released free nb vmp3 hfree hr hinv hq hx2 hnb hne hspan himported hwhole hallocs3 hspans3
      hmarkers3 _ hquantum =>
    rw [hr]
    refine .released free (vmp2.range nb) { xfreeStat vmp3 (vmp.seg x).size with lock := false }
      (segFree nb (segFree x pool2)) hfree ?_
      ⟨hinv.of_eq rfl rfl rfl rfl, ?_, ?_, hmarkers.trans hmarkers3, rfl, ?_⟩ ?_ ?_ ?_ ?_
    . dsimp only [range]
      cases free (vmp2.seg nb).base (vmp2.seg nb).size
        ⟨segFree nb (segFree x pool2), irqlDispatch, w.ext⟩ <;> rfl
    . have hmoves2 : pool2.Moves vmp2.segqueue (segFree nb (segFree x pool2)) vmp3.segqueue := by
        rw [hq]
        apply (SegPool.Moves.segFree hx2).trans
        exact .segFree ((List.mem_erase_of_ne hne).mpr hnb)
      exact hmoves.trans hmoves2
    . exact hallocs3.trans hallocs
    . exact hquantum.trans hframe.quantum
    . rw [← hspans]
      exact ⟨nb, hnb, by simp, hspan, rfl⟩
    . rcases hmarkers nb hnb hspan with ⟨hnb', hsame⟩
      refine ⟨nb, hnb', by rw [← hsame, hspan], by rw [← hsame, himported], ?_⟩
      unfold range
      rw [hsame]
    . rw [hwhole]
      exact hframe.covers
    . rw [← hspans]
      exact hspans3

end Vmem
end Nyy
