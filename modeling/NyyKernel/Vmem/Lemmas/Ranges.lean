import Mathlib.Data.Set.Insert
import NyyKernel.Vmem.Lemmas.Basic

namespace Nyy
namespace Vmem

open Tiling

variable {vmp vmp' : Vmem} {d d' : List SegId} {t : SegType}

def range (vmp : Vmem) (x : SegId) : Nat × Nat := ((vmp.seg x).base, (vmp.seg x).size)

def ranges (vmp : Vmem) (d : List SegId) (t : SegType) : Set (Nat × Nat) :=
  { r | ∃ x ∈ vmp.segqueue, x ∉ d ∧ (vmp.seg x).type = t ∧ vmp.range x = r }

def RangeDisjoint (r s : Nat × Nat) : Prop := r.1 + r.2 ≤ s.1 ∨ s.1 + s.2 ≤ r.1

theorem ranges_congr (hmem : ∀ x, (x ∈ vmp'.segqueue ∧ x ∉ d' ∧ (vmp'.seg x).type = t) ↔
      (x ∈ vmp.segqueue ∧ x ∉ d ∧ (vmp.seg x).type = t))
    (hrange : ∀ x ∈ vmp.segqueue, x ∉ d → (vmp.seg x).type = t → vmp'.range x = vmp.range x)
    : vmp'.ranges d' t = vmp.ranges d t := by
  ext r
  constructor
  . rintro ⟨x, hx, hd, ht, rfl⟩
    have h := (hmem x).mp ⟨hx, hd, ht⟩
    exact ⟨x, h.1, h.2.1, h.2.2, (hrange x h.1 h.2.1 h.2.2).symm⟩
  . rintro ⟨x, hx, hd, ht, rfl⟩
    have h := (hmem x).mpr ⟨hx, hd, ht⟩
    exact ⟨x, h.1, h.2.1, h.2.2, hrange x hx hd ht⟩

theorem ranges_insert {n : SegId}
    (hmem : ∀ x, (x ∈ vmp'.segqueue ∧ x ∉ d' ∧ (vmp'.seg x).type = t) ↔
      (x = n ∨ (x ∈ vmp.segqueue ∧ x ∉ d ∧ (vmp.seg x).type = t)))
    (hrange : ∀ x ∈ vmp.segqueue, x ∉ d → (vmp.seg x).type = t → vmp'.range x = vmp.range x)
    : vmp'.ranges d' t = insert (vmp'.range n) (vmp.ranges d t) := by
  ext r
  rw [Set.mem_insert_iff]
  constructor
  . rintro ⟨x, hx, hd, ht, rfl⟩
    rcases (hmem x).mp ⟨hx, hd, ht⟩ with rfl | h
    . exact .inl rfl
    . exact .inr ⟨x, h.1, h.2.1, h.2.2, (hrange x h.1 h.2.1 h.2.2).symm⟩
  . rintro (rfl | ⟨x, hx, hd, ht, rfl⟩)
    . have h := (hmem n).mpr (.inl rfl)
      exact ⟨n, h.1, h.2.1, h.2.2, rfl⟩
    . have h := (hmem x).mpr (.inr ⟨hx, hd, ht⟩)
      exact ⟨x, h.1, h.2.1, h.2.2, hrange x hx hd ht⟩

namespace Inv

variable {vmp : Vmem} {d : List SegId} {x y : SegId} {t : SegType} {r s : Nat × Nat}

theorem disjoint (h : Inv vmp d) (hx : x ∈ vmp.segqueue) (hy : y ∈ vmp.segqueue) (hne : x ≠ y)
    (hxt : (vmp.seg x).type ≠ .span) (hyt : (vmp.seg y).type ≠ .span)
    : RangeDisjoint (vmp.range x) (vmp.range y) := by
  have hspans : (vmp.blocks d vmp.segqueue).Pairwise
      (fun a b => a.kind = .span → b.kind = .span → a.Disjoint b) := by
    unfold blocks
    rw [List.pairwise_map]
    apply h.nodup.pairwise_of_forall_ne
    intro a ha b hb hne hak hbk
    rw [h.block_kind_eq_span] at hak hbk
    exact h.spans.disjoint a ha b hb hne hak hbk
  have hpair := h.tiled.pairwise hspans
  unfold blocks at hpair
  rw [List.pairwise_map] at hpair
  have : Std.Symm (fun a b => (vmp.block d a).kind ≠ .span → (vmp.block d b).kind ≠ .span
      → (vmp.block d a).Disjoint (vmp.block d b)) := by
    constructor
    intro a b hab hb ha
    exact (hab ha hb).symm
  apply hpair.forall hx hy hne
  . rwa [ne_eq, h.block_kind_eq_span]
  . rwa [ne_eq, h.block_kind_eq_span]

theorem eq_of_base_eq (h : Inv vmp d) (hx : x ∈ vmp.segqueue) (hy : y ∈ vmp.segqueue)
    (hxt : (vmp.seg x).type ≠ .span) (hyt : (vmp.seg y).type ≠ .span)
    (hbase : (vmp.seg x).base = (vmp.seg y).base)
    : x = y := by
  by_contra hne
  have hdis := h.disjoint hx hy hne hxt hyt
  have hxs := h.size_pos hx
  have hys := h.size_pos hy
  unfold RangeDisjoint range at hdis
  dsimp only at hdis
  omega

theorem ranges_pairwise (h : Inv vmp d) (ht : t ≠ .span) (hr : r ∈ vmp.ranges d t) (hs : s ∈ vmp.ranges d t)
    (hne : r ≠ s)
    : RangeDisjoint r s := by
  rcases hr with ⟨x, hx, _, hxt, rfl⟩
  rcases hs with ⟨y, hy, _, hyt, rfl⟩
  apply h.disjoint hx hy
  . rintro rfl
    exact hne rfl
  . rwa [hxt]
  . rwa [hyt]

theorem spans_pairwise (h : Inv vmp d) (hr : r ∈ vmp.ranges d .span) (hs : s ∈ vmp.ranges d .span)
    (hne : r ≠ s)
    : RangeDisjoint r s := by
  rcases hr with ⟨x, hx, _, hxt, rfl⟩
  rcases hs with ⟨y, hy, _, hyt, rfl⟩
  have hxy : x ≠ y := by
    rintro rfl
    exact hne rfl
  exact h.spans.disjoint x hx y hy hxy hxt hyt

theorem ranges_inside (h : Inv vmp d) (ht : t ≠ .span) (hr : r ∈ vmp.ranges d t)
    : ∃ s ∈ vmp.ranges [] .span, s.1 ≤ r.1 ∧ r.1 + r.2 ≤ s.1 + s.2 := by
  rcases hr with ⟨x, hx, _, hxt, rfl⟩
  have hk : (vmp.block d x).kind ≠ .span := by
    rwa [ne_eq, h.block_kind_eq_span, hxt]
  rcases h.tiled.inside (List.mem_map_of_mem hx) hk with ⟨b, hb, hbk, hin⟩
  rcases List.mem_map.mp hb with ⟨y, hy, rfl⟩
  rw [h.block_kind_eq_span] at hbk
  exact ⟨vmp.range y, ⟨y, hy, by simp, hbk, rfl⟩, hin⟩

theorem ranges_span (h : Inv vmp d) : vmp.ranges d .span = vmp.ranges [] .span := by
  apply ranges_congr
  . intro y
    simp only [List.not_mem_nil, not_false_eq_true, true_and]
    constructor
    . rintro ⟨hy, _, hyt⟩
      exact ⟨hy, hyt⟩
    . rintro ⟨hy, hyt⟩
      exact ⟨hy, fun hd => (h.detached y hd).2 hyt, hyt⟩
  . intro y _ _ _
    rfl

theorem ranges_detach (h : Inv vmp []) (hx : x ∈ vmp.segqueue) (ht : (vmp.seg x).type ≠ .span)
    : vmp.ranges [x] (vmp.seg x).type = vmp.ranges [] (vmp.seg x).type \ {vmp.range x} := by
  ext r
  rw [Set.mem_sdiff, Set.mem_singleton_iff]
  constructor
  . rintro ⟨y, hy, hyx, hyt, rfl⟩
    refine ⟨⟨y, hy, by simp, hyt, rfl⟩, ?_⟩
    intro heq
    apply hyx
    rw [List.mem_singleton]
    exact h.eq_of_base_eq hy hx (hyt ▸ ht) ht (congrArg Prod.fst heq)
  . rintro ⟨⟨y, hy, _, hyt, rfl⟩, hne⟩
    refine ⟨y, hy, ?_, hyt, rfl⟩
    rw [List.mem_singleton]
    rintro rfl
    exact hne rfl

theorem aligned {q : Nat} (h : Inv vmp []) (hspan : ∀ r ∈ vmp.ranges [] .span, q ∣ r.1 ∧ q ∣ r.2)
    (halloc : ∀ r ∈ vmp.ranges [] .allocated, q ∣ r.1 ∧ q ∣ r.2) (hx : x ∈ vmp.segqueue)
    : q ∣ (vmp.seg x).base ∧ q ∣ (vmp.seg x).size := by
  refine h.tiled.aligned ?_ (vmp.block [] x) (List.mem_map_of_mem hx)
  intro b hb hk
  rcases List.mem_map.mp hb with ⟨y, hy, rfl⟩
  rw [block_attached _ (by simp)] at hk ⊢
  cases ht : (vmp.seg y).type with
  | span => exact hspan (vmp.range y) ⟨y, hy, by simp, ht, rfl⟩
  | allocated => exact halloc (vmp.range y) ⟨y, hy, by simp, ht, rfl⟩
  | free => simp [ht] at hk

end Inv
end Vmem
end Nyy
