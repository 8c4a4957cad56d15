import NyyKernel.Lib.Index
import NyyKernel.Lib.Tiling
import NyyKernel.Vmem.Impl.Basic

/-!
This module contains the invariant of an arena, with a list of detached segments, which count as used.
-/

namespace Nyy

open Tiling

variable {t : SegType}

def SegType.kind : SegType → Kind
  | .allocated => .used
  | .free => .free
  | .span => .span

@[simp]
theorem SegType.kind_eq_span : t.kind = .span ↔ t = .span := by
  cases t <;> simp [kind]

@[simp]
theorem SegType.kind_eq_free : t.kind = .free ↔ t = .free := by
  cases t <;> simp [kind]

@[simp]
theorem SegType.kind_eq_used : t.kind = .used ↔ t = .allocated := by
  cases t <;> simp [kind]

def VmemSegment.block (s : VmemSegment) : Block := ⟨s.type.kind, s.base, s.size⟩

namespace Vmem

variable {vmp vmp' : Vmem} {x y : SegId} {d l d' : List SegId}

def block (vmp : Vmem) (d : List SegId) (x : SegId) : Block :=
  ⟨if x ∈ d then .used else (vmp.seg x).type.kind, (vmp.seg x).base, (vmp.seg x).size⟩

def blocks (vmp : Vmem) (d : List SegId) (l : List SegId) : List Block := l.map (vmp.block d)

def OnFreelist (vmp : Vmem) (d : List SegId) (x : SegId) (i : Fin 64) : Prop :=
  x ∈ vmp.segqueue ∧ x ∉ d ∧ (vmp.seg x).type = .free ∧
    freelistForSize (vmp.seg x).size = .ok i

def OnHashtable (vmp : Vmem) (d : List SegId) (x : SegId) (i : Fin 16) : Prop :=
  x ∈ vmp.segqueue ∧ x ∉ d ∧ (vmp.seg x).type = .allocated ∧
    hashtableForAddr (vmp.seg x).base = i

structure SpansOk (vmp : Vmem) : Prop where
  disjoint : ∀ x ∈ vmp.segqueue, ∀ y ∈ vmp.segqueue, x ≠ y → (vmp.seg x).type = .span →
    (vmp.seg y).type = .span → (vmp.seg x).block.Disjoint (vmp.seg y).block
  fits : ∀ x ∈ vmp.segqueue, (vmp.seg x).type = .span →
    (vmp.seg x).base + (vmp.seg x).size ≤ 2 ^ 64 ∧ (vmp.seg x).size < 2 ^ 64

theorem SpansOk.of_sub (h : SpansOk vmp) (hsub : ∀ y ∈ vmp'.segqueue, (vmp'.seg y).type = .span
      → y ∈ vmp.segqueue ∧ vmp'.seg y = vmp.seg y)
    : SpansOk vmp' := by
  constructor
  . intro x hx y hy hne hxs hys
    rcases hsub x hx hxs with ⟨hx, hxeq⟩
    rcases hsub y hy hys with ⟨hy, hyeq⟩
    rw [hxeq] at hxs ⊢
    rw [hyeq] at hys ⊢
    exact h.disjoint x hx y hy hne hxs hys
  . intro x hx hxs
    rcases hsub x hx hxs with ⟨hx, hxeq⟩
    rw [hxeq] at hxs ⊢
    exact h.fits x hx hxs

def Markers (vmp vmp' : Vmem) : Prop :=
  ∀ y ∈ vmp'.segqueue, (vmp'.seg y).type = .span → y ∈ vmp.segqueue ∧ vmp'.seg y = vmp.seg y

theorem Markers.refl (vmp : Vmem) : Markers vmp vmp := fun _ hy _ => ⟨hy, rfl⟩

theorem Markers.trans {vmp'' : Vmem} (h : Markers vmp vmp') (h' : Markers vmp' vmp'')
    : Markers vmp vmp'' := by
  intro y hy hyt
  rcases h' y hy hyt with ⟨hy', heq'⟩
  rw [heq'] at hyt ⊢
  exact h y hy' hyt

structure Inv (vmp : Vmem) (d : List SegId) : Prop where
  nodup : vmp.segqueue.Nodup
  detached : ∀ x ∈ d, x ∈ vmp.segqueue ∧ (vmp.seg x).type ≠ .span
  tiled : Tiled (vmp.blocks d vmp.segqueue)
  freelist : Indexed vmp.freelist (vmp.OnFreelist d)
  hashtable : Indexed vmp.hashtable (vmp.OnHashtable d)
  sized : ∀ x ∈ vmp.segqueue, x ∉ d → (vmp.seg x).type = .free →
    ∃ i, freelistForSize (vmp.seg x).size = .ok i
  spans : SpansOk vmp

@[simp]
theorem setSeg_self (vmp : Vmem) (x : SegId) (s : VmemSegment) : (vmp.setSeg x s).seg x = s := by
  simp [setSeg]

theorem setSeg_of_ne (vmp : Vmem) (s : VmemSegment) (h : y ≠ x)
    : (vmp.setSeg x s).seg y = vmp.seg y := by
  simp [setSeg, h]

@[simp]
theorem setSeg_segqueue (vmp : Vmem) (x : SegId) (s : VmemSegment)
    : (vmp.setSeg x s).segqueue = vmp.segqueue := by
  rfl

@[simp]
theorem listRemove_seg (vmp : Vmem) (x : SegId) : (vmp.listRemove x).seg = vmp.seg := by
  rfl

@[simp]
theorem listRemove_segqueue (vmp : Vmem) (x : SegId)
    : (vmp.listRemove x).segqueue = vmp.segqueue := by
  rfl

theorem block_congr (hseg : vmp'.seg y = vmp.seg y) (hd : y ∈ d' ↔ y ∈ d)
    : vmp'.block d' y = vmp.block d y := by
  unfold block
  rw [hseg]
  simp only [hd]

theorem blocks_congr (hseg : ∀ y ∈ l, vmp'.seg y = vmp.seg y) (hd : ∀ y ∈ l, y ∈ d' ↔ y ∈ d)
    : vmp'.blocks d' l = vmp.blocks d l := by
  unfold blocks
  apply List.map_congr_left
  intro y hy
  exact block_congr (hseg y hy) (hd y hy)

theorem blocks_append (vmp : Vmem) (d : List SegId) (l1 l2 : List SegId)
    : vmp.blocks d (l1 ++ l2) = vmp.blocks d l1 ++ vmp.blocks d l2 := by
  simp [blocks]

theorem blocks_cons (vmp : Vmem) (d : List SegId) (x : SegId) (l : List SegId)
    : vmp.blocks d (x :: l) = vmp.block d x :: vmp.blocks d l := by
  simp [blocks]

theorem block_detached (vmp : Vmem) (h : x ∈ d)
    : vmp.block d x = ⟨.used, (vmp.seg x).base, (vmp.seg x).size⟩ := by
  simp [block, h]

theorem block_attached (vmp : Vmem) (h : x ∉ d)
    : vmp.block d x = ⟨(vmp.seg x).type.kind, (vmp.seg x).base, (vmp.seg x).size⟩ := by
  simp [block, h]

theorem not_startsFree_blocks (h : ∀ y ∈ l.head?, y ∉ d → (vmp.seg y).type ≠ .free)
    : ¬ StartsFree (vmp.blocks d l) := by
  rintro ⟨b, hb, hk⟩
  cases l with
  | nil => simp [blocks] at hb
  | cons y l =>
    simp only [blocks, List.map_cons, List.head?_cons, Option.some.injEq] at hb
    subst hb
    by_cases hd : y ∈ d
    . simp [block_detached _ hd] at hk
    . rw [block_attached _ hd] at hk
      exact h y rfl hd (by simpa using hk)

theorem not_endsFree_blocks (h : y ∉ d → (vmp.seg y).type ≠ .free)
    : ¬ EndsFree (vmp.blocks d (l ++ [y])) := by
  rintro ⟨b, hb, hk⟩
  simp only [blocks, List.map_append, List.map_cons, List.map_nil, List.getLast?_concat,
    Option.some.injEq] at hb
  subst hb
  by_cases hd : y ∈ d
  . simp [block_detached _ hd] at hk
  . rw [block_attached _ hd] at hk
    exact h hd (by simpa using hk)

structure Around (vmp : Vmem) (x : SegId) (pre post : List SegId) : Prop where
  eq : vmp.segqueue = pre ++ x :: post
  pre : x ∉ pre
  post : x ∉ post

theorem Around.prev {nb : SegId} {pre post : List SegId} (h : Around vmp x (pre ++ [nb]) post)
    : Queue.prev? vmp.segqueue x = some nb := by
  rw [h.eq, Queue.prev?_append h.pre, List.getLast?_concat]

namespace Inv

variable {vmp vmp' : Vmem} {d d' : List SegId} {x nb : SegId} {pre post : List SegId}

section

variable (h : Inv vmp d)

include h

theorem block_kind_eq_span : (vmp.block d x).kind = .span ↔ (vmp.seg x).type = .span := by
  unfold block
  split
  . next hd =>
    have := (h.detached x hd).2
    simp [this]
  . simp

theorem size_pos (hx : x ∈ vmp.segqueue) : 0 < (vmp.seg x).size := by
  exact h.tiled.size_pos (List.mem_map_of_mem hx)

theorem bounded (hx : x ∈ vmp.segqueue)
    : (vmp.seg x).base + (vmp.seg x).size ≤ 2 ^ 64 ∧ (vmp.seg x).size < 2 ^ 64 := by
  refine h.tiled.bounded ?_ (vmp.block d x) (List.mem_map_of_mem hx)
  intro s hs hk
  rcases List.mem_map.mp hs with ⟨y, hy, rfl⟩
  rw [h.block_kind_eq_span] at hk
  exact h.spans.fits y hy hk

theorem around (hx : x ∈ vmp.segqueue) : ∃ pre post, Around vmp x pre post := by
  rcases Queue.split_of_mem hx h.nodup with ⟨pre, post, hq, hpre, hpost⟩
  exact ⟨pre, post, hq, hpre, hpost⟩

theorem around_of_eq (hq : vmp.segqueue = pre ++ x :: post) : Around vmp x pre post := by
  have hnd := h.nodup
  rw [hq, List.nodup_middle, List.nodup_cons, List.mem_append, not_or] at hnd
  exact ⟨hq, hnd.1.1, hnd.1.2⟩

theorem tiled_around (ha : Around vmp x pre post)
    : Tiled (vmp.blocks d pre ++ vmp.block d x :: vmp.blocks d post) := by
  have htiled := h.tiled
  rwa [ha.eq, blocks_append, blocks_cons] at htiled

theorem exists_prev (ha : Around vmp x pre post) (ht : (vmp.seg x).type ≠ .span)
    : ∃ pre' nb, pre = pre' ++ [nb] := by
  rcases List.eq_nil_or_concat pre with rfl | ⟨pre', nb, rfl⟩
  . rcases h.tiled_around ha with ⟨c, hscan, _⟩
    cases hscan with
    | span hk =>
      rw [h.block_kind_eq_span] at hk
      exact absurd hk ht
    | block _ _ hs hf =>
      dsimp only at hs hf
      omega
  . exact ⟨pre', nb, by simp⟩

theorem of_eq (hseg : vmp'.seg = vmp.seg) (hq : vmp'.segqueue = vmp.segqueue)
    (hfl : vmp'.freelist = vmp.freelist) (hht : vmp'.hashtable = vmp.hashtable)
    : Inv vmp' d := by
  cases vmp
  cases vmp'
  cases hseg
  cases hq
  cases hfl
  cases hht
  exact ⟨h.nodup, h.detached, h.tiled, h.freelist, h.hashtable, h.sized, ⟨h.spans.disjoint,
    h.spans.fits⟩⟩

end

theorem listRemove (h : Inv vmp []) (hx : x ∈ vmp.segqueue) (ht : (vmp.seg x).type ≠ .span)
    : Inv (vmp.listRemove x) [x] := by
  constructor
  . exact h.nodup
  . simp only [List.mem_singleton, forall_eq]
    exact ⟨hx, ht⟩
  . rcases h.around hx with ⟨pre, post, ha⟩
    have htiled := h.tiled_around ha
    have hsame : ∀ l : List SegId, x ∉ l
        → (vmp.listRemove x).blocks [x] l = vmp.blocks [] l := by
      intro l hl
      apply blocks_congr
      . intro y _
        rfl
      . intro y hy
        have : y ≠ x := fun heq => hl (heq ▸ hy)
        simp [this]
    rw [listRemove_segqueue, ha.eq, blocks_append, blocks_cons, hsame pre ha.pre, hsame post ha.post,
      block_detached _ (by simp)]
    rw [block_attached _ (by simp)] at htiled
    cases hk : (vmp.seg x).type with
    | span => exact absurd hk ht
    | free =>
      rw [hk] at htiled
      exact htiled.set_used
    | allocated =>
      rw [hk] at htiled
      exact htiled
  . apply (h.freelist.erase x).congr
    intro y i
    simp only [OnFreelist, listRemove_segqueue, listRemove_seg, List.mem_singleton,
      List.not_mem_nil, not_false_eq_true, true_and]
    tauto
  . apply (h.hashtable.erase x).congr
    intro y i
    simp only [OnHashtable, listRemove_segqueue, listRemove_seg, List.mem_singleton,
      List.not_mem_nil, not_false_eq_true, true_and]
    tauto
  . intro y hy _ hfree
    exact h.sized y hy (by simp) hfree
  . exact h.spans.of_sub (fun y hy _ => ⟨hy, rfl⟩)

theorem attachFree {i : Fin 64} (h : Inv vmp d) (hx : x ∈ d) (hd : ∀ y, y ∈ d' ↔ y ∈ d ∧ y ≠ x)
    (ha : Around vmp x pre post) (hpre : ¬ EndsFree (vmp.blocks d pre))
    (hpost : ¬ StartsFree (vmp.blocks d post)) (hi : freelistForSize (vmp.seg x).size = .ok i)
    (hq : vmp'.segqueue = vmp.segqueue) (hself : vmp'.seg x = { vmp.seg x with type := .free })
    (hother : ∀ y, y ≠ x → vmp'.seg y = vmp.seg y)
    (hfl : vmp'.freelist = Function.update vmp.freelist i (x :: vmp.freelist i))
    (hht : vmp'.hashtable = vmp.hashtable)
    : Inv vmp' d' := by
  have hmem := h.detached x hx
  constructor
  . rw [hq]
    exact h.nodup
  . intro y hy
    rw [hd] at hy
    rw [hq, hother y hy.2]
    exact h.detached y hy.1
  . have hsame : ∀ l : List SegId, x ∉ l → vmp'.blocks d' l = vmp.blocks d l := by
      intro l hl
      apply blocks_congr
      . intro y hy
        exact hother y (fun heq => hl (heq ▸ hy))
      . intro y hy
        have : y ≠ x := fun heq => hl (heq ▸ hy)
        simp [hd, this]
    have htiled := h.tiled_around ha
    rw [block_detached _ hx] at htiled
    rw [hq, ha.eq, blocks_append, blocks_cons, hsame pre ha.pre, hsame post ha.post,
      block_attached _ (by simp [hd]), hself]
    exact htiled.set_free hpre hpost
  . rw [hfl]
    apply (h.freelist.insert i (by simp [OnFreelist, hx])).congr
    intro y j
    unfold OnFreelist
    rw [hq, hd]
    by_cases hyx : y = x
    . subst hyx
      rw [hself]
      simp [hmem.1, hi, hx, eq_comm]
    . rw [hother y hyx]
      simp [hyx]
  . rw [hht]
    apply h.hashtable.congr
    intro y j
    unfold OnHashtable
    rw [hq, hd]
    by_cases hyx : y = x
    . subst hyx
      simp [hself, hx]
    . rw [hother y hyx]
      simp [hyx]
  . intro y hy hyd hfree
    by_cases hyx : y = x
    . subst hyx
      rw [hself]
      exact ⟨i, hi⟩
    . rw [hother y hyx] at hfree ⊢
      exact h.sized y (hq ▸ hy) (by simpa [hd, hyx] using hyd) hfree
  . apply h.spans.of_sub
    intro y hy hys
    refine ⟨hq ▸ hy, hother y ?_⟩
    rintro rfl
    simp [hself] at hys

theorem attachUsed (h : Inv vmp d) (hx : x ∈ d) (hd : ∀ y, y ∈ d' ↔ y ∈ d ∧ y ≠ x)
    (hq : vmp'.segqueue = vmp.segqueue) (hself : vmp'.seg x = { vmp.seg x with type := .allocated })
    (hother : ∀ y, y ≠ x → vmp'.seg y = vmp.seg y) (hfl : vmp'.freelist = vmp.freelist)
    (hht : vmp'.hashtable = Function.update vmp.hashtable (hashtableForAddr (vmp.seg x).base)
      (x :: vmp.hashtable (hashtableForAddr (vmp.seg x).base)))
    : Inv vmp' d' := by
  have hmem := h.detached x hx
  constructor
  . rw [hq]
    exact h.nodup
  . intro y hy
    rw [hd] at hy
    rw [hq, hother y hy.2]
    exact h.detached y hy.1
  . have hsame : vmp'.blocks d' vmp.segqueue = vmp.blocks d vmp.segqueue := by
      unfold blocks
      apply List.map_congr_left
      intro y _
      by_cases hyx : y = x
      . subst hyx
        rw [block_detached _ hx, block_attached _ (by simp [hd]), hself]
        rfl
      . apply block_congr (hother y hyx)
        simp [hd, hyx]
    rw [hq, hsame]
    exact h.tiled
  . rw [hfl]
    apply h.freelist.congr
    intro y j
    unfold OnFreelist
    rw [hq, hd]
    by_cases hyx : y = x
    . subst hyx
      simp [hself, hx]
    . rw [hother y hyx]
      simp [hyx]
  . rw [hht]
    apply (h.hashtable.insert _ (by simp [OnHashtable, hx])).congr
    intro y j
    unfold OnHashtable
    rw [hq, hd]
    by_cases hyx : y = x
    . subst hyx
      rw [hself]
      simp [hmem.1, hx, eq_comm]
    . rw [hother y hyx]
      simp [hyx]
  . intro y hy hyd hfree
    by_cases hyx : y = x
    . subst hyx
      simp [hself] at hfree
    . rw [hother y hyx] at hfree ⊢
      exact h.sized y (hq ▸ hy) (by simpa [hd, hyx] using hyd) hfree
  . apply h.spans.of_sub
    intro y hy hys
    refine ⟨hq ▸ hy, hother y ?_⟩
    rintro rfl
    simp [hself] at hys

end Inv
end Vmem

theorem freelistForSize_of_le {size : Nat} (h : 2 ≤ size) (hlt : size < 2 ^ 64)
    : ∃ hi, freelistForSize size = .ok ⟨Nat.log2 size - 1, hi⟩ := by
  have hlo : 1 ≤ Nat.log2 size := (Nat.le_log2 (by omega)).mpr (by omega)
  have hhi : Nat.log2 size < 64 := (Nat.log2_lt (by omega)).mpr hlt
  refine ⟨by omega, ?_⟩
  have hidx : getList size - 1 = (Nat.log2 size - 1 : Nat) := by
    unfold getList clzl
    omega
  unfold freelistForSize
  rw [if_neg (by omega)]
  dsimp only
  rw [dif_pos (by omega)]
  congr 1
  apply Fin.ext
  dsimp only
  rw [hidx]
  exact Int.toNat_natCast _

theorem freelistForSize_eq_ok {size : Nat} {i : Fin 64} (h : freelistForSize size = .ok i)
    (hlt : size < 2 ^ 64)
    : 2 ≤ size ∧ i.val = Nat.log2 size - 1 := by
  have hsize : 2 ≤ size := by
    by_contra hsmall
    unfold freelistForSize at h
    split at h
    . cases h
    . have hlog : Nat.log2 size = 0 := by
        have : Nat.log2 size < 1 := (Nat.log2_lt (by omega)).mpr (by omega)
        omega
      have hidx : getList size - 1 = -1 := by
        unfold getList clzl
        omega
      dsimp only at h
      rw [dif_neg (by omega)] at h
      cases h
  rcases freelistForSize_of_le hsize hlt with ⟨hi, heq⟩
  rw [heq] at h
  cases h
  exact ⟨hsize, rfl⟩

end Nyy
