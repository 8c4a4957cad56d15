import Mathlib.Data.List.Perm.Basic
import NyyKernel.Vmem.Kept

namespace Nyy

def allTags (npages : Nat) : List SegId :=
  (List.range 128).map .static ++
    (List.range npages).flatMap fun page => (List.range 64).map (.block page)

namespace SegPool

structure Conserved (n : Nat) (pool : SegPool) (owned : List SegId) : Prop where
  perm : (pool.freeSegs ++ owned).Perm (allTags pool.npages)
  count : pool.nfreesegs = pool.freeSegs.length
  grown : n ≤ pool.npages

namespace Conserved

variable {n : Nat} {pool pool' : SegPool} {q q' owned owned' : List SegId}

theorem of_moves (h : Conserved n pool (q ++ owned)) (hm : Moves pool q pool' q')
    : Conserved n pool' (q' ++ owned) := by
  refine ⟨?_, hm.count h.count, hm.npages ▸ h.grown⟩
  rw [hm.npages]
  exact (hm.append owned).perm.trans h.perm

theorem of_perm (h : Conserved n pool owned) (hp : owned'.Perm owned) : Conserved n pool owned' :=
  ⟨(hp.append_left _).trans h.perm, h.count, h.grown⟩

theorem refilled (h : Conserved n pool owned) : Conserved n pool.refilled owned := by
  refine ⟨?_, refilled_count h.count, Nat.le_succ_of_le h.grown⟩
  have htags : allTags (pool.npages + 1) =
      allTags pool.npages ++ (List.range 64).map (.block pool.npages) := by
    unfold allTags
    rw [@List.range_succ pool.npages, List.flatMap_append, List.append_assoc]
    simp
  have hpages : pool.refilled.npages = pool.npages + 1 := rfl
  rw [refilled_freeSegs, List.append_assoc, hpages, htags]
  exact ((List.reverse_perm _).append h.perm).trans List.perm_append_comm

theorem vmemBootstrap : Conserved 0 (vmemBootstrap ⟨[], 0, 0⟩) [] := by
  unfold Nyy.vmemBootstrap
  constructor
  . rw [foldl_segFree_freeSegs, List.append_nil, List.append_nil]
    have hpages : ((List.range 128).foldl (fun pool i => segFree (.static i) pool)
        (⟨[], 0, 0⟩ : SegPool)).npages = 0 := by
      decide +kernel
    rw [hpages]
    unfold allTags
    simp
  . rw [foldl_segFree_nfreesegs, foldl_segFree_freeSegs]
    simp
  . exact Nat.zero_le _

theorem nodup_allTags (npages : Nat) : (allTags npages).Nodup := by
  unfold allTags
  rw [List.nodup_append]
  refine ⟨?_, ?_, ?_⟩
  . exact List.nodup_range.map (fun i j hij => by cases hij; rfl)
  . rw [List.nodup_flatMap]
    refine ⟨?_, ?_⟩
    . intro page _
      exact List.nodup_range.map (fun i j hij => by cases hij; rfl)
    . apply List.nodup_range.imp
      intro page page' hne x hx hx'
      simp only [List.mem_map] at hx hx'
      rcases hx with ⟨i, _, rfl⟩
      rcases hx' with ⟨j, _, hj⟩
      cases hj
      exact hne rfl
  . intro a ha b hb
    simp only [List.mem_map, List.mem_flatMap] at ha hb
    rcases ha with ⟨i, _, rfl⟩
    rcases hb with ⟨page, _, j, _, rfl⟩
    simp

theorem mem_allTags_block {npages page i : Nat} (h : .block page i ∈ allTags npages)
    : page < npages := by
  unfold allTags at h
  simp only [List.mem_append, List.mem_map, List.mem_flatMap, List.mem_range, reduceCtorEq, and_false,
    exists_false, false_or] at h
  rcases h with ⟨page', hpage', j, _, heq⟩
  cases heq
  exact hpage'

theorem now (h : Conserved n pool owned) : Conserved pool.npages pool owned :=
  ⟨h.perm, h.count, Nat.le_refl _⟩

theorem ok (h : Conserved n pool owned) : Ok pool owned := by
  refine ⟨h.perm.nodup_iff.mpr (nodup_allTags _), ?_, h.count⟩
  intro page i hi
  exact mem_allTags_block (h.perm.mem_iff.mp hi)

end Conserved

end SegPool

namespace Vmem

section Operations

variable {τ : Type} {cfg : Config} {ops : VmemOps τ} {q : Nat} {others : τ → List SegId}
  {J : τ → Set (Nat × Nat) → Prop} {vmp vmp' : Vmem} {w w' : World τ} {mine : List SegId} {n : Nat}

structure Conserves (ops : VmemOps τ) (q : Nat) (others : τ → List SegId) (J : τ → Set (Nat × Nat) → Prop)
    : Prop where
  alloc : ∀ {alloc}, ops.alloc = some alloc → ∀ {w w' size flag addr held mine n},
    J w.ext held → w.pool.Conserved n (mine ++ others w.ext) → 0 < size → size < 2 ^ 64 → q ∣ size →
    alloc size flag w = .ok (addr, w') → w'.pool.Conserved n (mine ++ others w'.ext)
  free : ∀ {free}, ops.free = some free → ∀ {w w' held mine n} {r : Nat × Nat},
    J w.ext held → w.pool.Conserved n (mine ++ others w.ext) → r ∈ held → free r.1 r.2 w = .ok w' →
    w'.pool.Conserved n (mine ++ others w'.ext)

theorem Conserves.kept (hs : Source ops q others J) (hc : Conserves ops q others J) (n : Nat)
    : Kept ops q others J (fun pool owned ext => pool.Conserved n (owned ++ others ext)) := by
  constructor
  . intro pool pool' owned owned' ext h hm
    exact h.of_moves hm
  . intro pool owned ext ext' held hJ h he
    rw [(hs.pages hJ he).2]
    exact h.refilled
  . intro alloc halloc w w' size flag addr held mine hJ _ h hpos hlt hdvd he
    exact hc.alloc halloc hJ h hpos hlt hdvd he
  . intro free hfree w w' held mine r hJ _ h hr he
    exact hc.free hfree hJ h hr he

end Operations

end Vmem

end Nyy
