import NyyKernel.Vmem.Impl.Basic

namespace Nyy

variable {τ : Type}

namespace SegPool

variable {pool : SegPool}

structure Ok (pool : SegPool) (owned : List SegId) : Prop where
  nodup : (pool.freeSegs ++ owned).Nodup
  page : ∀ page i, .block page i ∈ pool.freeSegs ++ owned → page < pool.npages
  count : pool.nfreesegs = pool.freeSegs.length

structure Moves (pool : SegPool) (q : List SegId) (pool' : SegPool) (q' : List SegId) : Prop where
  perm : (pool'.freeSegs ++ q').Perm (pool.freeSegs ++ q)
  count : pool.nfreesegs = pool.freeSegs.length → pool'.nfreesegs = pool'.freeSegs.length
  npages : pool'.npages = pool.npages

namespace Moves

variable {pool pool' pool'' : SegPool} {q q' q'' : List SegId} {x : SegId}

theorem refl (pool : SegPool) (q : List SegId) : Moves pool q pool q := by
  exact ⟨.refl _, fun h => h, rfl⟩

theorem trans (h : Moves pool q pool' q') (h' : Moves pool' q' pool'' q'')
    : Moves pool q pool'' q'' := by
  exact ⟨h'.perm.trans h.perm, fun hc => h'.count (h.count hc), h'.npages.trans h.npages⟩

theorem segFree (h : x ∈ q) : Moves pool q (segFree x pool) (q.erase x) := by
  refine ⟨Queue.perm_move h, ?_, rfl⟩
  intro hc
  simp [Nyy.segFree, hc]

theorem segAlloc {cfg : Config} (h : Nyy.segAlloc cfg pool = .ok (x, pool'))
    : Moves pool q pool' (x :: q) := by
  unfold Nyy.segAlloc at h
  rcases Except.bind_eq_ok h with ⟨_, _, h⟩
  split at h
  . cases h
  . next y rest hpool =>
    cases h
    refine ⟨?_, ?_, rfl⟩
    . rw [hpool]
      exact List.perm_middle
    . intro hc
      simp [hpool] at hc ⊢
      omega

theorem of_perm (h : q'.Perm q) : Moves pool q pool q' := by
  exact ⟨h.append_left _, fun hc => hc, rfl⟩

theorem append (h : Moves pool q pool' q') (r : List SegId)
    : Moves pool (q ++ r) pool' (q' ++ r) := by
  refine ⟨?_, h.count, h.npages⟩
  rw [← List.append_assoc, ← List.append_assoc]
  exact h.perm.append_right r

theorem cons {x : SegId} (h : Moves pool q pool' q') : Moves pool (x :: q) pool' (x :: q') := by
  refine ⟨?_, h.count, h.npages⟩
  exact List.perm_middle.trans ((h.perm.cons x).trans List.perm_middle.symm)

end Moves

namespace Ok

variable {pool pool' : SegPool} {q q' : List SegId}

theorem of_moves {others : List SegId} (h : Ok pool (q ++ others)) (hm : Moves pool q pool' q')
    : Ok pool' (q' ++ others) := by
  have hperm := (hm.append others).perm
  constructor
  . exact hperm.nodup_iff.mpr h.nodup
  . intro page i hi
    rw [hm.npages]
    exact h.page page i (hperm.mem_iff.mp hi)
  . exact hm.count h.count

theorem not_mem_of_segAlloc {cfg : Config} {x : SegId} (h : Ok pool q)
    (he : segAlloc cfg pool = .ok (x, pool'))
    : x ∉ q := by
  have hmoves : Moves pool [] pool' [x] := Moves.segAlloc he
  have hok : Ok pool' ([x] ++ q) := Ok.of_moves (q := []) h hmoves
  intro hx
  have := (List.nodup_append.mp hok.nodup).2.1
  simp [hx] at this

theorem of_perm (h : Ok pool q) (hp : q'.Perm q) : Ok pool q' := by
  have hperm : (pool.freeSegs ++ q').Perm (pool.freeSegs ++ q) := hp.append_left _
  constructor
  . exact hperm.nodup_iff.mpr h.nodup
  . intro page i hi
    exact h.page page i (hperm.mem_iff.mp hi)
  . exact h.count

end Ok

theorem foldl_segFree_freeSegs (f : Nat → SegId) (l : List Nat) (pool : SegPool)
    : (l.foldl (fun pool i => segFree (f i) pool) pool).freeSegs
        = (l.map f).reverse ++ pool.freeSegs := by
  induction l generalizing pool with
  | nil => simp
  | cons i l ih =>
    rw [List.foldl_cons, ih]
    simp [segFree]

theorem foldl_segFree_nfreesegs (f : Nat → SegId) (l : List Nat) (pool : SegPool)
    : (l.foldl (fun pool i => segFree (f i) pool) pool).nfreesegs = pool.nfreesegs + l.length := by
  induction l generalizing pool with
  | nil => simp
  | cons i l ih =>
    rw [List.foldl_cons, ih, List.length_cons]
    simp only [segFree]
    omega

def refilled (pool : SegPool) : SegPool :=
  { (List.range 64).foldl (fun p i => segFree (.block pool.npages i) p) pool with
    npages := pool.npages + 1 }

theorem refilled_freeSegs (pool : SegPool)
    : pool.refilled.freeSegs = ((List.range 64).map (.block pool.npages)).reverse ++ pool.freeSegs :=
  foldl_segFree_freeSegs _ _ _

theorem refilled_nfreesegs (pool : SegPool) : pool.refilled.nfreesegs = pool.nfreesegs + 64 := by
  unfold refilled
  dsimp only
  rw [foldl_segFree_nfreesegs, List.length_range]
  rfl

theorem refilled_count (h : pool.nfreesegs = pool.freeSegs.length)
    : pool.refilled.nfreesegs = pool.refilled.freeSegs.length := by
  rw [refilled_nfreesegs, refilled_freeSegs, h]
  simp
  omega

theorem Ok.refilled {q : List SegId} (h : Ok pool q) : Ok pool.refilled q := by
  constructor
  . rw [refilled_freeSegs, List.append_assoc, List.nodup_append]
    refine ⟨?_, h.nodup, ?_⟩
    . rw [List.nodup_reverse]
      apply List.nodup_range.map
      intro i j hij
      cases hij
      rfl
    . intro a ha b hb heq
      simp only [List.mem_reverse, List.mem_map] at ha
      rcases ha with ⟨i, _, rfl⟩
      subst heq
      exact Nat.lt_irrefl _ (h.page _ _ hb)
  . intro page i hi
    rw [refilled_freeSegs, List.append_assoc, List.mem_append] at hi
    rcases hi with hi | hi
    . simp only [List.mem_reverse, List.mem_map] at hi
      rcases hi with ⟨j, _, hj⟩
      cases hj
      exact Nat.lt_succ_self _
    . exact Nat.lt_succ_of_lt (h.page _ _ hi)
  . exact refilled_count h.count

theorem Ok.vmemBootstrap : (vmemBootstrap ⟨[], 0, 0⟩).Ok [] := by
  unfold Nyy.vmemBootstrap
  constructor
  . rw [foldl_segFree_freeSegs, List.append_nil, List.append_nil, List.nodup_reverse]
    apply List.nodup_range.map
    intro i j hij
    cases hij
    rfl
  . intro page i hi
    rw [foldl_segFree_freeSegs, List.append_nil, List.append_nil, List.mem_reverse,
      List.mem_map] at hi
    rcases hi with ⟨j, _, hj⟩
    cases hj
  . rw [foldl_segFree_nfreesegs, foldl_segFree_freeSegs]
    simp

end SegPool

def Refilled {τ : Type} (ops : VmemOps τ) (w : World τ) (pool : SegPool) (ext : τ) : Prop :=
  (pool = w.pool ∧ ext = w.ext) ∨ (pool = w.pool.refilled ∧ ops.allocPages w.ext = .ok ext)

theorem Refilled.ok {ops : VmemOps τ} {w : World τ} {pool : SegPool} {ext : τ} {q : List SegId}
    (h : Refilled ops w pool ext) (hpool : w.pool.Ok q)
    : pool.Ok q := by
  rcases h with ⟨rfl, _⟩ | ⟨rfl, _⟩
  . exact hpool
  . exact hpool.refilled

theorem repopulateSegments_spec {ops : VmemOps τ} {w w' : World τ} (he : repopulateSegments ops w = .ok w')
    : Refilled ops w w'.pool w'.ext ∧ w'.irql = w.irql := by
  unfold repopulateSegments at he
  split at he
  . cases he
    exact ⟨.inl ⟨rfl, rfl⟩, rfl⟩
  . rcases Except.bind_eq_ok he with ⟨ext, hext, he⟩
    cases he
    exact ⟨.inr ⟨rfl, hext⟩, rfl⟩

end Nyy
