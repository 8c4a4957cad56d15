import NyyKernel.Vmem.Arena

namespace Nyy
namespace Vmem

variable {τ : Type} {cfg : Config} {ops : VmemOps τ} {q fuel addr : Nat} {others : τ → List SegId}
  {J : τ → Set (Nat × Nat) → Prop} {vmp vmp' : Vmem} {w w' : World τ} {mine : List SegId}
  {P : SegPool → List SegId → τ → Prop}

structure Kept (ops : VmemOps τ) (q : Nat) (others : τ → List SegId) (J : τ → Set (Nat × Nat) → Prop)
    (P : SegPool → List SegId → τ → Prop) : Prop where
  moves : ∀ {pool pool' owned owned' ext}, P pool owned ext → pool.Moves owned pool' owned' →
    P pool' owned' ext
  pages : ∀ {pool owned ext ext' held}, J ext held → P pool owned ext →
    ops.allocPages ext = .ok ext' → P pool.refilled owned ext'
  alloc : ∀ {alloc}, ops.alloc = some alloc → ∀ {w w' size flag addr held mine},
    J w.ext held → w.pool.Ok (mine ++ others w.ext) → P w.pool mine w.ext → 0 < size →
    size < 2 ^ 64 → q ∣ size → alloc size flag w = .ok (addr, w') → P w'.pool mine w'.ext
  free : ∀ {free}, ops.free = some free → ∀ {w w' held mine} {r : Nat × Nat},
    J w.ext held → w.pool.Ok (mine ++ others w.ext) → P w.pool mine w.ext → r ∈ held →
    free r.1 r.2 w = .ok w' → P w'.pool mine w'.ext

theorem Kept.refilled {pool : SegPool} {owned : List SegId} {ext : τ} {held : Set (Nat × Nat)}
    (hk : Kept ops q others J P) (hJ : J w.ext held) (h : P w.pool owned w.ext)
    (hr : Refilled ops w pool ext)
    : P pool owned ext := by
  rcases hr with ⟨rfl, rfl⟩ | ⟨rfl, hext⟩
  . exact h
  . exact hk.pages hJ h hext

theorem Good.loop_kept (hs : Source ops q others J) (hk : Kept ops q others J P) {req : XallocReq}
    (hpos : 0 < req.size) (hlt : req.size < 2 ^ 64) (hq : q ∣ req.size) {first : Nat} {found : SegId × Nat}
    (h : Good q others J vmp w mine) (hP : P w.pool (vmp.segqueue ++ mine) w.ext)
    (he : xallocLoop cfg ops req fuel first vmp w = .ok (some found, vmp', w'))
    : P w'.pool (vmp'.segqueue ++ mine) w'.ext := by
  refine (xallocLoop_rule (P := fun v w => Good q others J v w mine ∧ P w.pool (v.segqueue ++ mine) w.ext)
    ⟨h, hP⟩ ?_ he).1.2
  rintro vmp1 w1 vmp2 w2 ⟨h1, hP1⟩ himport
  refine ⟨(h1.import hs hpos hlt hq himport).1, ?_⟩
  rcases h1.import_added hs hpos hlt hq himport with ⟨alloc, _, _, _, _, halloc, hcall, _, _, rfl, _,
    hadded, _⟩
  have hP2 := hk.alloc halloc h1.source h1.pool hP1 hpos hlt hq hcall
  exact hk.moves hP2 (hadded.moves.append mine)

theorem Serves.alloc_kept (hs : Source ops q others J) (hk : Kept ops q others J P) {n : Nat} (hn : n < 64)
    (hqn : q = 2 ^ n) (hcfg : cfg.disableAsserts = false) {size : Nat} {flag : BitVec 32} (hpos : 0 < size)
    (hlt : size < 2 ^ 64) (hdvd : q ∣ size) (h : Serves q others J vmp w) (hP : P w.pool vmp.segqueue w.ext)
    (he : vmemAlloc cfg ops fuel vmp w size flag = .ok (addr, vmp', w'))
    : P w'.pool vmp'.segqueue w'.ext := by
  rcases h.search hs hcfg he with ⟨first, pool0, ext2, pool2, newSeg, newSeg2, x, start, vmp3, w3, vmp4,
    pool4, hrefilled, hmoves, _, h4, hloop, hplace, rfl, rfl⟩
  have hP2 := hk.moves (hk.refilled h.good.source hP hrefilled) hmoves
  have hP3 := h4.loop_kept hs hk hpos hlt hdvd hP2 hloop
  rcases h4.loop hs hpos hlt hdvd hloop with ⟨h5, _, hx, hfit⟩
  rcases h5.fit_aligned hn hqn hx hfit with ⟨hxq, ht, hstart⟩
  rcases h5.found hpos hxq ht (by omega) (by omega) hplace with ⟨_, hfound, _, _⟩
  have hperm : ([newSeg, newSeg2] ++ vmp3.segqueue).Perm (vmp3.segqueue ++ [newSeg2, newSeg]) :=
    List.perm_append_comm.trans ((List.Perm.swap newSeg2 newSeg []).append_left _)
  exact hk.moves (hk.moves hP3 (.of_perm hperm)) hfound.moves

theorem Serves.free_kept (hk : Kept ops q others J P) (hq : 2 ≤ q) {size : Nat}
    (h : Serves q others J vmp w) (hr : (addr, size) ∈ vmp.ranges [] .allocated)
    (hP : P w.pool vmp.segqueue w.ext) (he : vmemFree cfg ops vmp w addr size = .ok (vmp', w'))
    : P w'.pool vmp'.segqueue w'.ext := by
  cases h.free_outcome hq hr he with
  | kept vmp2 pool2 hres hfreed _ _ =>
    cases hres
    exact hk.moves hP hfreed.moves
  | released free span vmp2 pool2 hfree hres hfreed hspan _ _ _ =>
    rcases Except.map_eq_ok hres.symm with ⟨w1, hw1, heq⟩
    cases heq
    have hP2 := hk.moves hP hfreed.moves
    have hpool := h.good.pool
    rw [List.append_nil] at hpool
    have hP3 := hk.free hfree (w := ⟨pool2, irqlDispatch, w.ext⟩) h.good.source
      (hpool.of_moves hfreed.moves) hP2 hspan hw1
    exact hP3

end Vmem
end Nyy
