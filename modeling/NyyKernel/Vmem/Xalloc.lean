import NyyKernel.Vmem.Arena
import NyyKernel.Vmem.Import

namespace Nyy
namespace Vmem

variable {start k : Nat}

def Roundable (req : XallocReq) (s : VmemSegment) : Prop :=
  max s.base req.minaddr ≤ min (s.base + s.size) req.maxaddr →
    max s.base req.minaddr + req.align ≤ 2 ^ 64 + req.phase

theorem align_phase {phase : Nat} (hk : k < 64) (hstart : start < 2 ^ 64) (hphase : phase < 2 ^ k)
    (hround : start + 2 ^ k ≤ 2 ^ 64 + phase)
    : start ≤ Word.add (vmemAlignup (Word.sub start phase) (2 ^ k)) phase ∧
        Word.add (vmemAlignup (Word.sub start phase) (2 ^ k)) phase % 2 ^ k = phase ∧
        Word.add (vmemAlignup (Word.sub start phase) (2 ^ k)) phase < start + 2 ^ k := by
  have hpow : 2 ^ k < 2 ^ 64 := Nat.pow_lt_pow_right (by omega) hk
  unfold vmemAlignup
  by_cases hlt : start < phase
  . -- the difference wraps around, and so does rounding it up
    have hdiff : Word.sub start phase = 2 ^ 64 + start - phase := by
      unfold Word.sub
      omega
    rw [hdiff, Word.alignUp_wraps (by omega) hk (by omega), Word.add_eq (by omega), Nat.zero_add]
    exact ⟨hlt.le, Nat.mod_eq_of_lt hphase, by omega⟩
  . rw [Word.sub_eq hstart (by omega), Word.alignUp_two_pow (by omega) hk]
    generalize hm : (start - phase + (2 ^ k - 1)) / 2 ^ k = m
    have hdiv := Nat.div_add_mod (start - phase + (2 ^ k - 1)) (2 ^ k)
    have hmod := Nat.mod_lt (start - phase + (2 ^ k - 1)) (Nat.two_pow_pos k)
    rw [hm] at hdiv
    have hle := Word.add_two_pow_le hk (show 2 ^ k * m < 2 ^ 64 by omega) (Nat.dvd_mul_right _ _)
    rw [Word.add_eq (by omega), Nat.mul_add_mod, Nat.mod_eq_of_lt hphase]
    exact ⟨by omega, rfl, by omega⟩

theorem segFit_exact {cfg : Config} {req : XallocReq} {s : VmemSegment} (hk : k < 64)
    (halign : req.align = 2 ^ k) (hphase : req.phase < 2 ^ k) (hmin : req.minaddr < 2 ^ 64)
    (hbound : s.base + s.size < 2 ^ 64) (hround : Roundable req s)
    (h : segFit cfg s req.size req.align req.phase req.nocross req.minaddr req.maxaddr =
      .ok (some start))
    : s.base ≤ start ∧ start + req.size ≤ s.base + s.size ∧ start % 2 ^ k = req.phase ∧
        req.minaddr ≤ start ∧ start + req.size ≤ req.maxaddr := by
  unfold segFit at h
  rcases Except.bind_eq_ok h with ⟨_, _, h⟩
  rcases Except.bind_eq_ok h with ⟨_, _, h⟩
  rw [Word.add_eq hbound] at h
  dsimp only at h
  split at h
  . cases h
  . next hle =>
    have hround := hround (by omega)
    rw [halign] at hround h
    have hnext := align_phase hk (show max s.base req.minaddr < 2 ^ 64 by omega) hphase hround
    generalize Word.add (vmemAlignup (Word.sub (max s.base req.minaddr) req.phase) (2 ^ k)) req.phase = a
      at h hnext
    rw [if_neg (show ¬ a < s.base by omega)] at h
    rcases Except.bind_eq_ok h with ⟨_, _, h⟩
    split at h
    . next hc =>
      cases h
      rw [Word.sub_eq (by omega) hc.1] at hc
      omega
    . cases h

section Search

variable {τ : Type} {cfg : Config} {ops : VmemOps τ} {others : τ → List SegId}
  {J : τ → Set (Nat × Nat) → Prop} {vmp vmp' vmp3 vmp4 : Vmem} {w w' w3 : World τ} {q top fuel addr : Nat}
  {mine : List SegId} {req : XallocReq} {x newSeg newSeg2 : SegId} {pool4 : SegPool}

theorem bestFit_lock (lock : Bool) (is : List (Fin 64))
    : bestFit cfg req { vmp with lock := lock } is = bestFit cfg req vmp is := by
  have hlist : ∀ l, bestFitList cfg req { vmp with lock := lock } l = bestFitList cfg req vmp l := by
    intro l
    induction l with
    | nil => rfl
    | cons x l ih =>
      unfold bestFitList
      rw [ih]
      rfl
  induction is with
  | nil => rfl
  | cons i is ih =>
    unfold bestFit
    rw [hlist, ih]

def Served (cfg : Config) (ops : VmemOps τ) (vmp : Vmem) (req : XallocReq) : Prop :=
  ops.alloc = none ∨ ∃ first found, freelistForSize req.size = .ok first ∧
    bestFit cfg (effective vmp.quantum req) vmp (listsFrom first.val) = .ok (some found)

theorem Served.loop {first : Fin 64} {found : SegId × Nat} (h : Served cfg ops vmp req)
    (hfirst : freelistForSize req.size = .ok first)
    (he : xallocLoop cfg ops (effective vmp.quantum req) fuel first.val { vmp with lock := true } w
      = .ok (some found, vmp', w'))
    : vmp' = { vmp with lock := true } ∧ w' = w := by
  rcases xallocLoop_cases he with ⟨first1, fuel1, f, hpass, _, ⟨_, hvmp, hw⟩ | ⟨rfl, vmp1, w1, himport, _⟩⟩
  . exact ⟨hvmp, hw⟩
  . rcases h with halloc | ⟨first2, found2, hfirst2, hsome⟩
    . rcases vmemImport_eq_ok himport with ⟨_, _, _, _, _, halloc', _⟩
      rw [halloc] at halloc'
      cases halloc'
    . have hnone := (xallocPass_effective hpass).1
      rw [hfirst] at hfirst2
      cases hfirst2
      rw [bestFit_lock, hsome] at hnone
      cases hnone

structure Request (quantum : Nat) (req : XallocReq) : Prop where
  pos : 0 < req.size
  size : req.size < 2 ^ 64
  align : ∃ k < 64, (effective quantum req).align = 2 ^ k
  phase : req.phase < (effective quantum req).align
  range : req.minaddr ≤ req.maxaddr ∧ req.maxaddr < 2 ^ 64

def Below (J : τ → Set (Nat × Nat) → Prop) (top : Nat) : Prop :=
  ∀ ext held, J ext held → ∀ r ∈ held, r.1 + r.2 ≤ top

def NoWrap (cfg : Config) (ops : VmemOps τ) (top : Nat) (vmp : Vmem) (req : XallocReq) : Prop :=
  top + (effective vmp.quantum req).align ≤ 2 ^ 64 + req.phase ∨
    (Served cfg ops vmp req ∧
      ∀ x ∈ vmp.segqueue, (vmp.seg x).type = .free → Roundable (effective vmp.quantum req) (vmp.seg x))

structure Within (vmp : Vmem) (quantum : Nat) (req : XallocReq) (x : SegId) (start : Nat) : Prop where
  mem : x ∈ vmp.segqueue
  free : (vmp.seg x).type = .free
  low : (vmp.seg x).base ≤ start
  high : start + req.size ≤ (vmp.seg x).base + (vmp.seg x).size
  phase : start % (effective quantum req).align = req.phase
  minaddr : req.minaddr ≤ start
  maxaddr : start + req.size ≤ req.maxaddr

theorem Good.span_end (hbelow : Below J top) (h : Good q others J vmp w mine) (hx : x ∈ vmp.segqueue)
    (ht : (vmp.seg x).type = .free)
    : (vmp.seg x).base + (vmp.seg x).size ≤ top := by
  have hmem : vmp.range x ∈ vmp.ranges [] .free := ⟨x, hx, by simp, ht, rfl⟩
  rcases h.inv.ranges_inside (by simp) hmem with ⟨s, hs, _, hend⟩
  exact hend.trans (hbelow _ _ h.source s hs)

structure Searched (cfg : Config) (ops : VmemOps τ) (others : τ → List SegId)
    (J : τ → Set (Nat × Nat) → Prop) (fuel : Nat) (req : XallocReq) (vmp : Vmem) (newSeg newSeg2 x : SegId)
    (start : Nat) (vmp3 : Vmem) (w3 : World τ) : Prop where
  loop : ∃ (first : Nat) (w2 : World τ),
    Good 1 others J { vmp with lock := true } w2 [newSeg2, newSeg] ∧
    xallocLoop cfg ops (effective vmp.quantum req) fuel first { vmp with lock := true } w2 =
      .ok (some (x, start), vmp3, w3)
  good : Good 1 others J vmp3 w3 [newSeg2, newSeg]
  keeps : Keeps { vmp with lock := true } vmp3
  stat : vmp3.stat = vmp.stat
  served : Served cfg ops vmp req → vmp3 = { vmp with lock := true }
  mem : x ∈ vmp3.segqueue
  free : (vmp3.seg x).type = .free
  fit : (effective vmp.quantum req).fit cfg vmp3 x = .ok (some start)
  two_le : 2 ≤ req.size

theorem Good.search (hs : Source ops 1 others J) (hcfg : cfg.disableAsserts = false) (hpos : 0 < req.size)
    (hlt : req.size < 2 ^ 64) (h : Good 1 others J vmp w [])
    (he : vmemXalloc cfg ops fuel vmp w req = .ok (addr, vmp', w'))
    : ∃ newSeg newSeg2 x start vmp3 w3 vmp4 pool4,
        Searched cfg ops others J fuel req vmp newSeg newSeg2 x start vmp3 w3 ∧
        xallocFound cfg vmp3 w3.pool x start newSeg newSeg2 req.size = .ok (addr, vmp4, pool4) ∧
        vmp' = { vmp4 with lock := false } ∧ w' = ⟨pool4, w.irql, w3.ext⟩ := by
  rcases vmemXalloc_eq_ok hcfg he with ⟨first, w2, newSeg, pool1, newSeg2, pool2, x, start, vmp3, w3,
    vmp4, pool4, _, hfirst, hrepop, hseg1, hseg2, hloop, hplace, hvmp', hw'⟩
  have h4 := (h.prologue hs hrepop hseg1 hseg2).2.2.2
  have hpos' : 0 < (effective vmp.quantum req).size := hpos
  rcases h4.loop hs hpos' hlt (one_dvd _) hloop with ⟨h5, hkeeps, ⟨i, hx⟩, hfit⟩
  have hstat := xallocLoop_stat hloop
  have hon := (h5.inv.freelist.mem x i).mp hx
  refine ⟨newSeg, newSeg2, x, start, vmp3, w3, vmp4, pool4, ⟨⟨_, _, h4, hloop⟩, h5, hkeeps, hstat, ?_,
    hon.1, hon.2.2.1, hfit, (freelistForSize_eq_ok hfirst hlt).1⟩, hplace, hvmp', hw'⟩
  exact fun hserved => (hserved.loop hfirst hloop).1

structure Xalloced (cfg : Config) (ops : VmemOps τ) (others : τ → List SegId)
    (J : τ → Set (Nat × Nat) → Prop) (fuel : Nat) (req : XallocReq) (vmp : Vmem) (w : World τ)
    (newSeg newSeg2 x : SegId) (vmp3 : Vmem) (w3 : World τ) (vmp4 : Vmem) (pool4 : SegPool) (addr : Nat)
    (vmp' : Vmem) (w' : World τ) : Prop
    extends Searched cfg ops others J fuel req vmp newSeg newSeg2 x addr vmp3 w3 where
  low : (vmp3.seg x).base ≤ addr
  high : addr + req.size ≤ (vmp3.seg x).base + (vmp3.seg x).size
  found : Found vmp3 w3.pool [newSeg, newSeg2] x addr req.size vmp4 pool4
  counts : CountsAlloc vmp3.stat vmp4 addr
  arena : vmp' = { vmp4 with lock := false }
  world : w' = ⟨pool4, w.irql, w3.ext⟩
  pool : pool4.Ok ((vmp4.segqueue ++ []) ++ others w3.ext)

theorem Searched.take {start : Nat}
    (h : Searched cfg ops others J fuel req vmp newSeg newSeg2 x start vmp3 w3)
    (hlow : (vmp3.seg x).base ≤ start) (hhigh : start + req.size ≤ (vmp3.seg x).base + (vmp3.seg x).size)
    (hplace : xallocFound cfg vmp3 w3.pool x start newSeg newSeg2 req.size = .ok (addr, vmp4, pool4))
    : start = addr ∧ Xalloced cfg ops others J fuel req vmp w newSeg newSeg2 x vmp3 w3 vmp4 pool4 start
        { vmp4 with lock := false } ⟨pool4, w.irql, w3.ext⟩ := by
  have htwo := h.two_le
  rcases h.good.found (by omega) h.mem h.free hlow hhigh hplace with ⟨rfl, hfound, hcounts, hpool⟩
  exact ⟨rfl, h, hlow, hhigh, hfound, hcounts, rfl, rfl, hpool⟩

theorem Xalloced.not_allocated
    (h : Xalloced cfg ops others J fuel req vmp w newSeg newSeg2 x vmp3 w3 vmp4 pool4 addr vmp' w')
    (sz : Nat)
    : (addr, sz) ∉ vmp3.ranges [] .allocated := by
  rintro ⟨z, hz, _, hzt, hzrange⟩
  have hzbase : (vmp3.seg z).base = addr := congrArg Prod.fst hzrange
  have hzx : z ≠ x := by
    rintro rfl
    rw [h.free] at hzt
    cases hzt
  have hdis := h.good.inv.disjoint hz h.mem hzx (by simp [hzt]) (by simp [h.free])
  have hzpos := h.good.inv.size_pos hz
  have hlow := h.low
  have hhigh := h.high
  have htwo := h.two_le
  unfold RangeDisjoint range at hdis
  dsimp only at hdis
  omega

theorem Good.xalloc (hs : Source ops 1 others J) (hcfg : cfg.disableAsserts = false) (hbelow : Below J top)
    (htop : top < 2 ^ 64) (hreq : Request vmp.quantum req) (hwrap : NoWrap cfg ops top vmp req)
    (h : Good 1 others J vmp w []) (he : vmemXalloc cfg ops fuel vmp w req = .ok (addr, vmp', w'))
    : ∃ newSeg newSeg2 x vmp3 w3 vmp4 pool4,
        Xalloced cfg ops others J fuel req vmp w newSeg newSeg2 x vmp3 w3 vmp4 pool4 addr vmp' w' ∧
        Within vmp3 vmp.quantum req x addr := by
  rcases h.search hs hcfg hreq.pos hreq.size he with ⟨newSeg, newSeg2, x, start, vmp3, w3, vmp4, pool4,
    hx, hplace, rfl, rfl⟩
  have hend := hx.good.span_end hbelow hx.mem hx.free
  rcases hreq.align with ⟨k, hk, halign⟩
  have hround : Roundable (effective vmp.quantum req) (vmp3.seg x) := by
    rcases hwrap with hwrap | ⟨hyes, hall⟩
    . intro hle
      have hle' : max (vmp3.seg x).base (effective vmp.quantum req).minaddr ≤ top :=
        hle.trans ((min_le_left _ _).trans hend)
      exact (Nat.add_le_add_right hle' _).trans hwrap
    . have hmem := hx.mem
      have hfree := hx.free
      rw [hx.served hyes] at hmem hfree ⊢
      exact hall x hmem hfree
  have hrange := hreq.range
  have hexact := segFit_exact hk halign (halign ▸ hreq.phase)
    (show (effective vmp.quantum req).minaddr < 2 ^ 64 by
      show req.minaddr < 2 ^ 64
      omega) (by omega) hround hx.fit
  rcases hexact with ⟨hlo, hhi, hphase, hmin, hmax⟩
  rcases hx.take (w := w) hlo hhi hplace with ⟨rfl, hx⟩
  exact ⟨newSeg, newSeg2, x, vmp3, w3, vmp4, pool4, hx,
    ⟨hx.mem, hx.free, hlo, hhi, halign ▸ hphase, hmin, hmax⟩⟩

end Search

structure VmemState (τ : Type) where
  vmp : Vmem
  world : World τ

inductive VmemOp where
  | add (addr size : Nat)
  | xalloc (req : XallocReq)
  | xfree (addr size : Nat)

section Run

variable {τ : Type} (cfg : Config) (ops : VmemOps τ) (others : τ → List SegId)
  (J : τ → Set (Nat × Nat) → Prop)

def VmemStart (s : VmemState τ) : Prop :=
  ∃ (ret : Vmem) (pool : SegPool) (base size quantum : Nat) (source : Bool),
    base + size ≤ 2 ^ 64 ∧ size < 2 ^ 64 ∧ pool.Ok (others s.world.ext) ∧
    vmemInit cfg ret pool base size quantum source = .ok (s.vmp, s.world.pool) ∧
    J s.world.ext (s.vmp.ranges [] .span)

def VmemStep (s : VmemState τ) : VmemOp → VmemState τ → Prop
  | .add addr size, s' => 0 < size ∧ addr + size ≤ 2 ^ 64 ∧ size < 2 ^ 64 ∧
    (∀ r ∈ s.vmp.ranges [] .span, RangeDisjoint (addr, size) r) ∧
    J s.world.ext (insert (addr, size) (s.vmp.ranges [] .span)) ∧
    vmemAdd cfg s.vmp s.world.pool addr size = .ok (s'.vmp, s'.world.pool) ∧
    s'.world = { s.world with pool := s'.world.pool }
  | .xalloc req, s' => Request s.vmp.quantum req ∧ ∃ fuel addr,
    vmemXalloc cfg ops fuel s.vmp s.world req = .ok (addr, s'.vmp, s'.world)
  | .xfree addr size, s' => (addr, size) ∈ s.vmp.ranges [] .allocated ∧
    vmemXfree cfg ops s.vmp s.world addr size = .ok (s'.vmp, s'.world)

def NoWrapStep (top : Nat) (s : VmemState τ) : VmemOp → Prop
  | .xalloc req => NoWrap cfg ops top s.vmp req
  | _ => True

end Run

section Run

variable {τ : Type} {cfg : Config} {ops : VmemOps τ} {others : τ → List SegId}
  {J : τ → Set (Nat × Nat) → Prop} {top fuel addr : Nat} {s s' : VmemState τ} {req : XallocReq}

structure VmemInv (others : τ → List SegId) (J : τ → Set (Nat × Nat) → Prop) (s : VmemState τ)
    : Prop where
  good : Good 1 others J s.vmp s.world []
  lock : s.vmp.lock = false
  two_le : ∀ r ∈ s.vmp.ranges [] .allocated, 2 ≤ r.2

theorem VmemInv.init (h : VmemStart cfg others J s) : VmemInv others J s := by
  rcases h with ⟨ret, pool, base, size, quantum, source, hfits, hlt, hpool, he, hJ⟩
  rcases Good.init s.world.irql hpool (one_dvd _) (one_dvd _) hfits hlt he hJ with
    ⟨hgood, hlock, _, hallocs⟩
  refine ⟨hgood, hlock, ?_⟩
  simp [hallocs]

theorem VmemInv.xalloced {newSeg newSeg2 x : SegId} {vmp3 vmp4 : Vmem} {w3 : World τ} {pool4 : SegPool}
    (h : VmemInv others J s)
    (hx : Xalloced cfg ops others J fuel req s.vmp s.world newSeg newSeg2 x vmp3 w3 vmp4 pool4 addr s'.vmp
      s'.world)
    : VmemInv others J s' := by
  rcases hx.found.allocs with ⟨sz, hle, _, hallocs⟩
  have hold : vmp3.ranges [] .allocated = s.vmp.ranges [] .allocated := hx.keeps.allocs
  have hspans : s'.vmp.ranges [] .span = vmp3.ranges [] .span := by
    rw [hx.arena]
    exact hx.found.spans
  have hallocs' : s'.vmp.ranges [] .allocated = insert (addr, sz) (s.vmp.ranges [] .allocated) := by
    rw [hx.arena, ← hold]
    exact hallocs
  refine ⟨⟨?_, ?_, ?_, ?_, ?_⟩, ?_, ?_⟩
  . rw [hx.arena]
    exact hx.found.inv.of_eq rfl rfl rfl rfl
  . rw [hx.arena, hx.world]
    exact hx.pool
  . rw [hspans, hx.world]
    exact hx.good.source
  . exact fun r _ => ⟨one_dvd _, one_dvd _⟩
  . exact fun r _ => ⟨one_dvd _, one_dvd _⟩
  . rw [hx.arena]
  . rw [hallocs']
    rintro r (rfl | hr)
    . exact hx.two_le.trans hle
    . exact h.two_le r hr

section

variable (hs : Source ops 1 others J) (hcfg : cfg.disableAsserts = false) (hbelow : Below J top)
  (htop : top < 2 ^ 64)

include hs hcfg hbelow htop

theorem VmemInv.xalloc (hreq : Request s.vmp.quantum req) (hwrap : NoWrap cfg ops top s.vmp req)
    (h : VmemInv others J s) (he : vmemXalloc cfg ops fuel s.vmp s.world req = .ok (addr, s'.vmp, s'.world))
    : VmemInv others J s' := by
  rcases h.good.xalloc hs hcfg hbelow htop hreq hwrap he with ⟨_, _, _, _, _, _, _, hx, _⟩
  exact h.xalloced hx

theorem VmemInv.step {op : VmemOp} (h : VmemInv others J s)
    (hstep : Guarded (NoWrapStep cfg ops top) (VmemStep cfg ops J) s op s')
    : VmemInv others J s' := by
  rcases hstep with ⟨hguard, hstep⟩
  cases op with
  | add addr size =>
    rcases hstep with ⟨hpos, hfits, hlt, hdis, hJ, he, hw'⟩
    rcases h.good.add hpos ⟨hfits, hlt⟩ ⟨one_dvd _, one_dvd _⟩ hdis hJ he with ⟨hgood, hkeeps, _⟩
    refine ⟨hw' ▸ hgood, hkeeps.lock.trans h.lock, ?_⟩
    rw [hkeeps.allocs]
    exact h.two_le
  | xalloc req =>
    rcases hstep with ⟨hreq, fuel, addr, he⟩
    exact h.xalloc hs hcfg hbelow htop hreq hguard he
  | xfree addr size =>
    rcases hstep with ⟨hr, he⟩
    rcases h.good.xfree hs h.lock hr (h.two_le _ hr) he with ⟨hgood, hlock, _, hallocs, _⟩
    refine ⟨hgood, hlock, ?_⟩
    rw [hallocs]
    exact fun r hr => h.two_le r hr.1

theorem VmemInv.reach
    (hr : Reach (VmemStart cfg others J) (Guarded (NoWrapStep cfg ops top) (VmemStep cfg ops J)) s)
    : VmemInv others J s := by
  refine hr.invariant (fun s hs => VmemInv.init hs) ?_
  intro s op s' h hstep
  exact h.step hs hcfg hbelow htop hstep

end

theorem xalloc_honours (hs : Source ops 1 others J) (hcfg : cfg.disableAsserts = false)
    (hbelow : Below J top) (htop : top < 2 ^ 64)
    (hr : Reach (VmemStart cfg others J) (Guarded (NoWrapStep cfg ops top) (VmemStep cfg ops J)) s)
    {fuel a : Nat} {req : XallocReq} {vmp' : Vmem} {w' : World τ} (hreq : Request s.vmp.quantum req)
    (hwrap : NoWrap cfg ops top s.vmp req) (hserved : Served cfg ops s.vmp req)
    (he : vmemXalloc cfg ops fuel s.vmp s.world req = .ok (a, vmp', w'))
    : a % (effective s.vmp.quantum req).align = req.phase ∧ req.minaddr ≤ a ∧
        a + req.size ≤ req.maxaddr ∧
        (∃ x ∈ vmp'.segqueue, (vmp'.seg x).type = .allocated ∧ (vmp'.seg x).base = a ∧
          a + req.size ≤ (vmp'.seg x).base + (vmp'.seg x).size) ∧
        ∃ x ∈ s.vmp.segqueue, (s.vmp.seg x).type = .free ∧
          (s.vmp.seg x).base ≤ a ∧ a + req.size ≤ (s.vmp.seg x).base + (s.vmp.seg x).size := by
  have h := VmemInv.reach hs hcfg hbelow htop hr
  rcases h.good.xalloc hs hcfg hbelow htop hreq hwrap he with ⟨newSeg, newSeg2, x, vmp3, w3, vmp4, pool4,
    hx, hwithin⟩
  refine ⟨hwithin.phase, hwithin.minaddr, hwithin.maxaddr, ?_, ?_⟩
  . rw [hx.arena]
    rcases hx.found.allocs with ⟨sz, hle, _, hallocs⟩
    have hmem : (a, sz) ∈ vmp4.ranges [] .allocated := hallocs ▸ Set.mem_insert _ _
    rcases hmem with ⟨y, hy, _, hyt, hyr⟩
    have hbase : (vmp4.seg y).base = a := congrArg Prod.fst hyr
    have hsize : (vmp4.seg y).size = sz := congrArg Prod.snd hyr
    exact ⟨y, hy, hyt, hbase, by
      show a + req.size ≤ (vmp4.seg y).base + (vmp4.seg y).size
      omega⟩
  . rw [hx.served hserved] at hwithin
    exact ⟨x, hwithin.mem, hwithin.free, hwithin.low, hwithin.high⟩

end Run

theorem vmemStart_arenaAt {base size quantum : Nat} {source : Bool} {vmp : Vmem} {pool : SegPool}
    {J : Unit → Set (Nat × Nat) → Prop} (he : arenaAt base size quantum source = .ok (vmp, pool))
    (hfits : base + size ≤ 2 ^ 64) (hlt : size < 2 ^ 64) (hJ : J () (vmp.ranges [] .span))
    : VmemStart ⟨false⟩ (fun _ => []) J ⟨vmp, ⟨pool, 0, ()⟩⟩ :=
  ⟨_, _, base, size, quantum, source, hfits, hlt, .vmemBootstrap, he, hJ⟩

def kernelVa : Except Fault (Vmem × SegPool) :=
  arenaAt 0xFFFFE00000000000 (2 ^ 40) 4096 false

def EndsBefore (_ : Unit) (held : Set (Nat × Nat)) : Prop :=
  ∀ r ∈ held, r.1 + r.2 ≤ 0xFFFFE10000000000

theorem kernelVa_xalloc (req : XallocReq) (a : Nat)
    (hrun : (do
      let (vmp, pool) ← kernelVa
      let (a, _, _) ← vmemXalloc ⟨false⟩ ownSpan 1 vmp ⟨pool, 0, ()⟩ req
      return a) = .ok a)
    : ∃ (s : VmemState Unit) (vmp' : Vmem) (w' : World Unit),
        VmemStart ⟨false⟩ (fun _ => []) EndsBefore s ∧ s.vmp.quantum = 4096 ∧
        (∀ x ∈ s.vmp.segqueue, s.vmp.range x = (0xFFFFE00000000000, 2 ^ 40)) ∧
        vmemXalloc ⟨false⟩ ownSpan 1 s.vmp s.world req = .ok (a, vmp', w') := by
  rcases Except.bind_eq_ok hrun with ⟨⟨vmp, pool⟩, hinit, hrun⟩
  rcases Except.bind_eq_ok hrun with ⟨⟨a', vmp', w'⟩, halloc, hrun⟩
  cases hrun
  have hsegs : kernelVa.map (fun r => (r.1.quantum, r.1.segqueue.map r.1.range)) =
      .ok (4096, [(0xFFFFE00000000000, 2 ^ 40), (0xFFFFE00000000000, 2 ^ 40)]) := by
    decide
  rw [hinit] at hsegs
  injection hsegs with hsegs
  injection hsegs with hquantum hsegs
  have hall : ∀ x ∈ vmp.segqueue, vmp.range x = (0xFFFFE00000000000, 2 ^ 40) := by
    intro x hx
    have hmem := List.mem_map_of_mem (f := vmp.range) hx
    rw [hsegs] at hmem
    simpa using hmem
  refine ⟨⟨vmp, ⟨pool, 0, ()⟩⟩, vmp', w', ?_, hquantum, hall, halloc⟩
  refine vmemStart_arenaAt hinit (by decide) (by decide) ?_
  rintro r ⟨x, hx, _, _, rfl⟩
  rw [hall x hx]
  decide

def phased : XallocReq := ⟨4096, 0x2000, 0x1000, 0, 0xFFFFE00000004000, 0xFFFFE00000010000, 0⟩

theorem kernelVa_phased
    : ∃ (s : VmemState Unit) (vmp' : Vmem) (w' : World Unit),
        VmemStart ⟨false⟩ (fun _ => []) EndsBefore s ∧ s.vmp.quantum = 4096 ∧
        (∀ x ∈ s.vmp.segqueue, s.vmp.range x = (0xFFFFE00000000000, 2 ^ 40)) ∧
        vmemXalloc ⟨false⟩ ownSpan 1 s.vmp s.world phased = .ok (0xFFFFE00000005000, vmp', w') ∧
        Request s.vmp.quantum phased := by
  rcases kernelVa_xalloc phased 0xFFFFE00000005000 (by decide +kernel) with
    ⟨s, vmp', w', hstart, hquantum, hall, he⟩
  refine ⟨s, vmp', w', hstart, hquantum, hall, he, ?_⟩
  rw [hquantum]
  exact ⟨by decide, by decide, ⟨13, by decide, rfl⟩, by decide, by decide, by decide⟩

theorem xalloc_honours_phase
    : ∃ (s : VmemState Unit) (vmp' : Vmem) (w' : World Unit),
        vmemXalloc ⟨false⟩ ownSpan 1 s.vmp s.world phased = .ok (0xFFFFE00000005000, vmp', w') ∧
        (∃ x ∈ vmp'.segqueue, (vmp'.seg x).type = .allocated ∧
          (vmp'.seg x).base = 0xFFFFE00000005000) ∧
        ∃ x ∈ s.vmp.segqueue, (s.vmp.seg x).type = .free ∧
          (s.vmp.seg x).base ≤ 0xFFFFE00000005000 ∧
          0xFFFFE00000005000 + 4096 ≤ (s.vmp.seg x).base + (s.vmp.seg x).size := by
  rcases kernelVa_phased with ⟨s, vmp', w', hstart, hquantum, _, he, hreq⟩
  have hwrap : NoWrap ⟨false⟩ ownSpan 0xFFFFE10000000000 s.vmp phased := by
    left
    rw [hquantum]
    decide
  have h := xalloc_honours (ownSpan_source 1 (J := EndsBefore ())) rfl (fun _ _ hheld => hheld)
    (by decide) (.start hstart) hreq hwrap (.inl rfl) he
  rcases h.2.2.2.1 with ⟨x, hx, ht, hbase, _⟩
  exact ⟨s, vmp', w', he, ⟨x, hx, ht, hbase⟩, h.2.2.2.2⟩

theorem xalloc_leaves_arena
    : ∃ (s : VmemState Unit) (vmp' : Vmem) (w' : World Unit),
        VmemStart ⟨false⟩ (fun _ => []) (fun _ _ => True) s ∧
        (∀ x ∈ s.vmp.segqueue, (s.vmp.seg x).base + (s.vmp.seg x).size < 2 ^ 64) ∧
        s.vmp.quantum = 4096 ∧ Request s.vmp.quantum ⟨4096, 2 ^ 46, 0, 0, 0, 2 ^ 64 - 1, 0⟩ ∧
        vmemXalloc ⟨false⟩ ownSpan 1 s.vmp s.world ⟨4096, 2 ^ 46, 0, 0, 0, 2 ^ 64 - 1, 0⟩ =
          .ok (2 ^ 46, vmp', w') ∧
        ¬ ∃ x ∈ s.vmp.segqueue, (s.vmp.seg x).type = .free ∧
          (s.vmp.seg x).base ≤ 2 ^ 46 ∧ 2 ^ 46 + 4096 ≤ (s.vmp.seg x).base + (s.vmp.seg x).size := by
  rcases kernelVa_xalloc ⟨4096, 2 ^ 46, 0, 0, 0, 2 ^ 64 - 1, 0⟩ (2 ^ 46) (by decide +kernel)
    with ⟨s, vmp', w', hstart, hquantum, hall, he⟩
  have hseg : ∀ x ∈ s.vmp.segqueue,
      (s.vmp.seg x).base = 0xFFFFE00000000000 ∧ (s.vmp.seg x).size = 2 ^ 40 := by
    intro x hx
    have hx := hall x hx
    exact ⟨congrArg Prod.fst hx, congrArg Prod.snd hx⟩
  refine ⟨s, vmp', w', ?_, ?_, hquantum, ?_, he, ?_⟩
  . rcases hstart with ⟨ret, pool, base, size, quantum, source, hfits, hlt, hpool, hinit, _⟩
    exact ⟨ret, pool, base, size, quantum, source, hfits, hlt, hpool, hinit, trivial⟩
  . intro x hx
    rw [(hseg x hx).1, (hseg x hx).2]
    decide
  . rw [hquantum]
    exact ⟨by decide, by decide, ⟨46, by decide, rfl⟩, by decide, by decide, by decide⟩
  . rintro ⟨x, hx, _, hbase, _⟩
    rw [(hseg x hx).1] at hbase
    exact absurd hbase (by decide)

end Vmem
end Nyy
