import NyyKernel.Vmem.Xalloc

namespace Nyy
namespace Vmem

def Apart (vmp : Vmem) (addr size : Nat) : Prop :=
  ∀ r ∈ vmp.ranges [] .span, RangeDisjoint (addr, size) r ∨
    (r.1 ≤ addr ∧ addr + size ≤ r.1 + r.2)

section Contains

variable {vmp : Vmem} {addr size : Nat}

theorem vmemContains_of_inside (hfits : addr + size < 2 ^ 64)
    (hbelow : ∀ r ∈ vmp.ranges [] .span, r.1 + r.2 < 2 ^ 64) {r : Nat × Nat} (hr : r ∈ vmp.ranges [] .span)
    (hlow : r.1 ≤ addr) (hhigh : addr + size ≤ r.1 + r.2)
    : vmemContains vmp addr size = true := by
  have hend := hbelow r hr
  rcases hr with ⟨x, hx, _, _, rfl⟩
  unfold vmemContains
  rw [List.any_eq_true]
  refine ⟨x, hx, ?_⟩
  rw [Word.add_eq hfits, Word.add_eq (show (vmp.seg x).base + (vmp.seg x).size < 2 ^ 64 from hend)]
  simpa using ⟨hlow, hhigh⟩

section

variable (h : Inv vmp []) (hfits : addr + size < 2 ^ 64)
  (hbelow : ∀ r ∈ vmp.ranges [] .span, r.1 + r.2 < 2 ^ 64)

include h hfits hbelow

theorem Inv.inside_of_vmemContains (hc : vmemContains vmp addr size = true)
    : ∃ r ∈ vmp.ranges [] .span, r.1 ≤ addr ∧ addr + size ≤ r.1 + r.2 := by
  unfold vmemContains at hc
  rcases List.any_eq_true.mp hc with ⟨x, hx, hc⟩
  simp only [ge_iff_le, Bool.and_eq_true, decide_eq_true_eq] at hc
  -- the segment is a span or inside of one
  have hspan : ∃ r ∈ vmp.ranges [] .span, r.1 ≤ (vmp.seg x).base ∧
      (vmp.seg x).base + (vmp.seg x).size ≤ r.1 + r.2 := by
    by_cases ht : (vmp.seg x).type = .span
    . exact ⟨vmp.range x, ⟨x, hx, by simp, ht, rfl⟩, Nat.le_refl _, Nat.le_refl _⟩
    . exact h.ranges_inside ht ⟨x, hx, by simp, rfl, rfl⟩
  rcases hspan with ⟨r, hr, hlow, hhigh⟩
  have hend := hbelow r hr
  rw [Word.add_eq hfits, Word.add_eq (by omega)] at hc
  exact ⟨r, hr, by omega, by omega⟩

theorem Inv.accepts_iff
    : (vmemContains vmp addr size = false →
        ∀ r ∈ vmp.ranges [] .span, RangeDisjoint (addr, size) r) ↔ Apart vmp addr size := by
  constructor
  . intro hall r hr
    cases hc : vmemContains vmp addr size with
    | false => exact .inl (hall hc r hr)
    | true =>
      rcases h.inside_of_vmemContains hfits hbelow hc with ⟨s, hs, hlow, hhigh⟩
      by_cases heq : r = s
      . exact .inr (heq ▸ ⟨hlow, hhigh⟩)
      . -- the other spans are away from the one around the range
        left
        have hdis := h.spans_pairwise hr hs heq
        unfold RangeDisjoint at hdis ⊢
        dsimp only
        omega
  . intro hapart hc r hr
    rcases hapart r hr with hdis | ⟨hlow, hhigh⟩
    . exact hdis
    . rw [vmemContains_of_inside hfits hbelow hr hlow hhigh] at hc
      cases hc

end

end Contains

section Run

variable {τ : Type} (cfg : Config) (ops : VmemOps τ) (J : τ → Set (Nat × Nat) → Prop)

def AddStep (s : VmemState τ) : VmemOp → VmemState τ → Prop
  | .add addr size, s' => 0 < size ∧
    J s.world.ext (insert (addr, size) (s.vmp.ranges [] .span)) ∧
    vmemAdd cfg s.vmp s.world.pool addr size = .ok (s'.vmp, s'.world.pool) ∧
    s'.world = { s.world with pool := s'.world.pool }
  | op, s' => VmemStep cfg ops J s op s'

def AddGuard (top : Nat) (s : VmemState τ) : VmemOp → Prop
  | .add addr size => Apart s.vmp addr size
  | op => NoWrapStep cfg ops top s op

end Run

section Run

variable {τ : Type} {cfg : Config} {ops : VmemOps τ} {others : τ → List SegId}
  {J : τ → Set (Nat × Nat) → Prop} {top : Nat} {s s' : VmemState τ}

theorem VmemInv.below (hbelow : Below J top) (htop : top < 2 ^ 64) (h : VmemInv others J s)
    : ∀ r ∈ s.vmp.ranges [] .span, r.1 + r.2 < 2 ^ 64 :=
  fun r hr => Nat.lt_of_le_of_lt (hbelow _ _ h.good.source r hr) htop

theorem VmemInv.add_step (hcfg : cfg.disableAsserts = false) (hbelow : Below J top) (htop : top < 2 ^ 64)
    {op : VmemOp} (h : VmemInv others J s)
    (hstep : Guarded (AddGuard cfg ops top) (AddStep cfg ops J) s op s')
    : Guarded (NoWrapStep cfg ops top) (VmemStep cfg ops J) s op s' := by
  rcases hstep with ⟨hguard, hstep⟩
  cases op with
  | xalloc req => exact ⟨hguard, hstep⟩
  | xfree addr size => exact ⟨hguard, hstep⟩
  | add addr size =>
    rcases hstep with ⟨hpos, hJ, he, hw'⟩
    have hend := hbelow _ _ hJ (addr, size) (Set.mem_insert _ _)
    have hfits : addr + size < 2 ^ 64 := Nat.lt_of_le_of_lt hend htop
    have hrefused : vmemContains s.vmp addr size = false := by
      have hcheck := he
      unfold vmemAdd at hcheck
      rcases Except.bind_eq_ok hcheck with ⟨_, hcheck, _⟩
      simpa [hcfg] using check_eq_ok hcheck
    have hdis := (h.good.inv.accepts_iff hfits (h.below hbelow htop)).mpr hguard hrefused
    exact ⟨trivial, hpos, Nat.le_of_lt hfits, by omega, hdis, hJ, he, hw'⟩

theorem VmemInv.reach_add (hs : Source ops 1 others J) (hcfg : cfg.disableAsserts = false)
    (hbelow : Below J top) (htop : top < 2 ^ 64)
    (hr : Reach (VmemStart cfg others J) (Guarded (AddGuard cfg ops top) (AddStep cfg ops J)) s)
    : VmemInv others J s := by
  refine hr.invariant (fun s hs => VmemInv.init hs) ?_
  intro s op s' h hstep
  exact h.step hs hcfg hbelow htop (h.add_step hcfg hbelow htop hstep)

theorem add_keeps_disjoint (hs : Source ops 1 others J) (hcfg : cfg.disableAsserts = false)
    (hbelow : Below J top) (htop : top < 2 ^ 64)
    (hr : Reach (VmemStart cfg others J) (Guarded (AddGuard cfg ops top) (AddStep cfg ops J)) s)
    : (∀ x ∈ s.vmp.segqueue, ∀ y ∈ s.vmp.segqueue, x ≠ y → (s.vmp.seg x).type = .span →
        (s.vmp.seg y).type = .span → RangeDisjoint (s.vmp.range x) (s.vmp.range y)) ∧
        ∀ addr size, addr + size < 2 ^ 64 →
          ((vmemContains s.vmp addr size = false →
            ∀ r ∈ s.vmp.ranges [] .span, RangeDisjoint (addr, size) r) ↔ Apart s.vmp addr size) := by
  have h := VmemInv.reach_add hs hcfg hbelow htop hr
  refine ⟨h.good.inv.spans.disjoint, ?_⟩
  intro addr size hfits
  exact h.good.inv.accepts_iff hfits (h.below hbelow htop)

end Run

def addTo (addr size : Nat) : Except Fault (Vmem × SegPool × Vmem × SegPool) := do
  let (vmp, pool) ← arenaAt 0x1000 0x2000 4096 false
  let (vmp', pool') ← vmemAdd ⟨false⟩ vmp pool addr size
  return (vmp, pool, vmp', pool')

theorem addTo_eq_ok {addr size : Nat} {vmp vmp' : Vmem} {pool pool' : SegPool} (hpos : 0 < size)
    (hbelow : addr + size ≤ 2 ^ 32) (he : addTo addr size = .ok (vmp, pool, vmp', pool'))
    : VmemStart ⟨false⟩ (fun _ => []) (fun _ held => ∀ r ∈ held, r.1 + r.2 ≤ 2 ^ 32)
          (⟨vmp, ⟨pool, 0, ()⟩⟩ : VmemState Unit) ∧
        AddStep ⟨false⟩ ownSpan (fun _ held => ∀ r ∈ held, r.1 + r.2 ≤ 2 ^ 32) ⟨vmp, ⟨pool, 0, ()⟩⟩
          (.add addr size) ⟨vmp', ⟨pool', 0, ()⟩⟩ ∧
        vmp.ranges [] .span = {(0x1000, 0x2000)} := by
  rcases Except.bind_eq_ok he with ⟨⟨_, _⟩, hinit, he⟩
  rcases Except.bind_eq_ok he with ⟨⟨_, _⟩, hadd, he⟩
  cases he
  have hspans : vmp.ranges [] .span = {(0x1000, 0x2000)} :=
    (vmemInit_spec .vmemBootstrap (by decide) (by decide) hinit).1.spans
  have hends : ∀ r ∈ vmp.ranges [] .span, r.1 + r.2 ≤ 2 ^ 32 := by
    rw [hspans]
    rintro r rfl
    decide
  refine ⟨?_, ⟨hpos, ?_, hadd, rfl⟩, hspans⟩
  . exact vmemStart_arenaAt hinit (by decide) (by decide) hends
  . rintro r (rfl | hr)
    . exact hbelow
    . exact hends r hr

theorem add_keeps_disjoint_behind
    : ∃ s : VmemState Unit,
        s.vmp.segqueue.map s.vmp.range =
          [(0x1000, 0x2000), (0x1000, 0x2000), (0x3000, 0x1000), (0x3000, 0x1000)] ∧
        ∀ x ∈ s.vmp.segqueue, ∀ y ∈ s.vmp.segqueue, x ≠ y → (s.vmp.seg x).type = .span →
          (s.vmp.seg y).type = .span → RangeDisjoint (s.vmp.range x) (s.vmp.range y) := by
  have hrun : (addTo 0x3000 0x1000).map
      (fun r : Vmem × SegPool × Vmem × SegPool => r.2.2.1.segqueue.map r.2.2.1.range) =
        .ok [(0x1000, 0x2000), (0x1000, 0x2000), (0x3000, 0x1000), (0x3000, 0x1000)] := by
    decide
  rcases Except.map_eq_ok hrun with ⟨⟨vmp, pool, vmp', pool'⟩, he, hranges⟩
  rcases addTo_eq_ok (by decide) (by decide) he with ⟨hstart, hstep, hspans⟩
  have hapart : Apart vmp 0x3000 0x1000 := by
    unfold Apart
    rw [hspans]
    rintro r rfl
    exact .inl (.inr (by decide))
  have hguarded : Guarded (AddGuard ⟨false⟩ ownSpan (2 ^ 32)) (AddStep ⟨false⟩ ownSpan _)
      ⟨vmp, ⟨pool, 0, ()⟩⟩ (.add 0x3000 0x1000) ⟨vmp', ⟨pool', 0, ()⟩⟩ := ⟨hapart, hstep⟩
  exact ⟨_, hranges, (add_keeps_disjoint (ownSpan_source 1) rfl (fun _ _ hheld => hheld) (by decide)
    (.next (.start hstart) hguarded)).1⟩

theorem add_overlaps_span
    : ∃ s s' : VmemState Unit,
        VmemStart ⟨false⟩ (fun _ => []) (fun _ held => ∀ r ∈ held, r.1 + r.2 ≤ 2 ^ 32) s ∧
        AddStep ⟨false⟩ ownSpan (fun _ held => ∀ r ∈ held, r.1 + r.2 ≤ 2 ^ 32) s
          (.add 0x2000 0x2000) s' ∧
        vmemContains s.vmp 0x2000 0x2000 = false ∧ s.vmp.ranges [] .span = {(0x1000, 0x2000)} ∧
        (0x1000, 0x2000) ∈ s'.vmp.ranges [] .span ∧ (0x2000, 0x2000) ∈ s'.vmp.ranges [] .span ∧
        ¬ RangeDisjoint (0x1000, 0x2000) (0x2000, 0x2000) := by
  have hrun : (addTo 0x2000 0x2000).map (fun r : Vmem × SegPool × Vmem × SegPool =>
      (vmemContains r.1 0x2000 0x2000, (r.2.2.1.segqueue.filter
        fun x => (r.2.2.1.seg x).type == .span).map r.2.2.1.range)) =
        .ok (false, [(0x1000, 0x2000), (0x2000, 0x2000)]) := by
    decide
  rcases Except.map_eq_ok hrun with ⟨⟨vmp, pool, vmp', pool'⟩, he, hfacts⟩
  injection hfacts with hcontains hranges
  rcases addTo_eq_ok (by decide) (by decide) he with ⟨hstart, hstep, hspans⟩
  have hmem : ∀ r ∈ [(0x1000, 0x2000), (0x2000, 0x2000)], r ∈ vmp'.ranges [] .span := by
    rw [← hranges]
    intro r hr
    rcases List.mem_map.mp hr with ⟨x, hx, rfl⟩
    rw [List.mem_filter] at hx
    exact ⟨x, hx.1, by simp, by simpa using hx.2, rfl⟩
  refine ⟨_, _, hstart, hstep, hcontains, hspans, hmem _ (by simp), hmem _ (by simp), ?_⟩
  unfold RangeDisjoint
  decide

end Vmem
end Nyy
