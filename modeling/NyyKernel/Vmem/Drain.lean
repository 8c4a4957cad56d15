import NyyKernel.Vmem.Import

namespace Nyy
namespace Vmem

open Tiling

section Layout

variable {vmp : Vmem}

def layout (vmp : Vmem) : List Block := vmp.segqueue.map fun x => (vmp.seg x).block

theorem layout_eq_blocks : vmp.layout = vmp.blocks [] vmp.segqueue := by
  unfold layout blocks
  apply List.map_congr_left
  intro x _
  rw [block_attached _ (by simp)]
  rfl

theorem Inv.layout_groups (h : Inv vmp []) (hnone : vmp.ranges [] .allocated = ∅)
    : ∃ gs : List Group, vmp.layout = gs.flatMap Group.toList ∧
        ∀ g ∈ gs, g.toList = [⟨.span, g.span.base, g.span.size⟩, ⟨.free, g.span.base, g.span.size⟩] := by
  rcases h.tiled.groups with ⟨gs, hgs⟩
  rw [← layout_eq_blocks] at hgs
  refine ⟨gs, hgs, ?_⟩
  intro g hg
  have hmem : ∀ b ∈ g.toList, ∃ x ∈ vmp.segqueue, (vmp.seg x).block = b := by
    intro b hb
    have hb' : b ∈ vmp.layout := by
      rw [hgs]
      exact List.mem_flatMap.mpr ⟨g, hg, hb⟩
    exact List.mem_map.mp hb'
  have hpos : 0 < g.span.size := by
    rcases hmem g.span List.mem_cons_self with ⟨x, hx, hxb⟩
    rw [← hxb]
    exact h.size_pos hx
  have hfree : ∀ b ∈ g.blocks, b.kind = .free := by
    intro b hb
    cases hk : b.kind with
    | free => rfl
    | span => exact absurd hk (g.not_span b hb)
    | used =>
      rcases hmem b (List.mem_cons_of_mem _ hb) with ⟨x, hx, rfl⟩
      have ht : (vmp.seg x).type = .allocated := SegType.kind_eq_used.mp hk
      have : vmp.range x ∈ vmp.ranges [] .allocated := ⟨x, hx, by simp, ht, rfl⟩
      simp [hnone] at this
  have hspan : g.span = ⟨.span, g.span.base, g.span.size⟩ := by
    rw [← g.is_span]
  unfold Group.toList
  rw [g.blocks_of_free hfree hpos]
  exact congrArg (· :: _) hspan

theorem Inv.layout_empty (h : Inv vmp []) (hspans : vmp.ranges [] .span = ∅)
    : vmp.layout = [] := by
  have hempty : vmp.segqueue = [] := by
    by_contra hne
    rcases List.exists_mem_of_ne_nil _ hne with ⟨x, hx⟩
    have hmarker : ∃ s ∈ vmp.segqueue, (vmp.seg s).type = .span := by
      by_cases hxt : (vmp.seg x).type = .span
      . exact ⟨x, hx, hxt⟩
      . rcases h.exists_span hx hxt with ⟨s, hs, hst, _⟩
        exact ⟨s, hs, hst⟩
    rcases hmarker with ⟨s, hs, hst⟩
    have : vmp.range s ∈ vmp.ranges [] .span := ⟨s, hs, by simp, hst, rfl⟩
    simp [hspans] at this
  unfold layout
  rw [hempty]
  rfl

theorem Inv.layout_single (h : Inv vmp []) (hnone : vmp.ranges [] .allocated = ∅) {r : Nat × Nat}
    (hspans : vmp.ranges [] .span = {r})
    : vmp.layout = [⟨.span, r.1, r.2⟩, ⟨.free, r.1, r.2⟩] := by
  rcases h.layout_groups hnone with ⟨gs, hgs, hshape⟩
  have hspan : ∀ x ∈ vmp.segqueue, (vmp.seg x).block.kind = .span → vmp.range x = r := by
    intro x hx hk
    have hxr : vmp.range x ∈ vmp.ranges [] .span :=
      ⟨x, hx, by simp, SegType.kind_eq_span.mp hk, rfl⟩
    rwa [hspans] at hxr
  cases gs with
  | nil =>
    have hr : r ∈ vmp.ranges [] .span := hspans ▸ rfl
    rcases hr with ⟨x, hx, _⟩
    have := List.mem_map_of_mem (f := fun x => (vmp.seg x).block) hx
    change _ ∈ vmp.layout at this
    simp [hgs] at this
  | cons g gs =>
    rw [List.flatMap_cons, hshape g List.mem_cons_self] at hgs
    cases gs with
    | nil =>
      have hx : ∃ x ∈ vmp.segqueue, (vmp.seg x).block = ⟨.span, g.span.base, g.span.size⟩ := by
        apply List.mem_map.mp
        change _ ∈ vmp.layout
        simp [hgs]
      rcases hx with ⟨x, hx, hxb⟩
      have hxr := hspan x hx (by rw [hxb])
      have hb : (vmp.seg x).base = g.span.base := congrArg Block.base hxb
      have hsz : (vmp.seg x).size = g.span.size := congrArg Block.size hxb
      rw [hgs, ← hxr]
      simp [range, hb, hsz]
    | cons g' gs =>
      -- two markers would have the same range
      exfalso
      rw [List.flatMap_cons, hshape g' (by simp)] at hgs
      unfold layout at hgs
      rcases List.map_eq_cons_iff.mp hgs with ⟨x, l1, hq, hx, hgs⟩
      rcases List.map_eq_cons_iff.mp hgs with ⟨x2, l2, hl1, _, hgs⟩
      rcases List.map_eq_cons_iff.mp hgs with ⟨y, l3, hl2, hy, _⟩
      rw [hl1, hl2] at hq
      have hxq : x ∈ vmp.segqueue := by simp [hq]
      have hyq : y ∈ vmp.segqueue := by simp [hq]
      have hne : x ≠ y := by
        have hnodup := h.nodup
        rw [hq] at hnodup
        simp only [List.nodup_cons, List.mem_cons, not_or] at hnodup
        exact hnodup.1.2.1
      have hxk : (vmp.seg x).block.kind = .span := by rw [hx]
      have hyk : (vmp.seg y).block.kind = .span := by rw [hy]
      refine h.range_ne_of_span hxq hyq hne (SegType.kind_eq_span.mp hxk)
        (SegType.kind_eq_span.mp hyk) ?_
      rw [hspan x hxq hxk, hspan y hyq hyk]

end Layout

section Paid

variable {τ : Type} {cfg : Config} {ops : VmemOps τ} {q : Nat} {others : τ → List SegId}
  {J : τ → Set (Nat × Nat) → Prop} {vmp vmp' : Vmem} {w w' : World τ} {own : Set (Nat × Nat)}

structure Paid (ops : VmemOps τ) (own : Set (Nat × Nat)) (vmp : Vmem) : Prop where
  keeps : own ⊆ vmp.ranges [] .span
  native : ∀ y ∈ vmp.segqueue, (vmp.seg y).type = .span → vmp.range y ∈ own →
    (vmp.seg y).imported = false
  foreign : ∀ y ∈ vmp.segqueue, (vmp.seg y).type = .span → vmp.range y ∉ own →
    (vmp.seg y).imported = true ∧ vmp.range y ∈ vmp.ranges [] .allocated ∧ ops.alloc ≠ none

theorem Markers.range_eq {y : SegId} (h : Markers vmp vmp') (hy : y ∈ vmp'.segqueue)
    (hyt : (vmp'.seg y).type = .span)
    : vmp'.range y = vmp.range y := by
  unfold range
  rw [(h y hy hyt).2]

theorem Paid.of_markers (h : Paid ops own vmp) (hm : Markers vmp vmp') (hown : own ⊆ vmp'.ranges [] .span)
    (hused : ∀ y ∈ vmp.segqueue, (vmp.seg y).type = .span → (vmp.seg y).imported = true →
      ops.alloc ≠ none → vmp.range y ∈ vmp'.ranges [] .span →
      vmp.range y ∈ vmp.ranges [] .allocated → vmp.range y ∈ vmp'.ranges [] .allocated)
    : Paid ops own vmp' := by
  refine ⟨hown, ?_, ?_⟩
  . intro y hy hyt hmem
    rcases hm y hy hyt with ⟨hyq, hseg⟩
    rw [hm.range_eq hy hyt] at hmem
    rw [hseg] at hyt ⊢
    exact h.native y hyq hyt hmem
  . intro y hy hyt hmem
    rcases hm y hy hyt with ⟨hyq, hseg⟩
    have hspan : vmp'.range y ∈ vmp'.ranges [] .span := ⟨y, hy, by simp, hyt, rfl⟩
    rw [hm.range_eq hy hyt] at hmem hspan ⊢
    rw [hseg] at hyt ⊢
    rcases h.foreign y hyq hyt hmem with ⟨himported, hrange, halloc⟩
    exact ⟨himported, hused y hyq hyt himported halloc hspan hrange, halloc⟩

theorem Paid.imported {size addr : Nat} {flag : BitVec 32} {ext' : τ} (h : Paid ops own vmp)
    (hi : Imported ops vmp w size flag vmp' ext' addr)
    (hallocs : vmp'.ranges [] .allocated = insert (addr, size) (vmp.ranges [] .allocated))
    : Paid ops own vmp' := by
  have hown : (addr, size) ∉ own := fun hmem => hi.fresh (h.keeps hmem)
  rcases hi.call with ⟨alloc, _, halloc, _⟩
  refine ⟨?_, ?_, ?_⟩
  . rw [hi.spans]
    exact h.keeps.trans (Set.subset_insert _ _)
  . intro y hy hyt hmem
    rcases hi.markers y hy hyt with ⟨hyq, hseg⟩ | ⟨_, hrange⟩
    . unfold range at hmem
      rw [hseg] at hyt hmem ⊢
      exact h.native y hyq hyt hmem
    . exact absurd (hrange ▸ hmem) hown
  . intro y hy hyt hmem
    rw [hallocs]
    rcases hi.markers y hy hyt with ⟨hyq, hseg⟩ | ⟨himported, hrange⟩
    . unfold range at hmem ⊢
      rw [hseg] at hyt hmem ⊢
      rcases h.foreign y hyq hyt hmem with ⟨himported, hrange, hsome⟩
      exact ⟨himported, Set.mem_insert_of_mem _ hrange, hsome⟩
    . rw [hrange]
      exact ⟨himported, Set.mem_insert _ _, by simp [halloc]⟩

theorem Paid.freed (hboth : ops.alloc ≠ none → ops.free ≠ none) {r : Nat × Nat} (hinv : Inv vmp [])
    (h : Paid ops own vmp) (ho : XfreeOutcome ops vmp w r (.ok (vmp', w')))
    : Paid ops own vmp' := by
  cases ho with
  | kept _ _ hres hfreed hspans hpart =>
    cases hres
    refine h.of_markers hfreed.markers (hspans ▸ h.keeps) ?_
    intro y hy hyt himported halloc _ hrange
    rw [hfreed.allocs]
    exact ⟨hrange, hpart (hboth halloc) y hy hyt himported⟩
  | released free span _ _ hfree hres hfreed hspan himported hinside hspans =>
    rcases Except.map_eq_ok hres.symm with ⟨w1, hw1, heq⟩
    cases heq
    rcases himported with ⟨y0, hy0, hy0t, himported0, rfl⟩
    refine h.of_markers hfreed.markers ?_ ?_
    . rw [hspans]
      intro p hp
      refine ⟨h.keeps hp, ?_⟩
      rintro rfl
      rw [h.native y0 hy0 hy0t hp] at himported0
      cases himported0
    . intro y hy hyt himported halloc hmem hrange
      rw [hfreed.allocs]
      refine ⟨hrange, ?_⟩
      intro heq
      -- both spans hold the first address of the allocation
      have hysize := hinv.size_pos hy
      have hyr : ((vmp.seg y).base, (vmp.seg y).size) = r := heq
      subst hyr
      have hyy0 : y = y0 := by
        apply hinv.span_unique hy hy0 hyt hy0t (p := (vmp.seg y).base)
        . omega
        . dsimp only [range] at hinside
          omega
      subst hyy0
      rw [hspans] at hmem
      exact hmem.2 rfl

theorem Paid.of_ops {ops' : VmemOps τ} (h : Paid ops own vmp)
    (halloc : ops.alloc ≠ none → ops'.alloc ≠ none)
    : Paid ops' own vmp := by
  refine ⟨h.keeps, h.native, ?_⟩
  intro y hy hyt hmem
  rcases h.foreign y hy hyt hmem with ⟨himported, hrange, hsome⟩
  exact ⟨himported, hrange, halloc hsome⟩

theorem Paid.alloc {n fuel size addr : Nat} {flag : BitVec 32} (hs : Source ops q others J)
    (hbelow : ∀ ext held, J ext held → ∀ r ∈ held, r.1 + r.2 < 2 ^ 64) (hn : n < 64) (hqn : q = 2 ^ n)
    (hcfg : cfg.disableAsserts = false) (hpos : 0 < size) (hlt : size < 2 ^ 64) (hdvd : q ∣ size)
    (h : Paid ops own vmp) (hserves : Serves q others J vmp w)
    (he : vmemAlloc cfg ops fuel vmp w size flag = .ok (addr, vmp', w'))
    : Paid ops own vmp' := by
  have hallocs := (hserves.alloc hs hn hqn hcfg hpos hlt hdvd he).2.1
  rcases hserves.alloc_cases hs hbelow hn hqn hcfg hpos hlt hdvd he with
    ⟨_, _, _, ⟨hspans, hmarkers, _⟩ | himported⟩
  . apply h.of_markers hmarkers (hspans ▸ h.keeps)
    intro y _ _ _ _ _ hrange
    rw [hallocs]
    exact Set.mem_insert_of_mem _ hrange
  . exact h.imported himported hallocs

theorem Paid.allocs_eq (hinv : Inv vmp []) (h : Paid ops ∅ vmp)
    : vmp.ranges [] .allocated = vmp.ranges [] .span := by
  have hspan : vmp.ranges [] .span ⊆ vmp.ranges [] .allocated := by
    rintro r ⟨y, hy, _, hyt, rfl⟩
    exact (h.foreign y hy hyt (Set.notMem_empty _)).2.1
  apply Set.Subset.antisymm _ hspan
  intro r hr
  rcases hinv.ranges_inside (by simp) hr with ⟨s, hs, hlow, hhigh⟩
  have heq : r = s := by
    by_contra hne
    have hpos : 0 < r.2 := by
      rcases hr with ⟨x, hx, _, _, rfl⟩
      exact hinv.size_pos hx
    rcases hinv.ranges_pairwise (by simp) hr (hspan hs) hne with hend | hend
    . omega
    . omega
  rw [heq]
  exact hs

theorem Paid.released {r : Nat × Nat} (hinv : Inv vmp []) (h : Paid ops ∅ vmp) (hops : ops.free ≠ none)
    {res : Except Fault (Vmem × World τ)} (hr : r ∈ vmp.ranges [] .allocated)
    (ho : XfreeOutcome ops vmp w r res)
    : ∃ free vmp' pool', ops.free = some free ∧ w.pool.Moves vmp.segqueue pool' vmp'.segqueue ∧
        res = (free r.1 r.2 ⟨pool', irqlDispatch, w.ext⟩).map
          fun w' => (vmp', { w' with irql := w.irql }) := by
  have hspan := hr
  rw [h.allocs_eq hinv] at hspan
  rcases hspan with ⟨y, hy, _, hyt, rfl⟩
  cases ho with
  | kept _ _ _ _ _ hpart =>
    exact absurd rfl (hpart hops y hy hyt (h.foreign y hy hyt (Set.notMem_empty _)).1)
  | released free span vmp' pool' hfree hres hfreed _ himported hinside _ =>
    rcases himported with ⟨z, hz, hzt, _, rfl⟩
    have hysize := hinv.size_pos hy
    have hyz : z = y := by
      apply hinv.span_unique hz hy hzt hyt (p := (vmp.seg y).base)
      . dsimp only [range] at hinside
        omega
      . omega
    subst hyz
    exact ⟨free, vmp', pool', hfree, hfreed.moves, hres⟩

end Paid

section Log

variable {τ : Type}

structure Logged (τ : Type) where
  ext : τ
  imports : List (Nat × Nat)
  releases : List (Nat × Nat)

def World.inner (w : World (Logged τ)) : World τ := ⟨w.pool, w.irql, w.ext.ext⟩

def logged (ops : VmemOps τ) : VmemOps (Logged τ) where
  allocPages l := (ops.allocPages l.ext).map fun ext => { l with ext := ext }
  alloc := ops.alloc.map fun alloc size flag w => (alloc size flag (World.inner w)).map
    fun (addr, w') => (addr, ⟨w'.pool, w'.irql, w'.ext,
      if addr = 0 then w.ext.imports else w.ext.imports ++ [(addr, size)], w.ext.releases⟩)
  free := ops.free.map fun free addr size w => (free addr size (World.inner w)).map
    fun w' => ⟨w'.pool, w'.irql, w'.ext, w.ext.imports, w.ext.releases ++ [(addr, size)]⟩

variable {ops : VmemOps τ} {addr : Nat} {w w' : World (Logged τ)}

theorem logged_allocPages {l l' : Logged τ} (h : (logged ops).allocPages l = .ok l')
    : ops.allocPages l.ext = .ok l'.ext ∧ l'.imports = l.imports ∧ l'.releases = l.releases := by
  rcases Except.map_eq_ok h with ⟨ext, hext, rfl⟩
  exact ⟨hext, rfl, rfl⟩

theorem logged_alloc {alloc : Nat → BitVec 32 → World (Logged τ) → Except Fault (Nat × World (Logged τ))}
    {size : Nat} {flag : BitVec 32} (h : (logged ops).alloc = some alloc)
    (he : alloc size flag w = .ok (addr, w'))
    : ∃ inner, ops.alloc = some inner ∧
        inner size flag (World.inner w) = .ok (addr, World.inner w') ∧
        w'.ext.imports = (if addr = 0 then w.ext.imports else w.ext.imports ++ [(addr, size)]) ∧
        w'.ext.releases = w.ext.releases := by
  rcases Option.map_eq_some_iff.mp h with ⟨inner, hinner, rfl⟩
  rcases Except.map_eq_ok he with ⟨⟨addr', w1⟩, hcall, heq⟩
  cases heq
  exact ⟨inner, hinner, hcall, rfl, rfl⟩

theorem logged_free {free : Nat → Nat → World (Logged τ) → Except Fault (World (Logged τ))} {size : Nat}
    (h : (logged ops).free = some free) (he : free addr size w = .ok w')
    : ∃ inner, ops.free = some inner ∧ inner addr size (World.inner w) = .ok (World.inner w') ∧
        w'.ext.imports = w.ext.imports ∧ w'.ext.releases = w.ext.releases ++ [(addr, size)] := by
  rcases Option.map_eq_some_iff.mp h with ⟨inner, hinner, rfl⟩
  rcases Except.map_eq_ok he with ⟨w1, hcall, rfl⟩
  exact ⟨inner, hinner, hcall, rfl, rfl⟩

theorem Source.logged {q : Nat} {others : τ → List SegId} {J : τ → Set (Nat × Nat) → Prop}
    (h : Source ops q others J)
    : Source (Vmem.logged ops) q (fun l => others l.ext) (fun l held => J l.ext held) := by
  constructor
  . intro l l' held hJ he
    exact h.pages hJ (logged_allocPages he).1
  . intro alloc halloc w w' size flag addr held mine hJ hpool hpos hlt hdvd he
    rcases logged_alloc halloc he with ⟨inner, hinner, hcall, _, _⟩
    have hspec := @Source.alloc _ _ _ _ _ h _ hinner (World.inner w) (World.inner w')
    exact hspec hJ hpool hpos hlt hdvd hcall
  . intro free hfree w w' held mine r hJ hpool hr he
    rcases logged_free hfree he with ⟨inner, hinner, hcall, _, _⟩
    have hspec := @Source.free _ _ _ _ _ h _ hinner (World.inner w) (World.inner w')
    exact hspec hJ hpool hr hcall

def Balanced (own spans : Set (Nat × Nat)) (l : Logged τ) : Prop :=
  ∃ held : List (Nat × Nat), held.Nodup ∧ (∀ r, r ∈ held ↔ r ∈ spans ∧ r ∉ own) ∧
    l.imports.Perm (l.releases ++ held)

variable {own spans : Set (Nat × Nat)} {l l' : Logged τ} {r : Nat × Nat}

theorem Balanced.congr (h : Balanced own spans l) (himports : l'.imports = l.imports)
    (hreleases : l'.releases = l.releases)
    : Balanced own spans l' := by
  unfold Balanced
  rw [himports, hreleases]
  exact h

theorem Balanced.import (h : Balanced own spans l) (hfresh : r ∉ spans) (hown : r ∉ own)
    (himports : l'.imports = l.imports ++ [r]) (hreleases : l'.releases = l.releases)
    : Balanced own (insert r spans) l' := by
  rcases h with ⟨held, hnodup, hmem, hperm⟩
  refine ⟨held ++ [r], ?_, ?_, ?_⟩
  . rw [List.nodup_append]
    refine ⟨hnodup, by simp, ?_⟩
    rintro a ha b hb rfl
    rw [List.mem_singleton] at hb
    subst hb
    exact hfresh ((hmem a).mp ha).1
  . intro s
    rw [List.mem_append, List.mem_singleton, hmem, Set.mem_insert_iff]
    constructor
    . rintro (⟨hs, hso⟩ | rfl)
      . exact ⟨.inr hs, hso⟩
      . exact ⟨.inl rfl, hown⟩
    . rintro ⟨rfl | hs, hso⟩
      . exact .inr rfl
      . exact .inl ⟨hs, hso⟩
  . rw [himports, hreleases, ← List.append_assoc]
    exact hperm.append_right _

theorem Balanced.release (h : Balanced own spans l) (hr : r ∈ spans) (hown : r ∉ own)
    (himports : l'.imports = l.imports) (hreleases : l'.releases = l.releases ++ [r])
    : Balanced own (spans \ {r}) l' := by
  rcases h with ⟨held, hnodup, hmem, hperm⟩
  refine ⟨held.erase r, hnodup.erase r, ?_, ?_⟩
  . intro s
    rw [hnodup.mem_erase_iff, hmem, Set.mem_sdiff, Set.mem_singleton_iff]
    tauto
  . rw [himports, hreleases, List.append_assoc]
    exact hperm.trans ((List.perm_cons_erase ((hmem r).mpr ⟨hr, hown⟩)).append_left _)

end Log

section Run

variable {τ : Type} {cfg : Config} {ops : VmemOps τ} {q : Nat} {others : τ → List SegId}
  {J : τ → Set (Nat × Nat) → Prop} {own : Set (Nat × Nat)} {s : ArenaState (Logged τ)}

structure PaidInv (ops : VmemOps τ) (q : Nat) (others : τ → List SegId) (J : τ → Set (Nat × Nat) → Prop)
    (own : Set (Nat × Nat)) (s : ArenaState (Logged τ)) : Prop where
  arena : ArenaInv q (fun l => others l.ext) (fun l held => J l.ext held) s
  paid : Paid (logged ops) own s.vmp
  balanced : Balanced own (s.vmp.ranges [] .span) s.world.ext

theorem PaidInv.alloc (hs : Source ops q others J)
    (hbelow : ∀ ext held, J ext held → ∀ r ∈ held, r.1 + r.2 < 2 ^ 64) {k : Nat} (hk : k < 64)
    (hqk : q = 2 ^ k) (hcfg : cfg.disableAsserts = false) {s s' : ArenaState (Logged τ)}
    {fuel size addr : Nat} {flag : BitVec 32} (hpos : 0 < size) (hlt : size < 2 ^ 64) (hdvd : q ∣ size)
    (h : PaidInv ops q others J own s)
    (hnext : ArenaInv q (fun l => others l.ext) (fun l held => J l.ext held) s')
    (he : vmemAlloc cfg (logged ops) fuel s.vmp s.world size flag = .ok (addr, s'.vmp, s'.world))
    : PaidInv ops q others J own s' := by
  have hpaid := h.paid.alloc hs.logged (fun l held => hbelow l.ext held) hk hqk hcfg hpos hlt hdvd
    h.arena.serves he
  rcases h.arena.serves.alloc_cases hs.logged (fun l held => hbelow l.ext held) hk hqk hcfg hpos hlt
    hdvd he with ⟨ext2, pool2, hext, hcase⟩
  have hbalanced : Balanced own (s.vmp.ranges [] .span) ext2 := by
    rcases hext with rfl | hext
    . exact h.balanced
    . rcases logged_allocPages hext with ⟨_, himports, hreleases⟩
      exact h.balanced.congr himports hreleases
  rcases hcase with ⟨hspans, _, hext'⟩ | himported
  . refine ⟨hnext, hpaid, ?_⟩
    rw [hspans, hext']
    exact hbalanced
  . refine ⟨hnext, hpaid, ?_⟩
    rcases himported.call with ⟨alloc, w1, halloc, hcall, hext'⟩
    rcases logged_alloc halloc hcall with ⟨_, _, _, himports, hreleases⟩
    rw [if_neg himported.nonzero] at himports
    rw [himported.spans, hext']
    exact hbalanced.import himported.fresh (fun hmem => himported.fresh (h.paid.keeps hmem)) himports
      hreleases

theorem PaidInv.free (hboth : ops.alloc ≠ none → ops.free ≠ none) (hq : 2 ≤ q)
    {s s' : ArenaState (Logged τ)} {addr size : Nat} (h : PaidInv ops q others J own s)
    (hmem : (addr, size) ∈ s.live)
    (hnext : ArenaInv q (fun l => others l.ext) (fun l held => J l.ext held) s')
    (he : vmemFree cfg (logged ops) s.vmp s.world addr size = .ok (s'.vmp, s'.world))
    : PaidInv ops q others J own s' := by
  rcases s' with ⟨vmp', w', live'⟩
  have hout := h.arena.serves.free_outcome hq ((h.arena.live _).mp hmem) he
  have hboth' : (logged ops).alloc ≠ none → (logged ops).free ≠ none := by
    unfold logged
    simpa using hboth
  refine ⟨hnext, h.paid.freed hboth' h.arena.serves.good.inv hout, ?_⟩
  cases hout with
  | kept _ _ hres _ hspans _ =>
    cases hres
    rw [hspans]
    exact h.balanced
  | released free span _ _ hfree hres _ hspan himported _ hspans =>
    rcases Except.map_eq_ok hres.symm with ⟨w1, hw1, heq⟩
    cases heq
    rcases logged_free hfree hw1 with ⟨_, _, _, himports, hreleases⟩
    rcases himported with ⟨y, hy, hyt, himported, rfl⟩
    rw [hspans]
    refine h.balanced.release hspan ?_ himports hreleases
    intro hown
    rw [h.paid.native y hy hyt hown] at himported
    cases himported

theorem PaidInv.step (hs : Source ops q others J)
    (hbelow : ∀ ext held, J ext held → ∀ r ∈ held, r.1 + r.2 < 2 ^ 64)
    (hboth : ops.alloc ≠ none → ops.free ≠ none) {k : Nat} (hk : 0 < k) (hk64 : k < 64) (hq : q = 2 ^ k)
    (hcfg : cfg.disableAsserts = false) {s' : ArenaState (Logged τ)} {op : ArenaOp}
    (h : PaidInv ops q others J own s) (hstep : ArenaStep cfg (logged ops) q s op s')
    : PaidInv ops q others J own s' := by
  have hnext := h.arena.step hs.logged hk hk64 hq hcfg hstep
  cases op with
  | alloc size vmflag =>
    rcases hstep with ⟨hpos, hlt, hdvd, fuel, addr, he, _⟩
    exact h.alloc hs hbelow hk64 hq hcfg hpos hlt hdvd hnext he
  | free addr size =>
    rcases hstep with ⟨hmem, he, _⟩
    have hq2 : 2 ≤ q := by
      rw [hq]
      exact Nat.le_self_pow (by omega) 2
    exact h.free hboth hq2 hmem hnext he

theorem PaidInv.drained (h : PaidInv ops q others J own s) (hlive : s.live = [])
    : s.vmp.ranges [] .allocated = ∅ ∧ s.vmp.ranges [] .span = own ∧
        s.world.ext.imports.Perm s.world.ext.releases := by
  have hnone : s.vmp.ranges [] .allocated = ∅ := by
    ext r
    rw [← h.arena.live, hlive]
    simp
  have hspans : s.vmp.ranges [] .span = own := by
    apply Set.Subset.antisymm _ h.paid.keeps
    rintro r ⟨y, hy, _, hyt, rfl⟩
    by_contra hmem
    have := (h.paid.foreign y hy hyt hmem).2.1
    simp [hnone] at this
  refine ⟨hnone, hspans, ?_⟩
  rcases h.balanced with ⟨held, _, hmem, hperm⟩
  have hheld : held = [] := by
    apply List.eq_nil_iff_forall_not_mem.mpr
    intro r hr
    have := (hmem r).mp hr
    rw [hspans] at this
    exact this.2 this.1
  rw [hheld, List.append_nil] at hperm
  exact hperm

theorem vmemInit_spans {ret vmp : Vmem} {pool pool' : SegPool} {base size : Nat} {source : Bool}
    {ids : List SegId} (hpool : pool.Ok ids)
    (he : vmemInit cfg ret pool base size q source = .ok (vmp, pool'))
    : (∀ y ∈ vmp.segqueue, (vmp.seg y).type = .span → (vmp.seg y).imported = false) ∧
        (vmp.ranges [] .span = ∅ ∨ ∃ r, vmp.ranges [] .span = {r}) := by
  unfold vmemInit at he
  dsimp only at he
  split at he
  . unfold vmemAdd at he
    rcases Except.bind_eq_ok he with ⟨_, _, he⟩
    rcases Except.bind_eq_ok he with ⟨⟨nf, vmp1, pool1⟩, hadd, he⟩
    cases he
    have hpool0 : pool.Ok ([] ++ ids) := hpool
    rcases vmemAddInternal_writes hpool0 hadd with ⟨ns, _, _, _, hne, hw⟩
    have hqueue : vmp.segqueue = [ns, nf] := hw.queue
    constructor
    . intro y hy hyt
      rw [hqueue] at hy
      simp only [List.mem_cons, List.not_mem_nil, or_false] at hy
      rcases hy with rfl | rfl
      . rw [hw.span]
      . simp [hw.free] at hyt
    . right
      refine ⟨(base, size), ?_⟩
      ext r
      simp only [ranges, hqueue, Set.mem_ofPred_eq, Set.mem_singleton_iff, List.mem_cons,
        List.not_mem_nil, or_false, not_false_eq_true, true_and]
      constructor
      . rintro ⟨y, rfl | rfl, hyt, hr⟩
        . rw [← hr, range, hw.span]
        . simp [hw.free] at hyt
      . rintro rfl
        exact ⟨ns, .inl rfl, by rw [hw.span], by rw [range, hw.span]⟩
  . cases he
    constructor
    . intro y hy
      cases hy
    . left
      ext r
      simp [ranges]

theorem PaidInv.init (ops : VmemOps τ)
    (h : ArenaInit cfg q (fun l => others l.ext) (fun l held => J l.ext held) s)
    (himports : s.world.ext.imports = []) (hreleases : s.world.ext.releases = [])
    : PaidInv ops q others J (s.vmp.ranges [] .span) s ∧
        (s.vmp.ranges [] .span = ∅ ∨ ∃ r, s.vmp.ranges [] .span = {r}) := by
  have harena := ArenaInv.init h
  rcases h with ⟨ret, pool, base, size, source, _, _, _, _, hpool, he, _, _⟩
  rcases vmemInit_spans hpool he with ⟨hnative, hspans⟩
  refine ⟨⟨harena, ⟨subset_rfl, fun y hy hyt _ => hnative y hy hyt, ?_⟩, ?_⟩, hspans⟩
  . intro y hy hyt hmem
    exact absurd ⟨y, hy, by simp, hyt, rfl⟩ hmem
  . refine ⟨[], List.nodup_nil, ?_, ?_⟩
    . intro r
      simp
    . rw [himports, hreleases]
      exact List.Perm.refl _

theorem drained_arena (hs : Source ops q others J)
    (hbelow : ∀ ext held, J ext held → ∀ r ∈ held, r.1 + r.2 < 2 ^ 64)
    (hboth : ops.alloc ≠ none → ops.free ≠ none) {k : Nat} (hk : 0 < k) (hk64 : k < 64) (hq : q = 2 ^ k)
    (hcfg : cfg.disableAsserts = false) {s₀ s : ArenaState (Logged τ)}
    (hinit : ArenaInit cfg q (fun l => others l.ext) (fun l held => J l.ext held) s₀)
    (himports : s₀.world.ext.imports = []) (hreleases : s₀.world.ext.releases = [])
    (hr : Reach (fun s => s = s₀) (ArenaStep cfg (logged ops) q) s) (hlive : s.live = [])
    : s.vmp.layout = s₀.vmp.layout ∧
        (s.vmp.layout = [] ∨ ∃ base size, s.vmp.layout = [⟨.span, base, size⟩, ⟨.free, base, size⟩]) ∧
        s.world.ext.imports.Perm s.world.ext.releases := by
  rcases PaidInv.init ops hinit himports hreleases with ⟨h₀, hspans⟩
  have hlive₀ : s₀.live = [] := by
    rcases hinit with ⟨_, _, _, _, _, _, _, _, _, _, _, _, hlive⟩
    exact hlive
  have h : PaidInv ops q others J (s₀.vmp.ranges [] .span) s := by
    refine hr.invariant ?_ ?_
    . rintro s rfl
      exact h₀
    . intro s op s' h hstep
      exact h.step hs hbelow hboth hk hk64 hq hcfg hstep
  rcases h₀.drained hlive₀ with ⟨hnone₀, _, _⟩
  rcases h.drained hlive with ⟨hnone, hown, hperm⟩
  have hinv₀ := h₀.arena.serves.good.inv
  have hinv := h.arena.serves.good.inv
  rcases hspans with hspans | ⟨r, hspans⟩
  . rw [hinv.layout_empty (hown.trans hspans), hinv₀.layout_empty hspans]
    exact ⟨rfl, .inl rfl, hperm⟩
  . rw [hinv.layout_single hnone (hown.trans hspans), hinv₀.layout_single hnone₀ hspans]
    exact ⟨rfl, .inr ⟨r.1, r.2, rfl⟩, hperm⟩

end Run

def bumpSpans : VmemOps Nat where
  allocPages n := .ok n
  alloc := some fun size _ w =>
    if w.ext + size < 2 ^ 64 then .ok (w.ext, { w with ext := w.ext + size }) else .ok (0, w)
  free := some fun _ _ w => .ok w

def BumpOk (q n : Nat) (held : Set (Nat × Nat)) : Prop :=
  q ∣ n ∧ n < 2 ^ 64 ∧ ∀ r ∈ held, r.1 + r.2 ≤ n

theorem bumpSpans_source (q : Nat) : Source bumpSpans q (fun _ => []) (BumpOk q) := by
  constructor
  . intro n n' held h he
    cases he
    exact ⟨h, rfl⟩
  . intro alloc halloc w w' size flag addr held mine h hpool _ _ hdvd he
    cases halloc
    dsimp only at he
    split at he
    . next hlt =>
      cases he
      rcases h with ⟨hq, hn, hheld⟩
      refine ⟨hpool, ?_, ?_⟩
      . intro _
        refine ⟨Nat.dvd_add hq hdvd, hlt, ?_⟩
        intro r hr
        have := hheld r hr
        dsimp only
        omega
      . intro _
        refine ⟨hq, Nat.le_of_lt hlt, ?_, Nat.dvd_add hq hdvd, hlt, ?_⟩
        . intro r hr
          exact .inr (hheld r hr)
        . rintro r (rfl | hr)
          . exact Nat.le_refl _
          . have := hheld r hr
            dsimp only
            omega
    . cases he
      exact ⟨hpool, fun _ => h, fun hne => absurd rfl hne⟩
  . intro free hfree w w' held mine r h hpool _ he
    cases hfree
    cases he
    exact ⟨hpool, h.1, h.2.1, fun s hs => h.2.2 s hs.1⟩

theorem drained_arena_bump
    : ∃ s₀ s : ArenaState (Logged Nat),
        Reach (fun s => s = s₀) (ArenaStep ⟨false⟩ (logged bumpSpans) 4096) s ∧ s.live = [] ∧
        s.world.ext.imports = [(0x8000, 8192)] ∧
        s.vmp.layout = s₀.vmp.layout ∧ s.world.ext.imports.Perm s.world.ext.releases := by
  have hrun : (do
      let r ← arenaAt 0 0 4096 true
      let alloc ← vmemAlloc ⟨false⟩ (logged bumpSpans) 2 r.1 ⟨r.2, 0, 0x8000, [], []⟩ 8192 0
      let free ← vmemFree ⟨false⟩ (logged bumpSpans) alloc.2.1 alloc.2.2 0x8000 8192
      return (alloc.1, free)).map
        (fun r : Nat × Vmem × World (Logged Nat) => (r.1, r.2.2.ext.imports)) = .ok (0x8000, [(0x8000, 8192)]) := by
    decide +kernel
  rcases Except.map_eq_ok hrun with ⟨⟨addr, vmp3, w3⟩, hrun, heq⟩
  rcases Except.bind_eq_ok hrun with ⟨⟨vmp1, pool1⟩, hinit, hrun⟩
  rcases Except.bind_eq_ok hrun with ⟨⟨addr', vmp2, w2⟩, halloc, hrun⟩
  rcases Except.bind_eq_ok hrun with ⟨⟨vmp3', w3'⟩, hfree, hrun⟩
  cases hrun
  cases congrArg Prod.fst heq
  have himports : w3.ext.imports = [(0x8000, 8192)] := congrArg Prod.snd heq
  have hreach : Reach (fun s => s = ⟨vmp1, ⟨pool1, 0, 0x8000, [], []⟩, []⟩)
      (ArenaStep ⟨false⟩ (logged bumpSpans) 4096) ⟨vmp3, w3, []⟩ := by
    apply Reach.next (e := .free 0x8000 8192) (s := ⟨vmp2, w2, [(0x8000, 8192)]⟩)
    . apply Reach.next (e := .alloc 8192 0) (s := ⟨vmp1, ⟨pool1, 0, 0x8000, [], []⟩, []⟩)
      . exact Reach.start rfl
      . exact ⟨by decide, by decide, by decide, 2, 0x8000, halloc, rfl⟩
    . exact ⟨List.mem_cons_self, hfree, by simp⟩
  have hstart : ArenaInit ⟨false⟩ 4096 (fun _ => []) (fun l held => BumpOk 4096 l.ext held)
      (⟨vmp1, ⟨pool1, 0, 0x8000, [], []⟩, []⟩ : ArenaState (Logged Nat)) := by
    refine ⟨blankVmem, vmemBootstrap ⟨[], 0, 0⟩, 0, 0, true, by decide, by decide, by decide, by decide,
      .vmemBootstrap, hinit, ?_, rfl⟩
    cases hinit
    refine ⟨by decide, by decide, ?_⟩
    rintro r ⟨x, hx, _⟩
    cases hx
  have hbelow : ∀ n held, BumpOk 4096 n held → ∀ r ∈ held, r.1 + r.2 < 2 ^ 64 :=
    fun n held h r hr => Nat.lt_of_le_of_lt (h.2.2 r hr) h.2.1
  have hdrained := drained_arena (bumpSpans_source 4096) hbelow (by simp [bumpSpans]) (k := 12)
    (by decide) (by decide) (by decide) rfl hstart rfl rfl hreach rfl
  exact ⟨_, _, hreach, rfl, himports, hdrained.1, hdrained.2.2⟩

end Vmem
end Nyy
