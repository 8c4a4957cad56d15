import Mathlib.Tactic
import NyyKernel.Lib.Run
import NyyKernel.Pm.Lemmas

namespace Nyy
namespace Pm

open Paging (Mmu)

variable {cfg : Config} {p : PagePtr} {s : Usage} {m : Mmu State} {usage : PageUse}

inductive Op where
  | addRegion (base length : BitVec 64)
  | allocate (usage : PageUse)
  | allocateZeroed (usage : PageUse)
  | free (page : PagePtr)
  deriving DecidableEq, Repr

structure Usage where
  m : Mmu State
  live : Set PagePtr

def step (cfg : Config) (s : Usage) (op : Op) (s' : Usage) : Prop :=
  match op with
  | .addRegion base length =>
    Fits base length ∧ (∀ e ∈ s.m.pm.extents, e.Disjoint (newExtent base length))
      ∧ s' = ⟨⟨s.m.mem, pmAddRegion s.m.pm base length⟩, s.live⟩
  | .allocate usage =>
    usage ≠ .free ∧ ∃ p pm, pmAllocate cfg s.m.pm usage = .ok (p, pm)
      ∧ s' = ⟨⟨s.m.mem, pm⟩, insert p s.live⟩
  | .allocateZeroed usage =>
    usage ≠ .free ∧ ∃ p m, pmAllocateZeroed cfg s.m usage = .ok (p, m)
      ∧ s' = ⟨m, insert p s.live⟩
  | .free p =>
    p ∈ s.live ∧ ∃ pm, pmFree cfg s.m.pm p = .ok pm ∧ s' = ⟨⟨s.m.mem, pm⟩, s.live \ {p}⟩

def start (s : Usage) : Prop := s.m.pm = pmInit ∧ s.live = ∅

theorem pmAllocateZeroed_eq_ok {m' : Mmu State} (h : pmAllocateZeroed cfg m usage = .ok (p, m'))
    : pmAllocate cfg m.pm usage = .ok (p, m'.pm) := by
  obtain ⟨⟨q, pm⟩, ha, h⟩ := Except.bind_eq_ok h
  obtain ⟨mem, _, h⟩ := Except.bind_eq_ok h
  cases h
  exact ha

structure Consistent (s : Usage) : Prop where
  ok : Ok s.m.pm
  live : ∀ p ∈ s.live, Owned s.m.pm p

theorem Consistent.allocate (h : Consistent s) (husage : usage ≠ .free)
    (ha : pmAllocate cfg s.m.pm usage = .ok (p, m.pm))
    : Consistent ⟨m, insert p s.live⟩ := by
  constructor
  . exact h.ok.allocate husage ha
  . intro q hq
    rw [h.ok.owned_allocate husage ha]
    cases hq with
    | inl hq => exact Or.inl hq
    | inr hq => exact Or.inr (h.live q hq)

theorem Consistent.step {s' : Usage} {op : Op} (h : Consistent s) (hstep : step cfg s op s')
    : Consistent s' := by
  cases op with
  | addRegion base length =>
    obtain ⟨hfits, hapart, rfl⟩ := hstep
    constructor
    . exact h.ok.addRegion hfits hapart
    . intro p hp
      exact (h.live p hp).addRegion hfits
  | allocate usage =>
    obtain ⟨husage, p, pm, ha, rfl⟩ := hstep
    exact h.allocate husage ha
  | allocateZeroed usage =>
    obtain ⟨husage, p, m, ha, rfl⟩ := hstep
    exact h.allocate husage (pmAllocateZeroed_eq_ok ha)
  | free p =>
    obtain ⟨hp, pm, hfree, rfl⟩ := hstep
    constructor
    . exact h.ok.pmFree (h.live p hp) hfree
    . intro q hq
      rw [owned_pmFree hfree]
      exact ⟨hq.2, h.live q hq.1⟩

theorem Consistent.reach (h : Reach start (Pm.step cfg) s) : Consistent s := by
  apply h.invariant
  . rintro ⟨⟨mem, pm⟩, live⟩ ⟨hpm, hlive⟩
    cases hpm
    cases hlive
    exact ⟨ok_pmInit, fun p hp => absurd hp (Set.notMem_empty p)⟩
  . intro s op s' hs hstep
    exact hs.step hstep

def Page.InFrame (page : Page) (x : Nat) : Prop :=
  (pg2p page).toNat ≤ x ∧ x < (pg2p page).toNat + 2 ^ 12

def Region.InMetadata (r : Region) (x : Nat) : Prop :=
  r.base.toNat ≤ x
    ∧ x < r.base.toNat + (sizeofRegion.toNat + sizeofPage.toNat * r.pagecnt.toNat)

theorem Ok.not_inMetadata {s : State} (h : Ok s) {page : Page} {r : Region} {x : Nat}
    (hp : p ∈ s.buddyFreelist 0) (hpage : s.page? p = some page) (hr : r ∈ s.regionlist)
    (hx : page.InFrame x)
    : ¬ r.InMetadata x := by
  intro hmeta
  obtain ⟨e, he, hlt, haddr⟩ := h.shaped.pg2p_eq hpage
  have hok := h.shaped.extent r.extent (List.mem_map_of_mem hr)
  have hcount : r.pagecnt.toNat = r.pages.length := hok.count
  have hnonempty : r.pages.length ≠ 0 := hok.nonempty
  obtain ⟨hlow, hhigh⟩ := hmeta
  rw [hcount, show sizeofRegion.toNat = 32 from rfl, show sizeofPage.toNat = 32 from rfl] at hhigh
  unfold Page.InFrame at hx
  -- the byte is in both regions, so they are one
  obtain ⟨j, hj⟩ := List.getElem?_of_mem hr
  have hj' : s.extents[j]? = some r.extent := by
    rw [State.getElem?_extents, hj]
    rfl
  have hhas : e.Has x := by
    unfold Extent.Has
    omega
  have hhas' : r.extent.Has x := by
    unfold Extent.Has
    change r.base.toNat ≤ x ∧ x < r.base.toNat + 2 ^ 12 * r.pages.length
    omega
  have hregion := h.shaped.eq_of_has he hj' hhas hhas'
  rw [hregion, hj'] at he
  cases he
  have hfree : page.usage = .free := by
    obtain ⟨page', hpage', hfree⟩ := (h.free p).mp hp
    rw [hpage] at hpage'
    cases hpage'
    exact hfree
  have hreserved : reserved r.pages.length ≤ p.index := by
    by_contra hlt
    exact h.metadata p page r.extent hpage (by rw [hregion, hj'])
      (show p.index < reserved r.pages.length by omega) hfree
  have hsize := le_reserved r.pages.length
  have hbase : r.extent.base.toNat = r.base.toNat := rfl
  omega

theorem Ok.length_le {s : State} (h : Ok s) : (s.buddyFreelist 0).length ≤ 2 ^ 52 := by
  let frame : PagePtr → Nat := fun p => ((s.page? p).map pg2p).elim 0 BitVec.toNat
  have hframe : ∀ p page, s.page? p = some page → frame p = (pg2p page).toNat := by
    intro p page hp
    simp only [frame, hp, Option.map_some, Option.elim_some]
  have hnodup : ((s.buddyFreelist 0).map frame).Nodup := by
    apply h.nodup.map_on
    intro p hp q hq heq
    obtain ⟨a, ha, _⟩ := (h.free p).mp hp
    obtain ⟨b, hb, _⟩ := (h.free q).mp hq
    rw [hframe p a ha, hframe q b hb] at heq
    exact h.shaped.pg2p_inj ha hb (BitVec.eq_of_toNat_eq heq)
  have hsub : (s.buddyFreelist 0).map frame ⊆ List.range (2 ^ 52) := by
    intro x hx
    obtain ⟨p, hp, rfl⟩ := List.mem_map.mp hx
    obtain ⟨a, ha, _⟩ := (h.free p).mp hp
    obtain ⟨e, he, hlt, haddr⟩ := h.shaped.pg2p_eq ha
    have := (h.shaped.extent e (List.mem_of_getElem? he)).physical
    rw [hframe p a ha, haddr, List.mem_range]
    omega
  have := (List.subperm_of_subset hnodup hsub).length_le
  rwa [List.length_map, List.length_range] at this

theorem page_accounting {cfg : Config} {s : Usage} (h : Reach start (step cfg) s)
    : (s.m.pm.buddyFreelist 0).Nodup
      ∧ (∀ p, p ∈ s.m.pm.buddyFreelist 0
        ↔ ∃ page, s.m.pm.page? p = some page ∧ page.usage = .free)
      ∧ (∀ p ∈ s.m.pm.buddyFreelist 0, ∀ page, s.m.pm.page? p = some page
        → ∀ r ∈ s.m.pm.regionlist, ∀ x, page.InFrame x → ¬ r.InMetadata x)
      ∧ (∀ usage p pm, pmAllocate cfg s.m.pm usage = .ok (p, pm) → p ∉ s.live)
      ∧ (∀ usage p m, pmAllocateZeroed cfg s.m usage = .ok (p, m) → p ∉ s.live)
      ∧ (s.m.pm.vmstat.total - s.m.pm.vmstat.used).toNat = (s.m.pm.buddyFreelist 0).length := by
  have hinv := Consistent.reach h
  have hfresh : ∀ usage p pm, pmAllocate cfg s.m.pm usage = .ok (p, pm) → p ∉ s.live := by
    intro usage p pm ha hlive
    obtain ⟨rest, hlist, _⟩ := pmAllocate_eq_ok ha
    have hmem : p ∈ s.m.pm.buddyFreelist 0 := by
      rw [hlist]
      exact List.mem_cons_self
    exact hinv.ok.not_owned hmem (hinv.live p hlive)
  refine ⟨hinv.ok.nodup, hinv.ok.free, ?_, hfresh, ?_, ?_⟩
  . intro p hp page hpage r hr x hx
    exact hinv.ok.not_inMetadata hp hpage hr hx
  . intro usage p m ha
    exact hfresh usage p m.pm (pmAllocateZeroed_eq_ok ha)
  . have := hinv.ok.length_le
    rw [hinv.ok.balance, BitVec.toNat_ofNat]
    omega

theorem page_accounting_sample
    : ∃ s, Reach start (step ⟨false⟩) s ∧ s.m.pm.buddyFreelist 0 = [⟨0, 3⟩, ⟨0, 1⟩]
      ∧ (∀ usage p pm, pmAllocate ⟨false⟩ s.m.pm usage = .ok (p, pm) → p ∉ s.live)
      ∧ (s.m.pm.vmstat.total - s.m.pm.vmstat.used).toNat = 2 := by
  have h0 : Reach start (step ⟨false⟩) ⟨⟨fun _ _ => 0, pmInit⟩, ∅⟩ := Reach.start ⟨rfl, rfl⟩
  have h1 := h0.next (e := Op.addRegion 0x100000 0x4000)
    ⟨⟨by decide, by decide, by decide, by decide⟩, List.forall_mem_nil _, rfl⟩
  have h2 := h1.next (e := Op.allocate .wired) ⟨by decide, _, _, rfl, rfl⟩
  have h3 := h2.next (e := Op.allocateZeroed .vm) ⟨by decide, _, _, rfl, rfl⟩
  have h4 := h3.next (e := Op.free ⟨0, 1⟩)
    ⟨Or.inr (Or.inl rfl), _, rfl, rfl⟩
  have hlist : ∀ s : Usage, s.m.pm.buddyFreelist 0 = [⟨0, 3⟩, ⟨0, 1⟩]
      → Reach start (step ⟨false⟩) s
      → (s.m.pm.vmstat.total - s.m.pm.vmstat.used).toNat = 2 := by
    intro s hs h
    have hlength := (page_accounting h).2.2.2.2.2
    rwa [hs] at hlength
  exact ⟨_, h4, rfl, (page_accounting h4).2.2.2.1, hlist _ rfl h4⟩

end Pm
end Nyy
