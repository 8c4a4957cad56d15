import NyyKernel.Pm.Run

namespace Nyy
namespace Pm

open Paging (Addr)

variable {length base : BitVec 64} {s : State} {c : BitVec 64 × BitVec 64}

def pageDescriptor (base : BitVec 64) (i : Nat) : Nat × Nat :=
  (base.toNat + sizeofRegion.toNat + sizeofPage.toNat * i, sizeofPage.toNat)

def metadataWrites (base length : BitVec 64) : List (Nat × Nat) :=
  let pagecnt := (length / 0x1000).toNat
  let used := (regionUsed length / 0x1000).toNat
  (base.toNat, sizeofRegion.toNat)
    :: ((List.range pagecnt).map (pageDescriptor base)
      ++ (List.range used).map (pageDescriptor base)
      ++ (List.range' used (pagecnt - used)).map (pageDescriptor base))

def Inside (base length : BitVec 64) (w : Nat × Nat) : Prop :=
  base.toNat ≤ w.1 ∧ w.1 + w.2 ≤ base.toNat + length.toNat

structure Contained (s : State) (base length : BitVec 64) : Prop where
  inside : pmAddRegion s base length = s
    ∨ (∀ w ∈ metadataWrites base length, Inside base length w)
      ∧ regionUsed length / 0x1000 ≤ length / 0x1000
  stat : (pmAddRegion s base length).vmstat.used ≤ (pmAddRegion s base length).vmstat.total

theorem inside_of_le
    (h : 32 + 32 * max (pageCount length) (regionUsed length / 0x1000).toNat ≤ length.toNat)
    : ∀ w ∈ metadataWrites base length, Inside base length w := by
  have hpage : ∀ i, i < max (pageCount length) (regionUsed length / 0x1000).toNat
      → Inside base length (pageDescriptor base i) := by
    intro i hi
    unfold Inside pageDescriptor
    change base.toNat ≤ base.toNat + 32 + 32 * i ∧ base.toNat + 32 + 32 * i + 32 ≤ _
    omega
  intro w hw
  unfold metadataWrites at hw
  rw [toNat_pageCount] at hw
  simp only [List.mem_cons, List.mem_append, List.mem_map, List.mem_range, List.mem_range'_1] at hw
  rcases hw with rfl | (⟨i, hi, rfl⟩ | ⟨i, hi, rfl⟩) | ⟨i, hi, rfl⟩
  . unfold Inside
    change base.toNat ≤ base.toNat ∧ base.toNat + 32 ≤ _
    omega
  . exact hpage i (by omega)
  . exact hpage i (by omega)
  . exact hpage i (by omega)

theorem toNat_usedPages (hmax : length.toNat ≤ 2 ^ 52)
    : (regionUsed length / 0x1000).toNat = (32 + 32 * length.toNat / 2 ^ 12 + (2 ^ 12 - 1)) / 2 ^ 12 := by
  rw [BitVec.toNat_udiv, toNat_regionUsed_eq hmax]
  exact Nat.mul_div_cancel_left _ (by decide)

theorem stat_addRegion (hstat : s.vmstat.used ≤ s.vmstat.total)
    (hwrap : s.vmstat.total.toNat + pageCount length < 2 ^ 64)
    (hused : regionUsed length / 0x1000 ≤ length / 0x1000)
    : (pmAddRegion s base length).vmstat.used ≤ (pmAddRegion s base length).vmstat.total := by
  rcases pmAddRegion_cases s base length with ⟨_, heq⟩ | ⟨_, _, _, heq⟩
  . rw [heq]
    exact hstat
  . rw [heq]
    rw [BitVec.le_def] at hstat hused ⊢
    rw [BitVec.toNat_add, BitVec.toNat_add]
    have := toNat_pageCount length
    omega

theorem region_contained_iff {s : State} (base : BitVec 64) {length : BitVec 64}
    (hlength : length.toNat < 2 ^ 52) (hstat : s.vmstat.used ≤ s.vmstat.total)
    (hwrap : s.vmstat.total.toNat + pageCount length < 2 ^ 64)
    : Contained s base length ↔ 0x1000 ≤ length := by
  have hused := toNat_usedPages (Nat.le_of_lt hlength)
  have hbytes := toNat_regionUsed_eq (Nat.le_of_lt hlength)
  constructor
  . intro h
    by_contra hless
    have hless : length.toNat < 4096 := by
      rw [BitVec.le_def] at hless
      exact Nat.lt_of_not_le hless
    -- the difference wraps around, so the region is added
    have hadded : ¬ length - regionUsed length < 0x1000 * 2 := by
      rw [BitVec.lt_def, BitVec.toNat_sub, hbytes]
      change ¬ _ < 8192
      omega
    rcases h.inside with heq | ⟨_, hle⟩
    . rcases pmAddRegion_cases s base length with ⟨hsmall, _⟩ | ⟨_, hregions, _⟩
      . exact hadded hsmall
      . rw [heq] at hregions
        have := congrArg List.length hregions
        simp at this
    . rw [BitVec.le_def, hused, toNat_pageCount, pageCount] at hle
      omega
  . intro hle
    have hle : 4096 ≤ length.toNat := hle
    have hpages : regionUsed length / 0x1000 ≤ length / 0x1000 := by
      rw [BitVec.le_def, hused, toNat_pageCount, pageCount]
      omega
    constructor
    . right
      refine ⟨inside_of_le ?_, hpages⟩
      rw [hused, pageCount]
      omega
    . exact stat_addRegion hstat hwrap hpages

theorem region_contained_iff_uneven : Contained pmInit 0x100000 0x3800 :=
  (region_contained_iff 0x100000 (by decide) (by decide) (by decide)).mpr (by decide)

theorem empty_region_added
    : (pmAddRegion pmInit 0x100000 0).regionlist = [⟨0x100000, 0, []⟩]
      ∧ (pmAddRegion pmInit 0x100000 0).vmstat = ⟨0, 1⟩
      ∧ metadataWrites 0x100000 0 = [(0x100000, 32), (0x100020, 32)]
      ∧ ¬ Contained pmInit 0x100000 0 := by
  refine ⟨by decide, by decide, by decide, ?_⟩
  intro h
  exact absurd h.stat (by decide)

def addRegions (calls : List (BitVec 64 × BitVec 64)) : State :=
  calls.foldl (fun s c => pmAddRegion s c.1 c.2) pmInit

def Added (c : BitVec 64 × BitVec 64) : Prop := ¬ c.2 - regionUsed c.2 < 0x1000 * 2

def InRange (c : BitVec 64 × BitVec 64) (x : Nat) : Prop :=
  c.1.toNat ≤ x ∧ x < c.1.toNat + c.2.toNat

instance (c : BitVec 64 × BitVec 64) (x : Nat) : Decidable (InRange c x) :=
  inferInstanceAs (Decidable (c.1.toNat ≤ x ∧ x < c.1.toNat + c.2.toNat))

def DisjointRanges (c d : BitVec 64 × BitVec 64) : Prop := ∀ x, InRange c x → ¬ InRange d x

theorem DisjointRanges.of_le {d : BitVec 64 × BitVec 64}
    (h : c.1.toNat + c.2.toNat ≤ d.1.toNat ∨ d.1.toNat + d.2.toNat ≤ c.1.toNat)
    : DisjointRanges c d := by
  intro x hx hx'
  unfold InRange at hx hx'
  omega

theorem Fits.has_iff (h : Fits c.1 c.2) {x : Nat} : (newExtent c.1 c.2).Has x ↔ InRange c x := by
  have := h.whole
  unfold Extent.Has InRange newExtent pageCount
  dsimp only
  omega

theorem mem_extents_addRegion {e : Extent} (he : e ∈ (pmAddRegion s c.1 c.2).extents)
    : e ∈ s.extents ∨ Added c ∧ e = newExtent c.1 c.2 := by
  rcases pmAddRegion_cases s c.1 c.2 with ⟨_, heq⟩ | ⟨hadded, hregions, _⟩
  . rw [heq] at he
    exact Or.inl he
  . rw [extents_append hregions, List.mem_append, List.mem_singleton] at he
    exact he.imp_right (fun he => ⟨hadded, he⟩)

theorem ok_addRegions {calls : List (BitVec 64 × BitVec 64)} (hfits : ∀ c ∈ calls, Fits c.1 c.2)
    (hapart : calls.Pairwise DisjointRanges)
    : Ok (addRegions calls)
      ∧ ∀ e ∈ (addRegions calls).extents, ∃ c ∈ calls, Added c ∧ e = newExtent c.1 c.2 := by
  induction calls using List.reverseRecOn with
  | nil =>
    refine ⟨ok_pmInit, ?_⟩
    intro e he
    cases he
  | append_singleton calls c ih =>
    obtain ⟨hbefore, _, hlast⟩ := List.pairwise_append.mp hapart
    have hfits' : ∀ d ∈ calls, Fits d.1 d.2 := fun d hd => hfits d (by simp [hd])
    have hc : Fits c.1 c.2 := hfits c (by simp)
    obtain ⟨hok, hextents⟩ := ih hfits' hbefore
    have happend : addRegions (calls ++ [c]) = pmAddRegion (addRegions calls) c.1 c.2 := by
      unfold addRegions
      rw [List.foldl_append]
      rfl
    rw [happend]
    constructor
    . apply hok.addRegion hc
      intro e he x hx hx'
      obtain ⟨d, hd, _, rfl⟩ := hextents e he
      exact hlast d hd c List.mem_cons_self x ((hfits' d hd).has_iff.mp hx) (hc.has_iff.mp hx')
    . intro e he
      cases mem_extents_addRegion he with
      | inl he =>
        obtain ⟨d, hd, hadded⟩ := hextents e he
        exact ⟨d, by simp [hd], hadded⟩
      | inr he => exact ⟨c, by simp, he⟩

theorem Shaped.pmLookup_eq_none (h : Shaped s) {paddr : Addr} (hout : ∀ e ∈ s.extents, ¬ e.Has paddr.toNat)
    : pmLookup s paddr = none := by
  have hregion : pmLookupRegion s paddr = none := by
    unfold pmLookupRegion
    rw [List.findIdx?_eq_none_iff]
    intro r hr
    have hmem : r.extent ∈ s.extents := List.mem_map_of_mem hr
    rw [← Bool.not_eq_true, Region.contains_iff (h.extent _ hmem)]
    exact hout _ hmem
  unfold pmLookup
  rw [hregion]
  rfl

theorem lookup_inverts_pg2p {calls : List (BitVec 64 × BitVec 64)} (hfits : ∀ c ∈ calls, Fits c.1 c.2)
    (hapart : calls.Pairwise DisjointRanges)
    : (∀ p page, (addRegions calls).page? p = some page → ∀ o < 2 ^ 12,
        pmLookup (addRegions calls) (pg2p page + BitVec.ofNat 64 o) = some p)
      ∧ (∀ paddr, (∀ c ∈ calls, Added c → ¬ InRange c paddr.toNat)
        → pmLookup (addRegions calls) paddr = none) := by
  obtain ⟨hok, hextents⟩ := ok_addRegions hfits hapart
  constructor
  . intro p page hp o ho
    apply hok.shaped.pmLookup_eq hp
    obtain ⟨e, he, hlt, haddr⟩ := hok.shaped.pg2p_eq hp
    have := (hok.shaped.extent e (List.mem_of_getElem? he)).physical
    rw [BitVec.toNat_add, BitVec.toNat_ofNat]
    omega
  . intro paddr hout
    apply hok.shaped.pmLookup_eq_none
    intro e he hhas
    obtain ⟨c, hc, hadded, rfl⟩ := hextents e he
    exact hout c hc hadded ((hfits c hc).has_iff.mp hhas)

def sampleCalls : List (BitVec 64 × BitVec 64) :=
  [(0x104000, 0x4000), (0x100000, 0x4000), (0x200000, 0x2000)]

theorem lookup_inverts_pg2p_sample
    : (∃ page, (addRegions sampleCalls).page? ⟨1, 3⟩ = some page
        ∧ pmLookup (addRegions sampleCalls) (pg2p page + 0xFFF) = some ⟨1, 3⟩)
      ∧ pmLookup (addRegions sampleCalls) 0x200000 = none := by
  have hspec := @lookup_inverts_pg2p sampleCalls
    (by
      intro c hc
      simp only [sampleCalls, List.mem_cons, List.not_mem_nil, or_false] at hc
      rcases hc with rfl | rfl | rfl
      . exact ⟨by decide, by decide, by decide, by decide⟩
      . exact ⟨by decide, by decide, by decide, by decide⟩
      . exact ⟨by decide, by decide, by decide, by decide⟩)
    (by
      simp only [sampleCalls, List.pairwise_cons, List.mem_cons, List.not_mem_nil, or_false]
      refine ⟨?_, ?_, by simp⟩
      . rintro d (rfl | rfl)
        . exact DisjointRanges.of_le (.inr (by decide))
        . exact DisjointRanges.of_le (.inl (by decide))
      . rintro d rfl
        exact DisjointRanges.of_le (.inl (by decide)))
  obtain ⟨page, hpage⟩ : ∃ page, (addRegions sampleCalls).page? ⟨1, 3⟩ = some page :=
    ⟨_, rfl⟩
  refine ⟨⟨page, hpage, hspec.1 ⟨1, 3⟩ page hpage 0xFFF (by decide)⟩, ?_⟩
  apply hspec.2
  intro c hc hadded
  simp only [sampleCalls, List.mem_cons, List.not_mem_nil, or_false] at hc
  rcases hc with rfl | rfl | rfl
  . decide
  . decide
  . exact absurd (by decide) hadded

end Pm
end Nyy
