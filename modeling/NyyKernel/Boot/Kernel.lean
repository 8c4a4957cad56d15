import NyyKernel.Boot.Cover

/-!
This module contains the mapping of the kernel image and of the memory behind it.
-/

namespace Nyy
namespace Boot

open Paging

structure Section where
  start : Addr
  stop : Addr
  flags : BitVec 64

-- from `addr_text_start` to `addr_text_end`, and so on
structure Image where
  text : Addr × Addr
  rodata : Addr × Addr
  data : Addr × Addr

def Image.sections (k : Image) : List Section :=
  [⟨k.text.1, k.text.2, kVmRead ||| kVmExecute ||| kVmGlobal⟩,
    ⟨k.rodata.1, k.rodata.2, kVmRead ||| kVmGlobal⟩, ⟨k.data.1, k.data.2, kVmAll ||| kVmGlobal⟩]

def Section.base (s : Section) : Nat := (pageAlignDown s.start).toNat

def Section.pages (s : Section) : Nat := ((Pm.pageAlignUp s.stop).toNat - s.base) / 2 ^ 12

-- the body of `MAP_SECTION`
def mapPage (paddr vaddr : Addr) (flags : BitVec 64) (i : Addr) : PageOp :=
  .map (i - vaddr + paddr) i .writethrough flags

def mapSection (paddr vaddr : Addr) (s : Section) (n : Nat) : List PageOp :=
  (List.range n).map fun k => mapPage paddr vaddr s.flags (BitVec.ofNat 64 (s.base + k * 2 ^ 12))

def remapKernel {σ : Type} (pmAllocateN : PmAllocate σ) (b : Setup) (paddr vaddr : Addr) (k : Image)
    (m : Mmu σ) : Except Fault (Mmu σ) :=
  runOps pmAllocateN b.cfg b.features b.cr3 m (k.sections.flatMap fun s => mapSection paddr vaddr s s.pages)

def earlyPortMapMemory {σ : Type} (pmAllocateN : PmAllocate σ) (b : Setup) (paddr vaddr : Addr) (k : Image)
    (entries : List MemmapEntry) (m : Mmu σ) : Except Fault (Mmu σ) := do
  let m ← remapKernel pmAllocateN b paddr vaddr k m
  remapMemmap pmAllocateN b m entries

def Section.loaded (features : Features) (paddr vaddr v : Addr) (s : Section) : Translation where
  address := v - vaddr + paddr
  rights :=
    { write := s.flags &&& kVmWrite != 0
      user := s.flags &&& kVmUser != 0
      execute := !(features.nx && !(s.flags &&& kVmExecute != 0)) }
  global := features.pge && s.flags &&& kVmGlobal != 0
  memory := some .wt

def Section.Has (s : Section) (v : Addr) : Prop :=
  s.base ≤ v.toNat ∧ v.toNat < (Pm.pageAlignUp s.stop).toNat

instance (s : Section) (v : Addr) : Decidable (s.Has v) := inferInstanceAs (Decidable (_ ∧ _))

structure Section.Fits (paddr vaddr : Addr) (s : Section) : Prop where
  high : 2 ^ 64 - 2 ^ 47 ≤ s.base
  top : s.stop.toNat + 2 ^ 12 ≤ 2 ^ 64
  virtual : vaddr.toNat % 2 ^ 12 = 0 ∧ vaddr.toNat ≤ s.base
  physical : paddr.toNat % 2 ^ 12 = 0 ∧ paddr.toNat + (Pm.pageAlignUp s.stop).toNat ≤ vaddr.toNat + 2 ^ 52

def sectionAt (sections : List Section) (v : Addr) : Option Section := sections.reverse.find? (·.Has v)

section

variable {paddr vaddr v : Addr} {s : Section}

theorem Section.base_eq (s : Section) : s.base = 2 ^ 12 * (s.start.toNat / 2 ^ 12) :=
  toNat_pageAlignDown s.start

theorem toNat_page {k : Nat} (hk : k < s.pages)
    : (BitVec.ofNat 64 (s.base + k * 2 ^ 12)).toNat = s.base + k * 2 ^ 12 := by
  have := (Pm.pageAlignUp s.stop).isLt
  unfold Section.pages at hk
  rw [BitVec.toNat_ofNat]
  omega

theorem lastOn_mapSection {n : Nat} (hn : n ≤ s.pages)
    : lastOn (mapSection paddr vaddr s n) v =
        if s.base ≤ v.toNat ∧ v.toNat < s.base + n * 2 ^ 12 then
          some (mapPage paddr vaddr s.flags (pageAlignDown v))
        else
          none := by
  induction n with
  | zero =>
    rw [if_neg (by omega)]
    rfl
  | succ n ih =>
    have hnat := toNat_page hn
    have hbase := s.base_eq
    have hv := toNat_pageAlignDown v
    have hpage : page (BitVec.ofNat 64 (s.base + n * 2 ^ 12)) = page v ↔
        (pageAlignDown v).toNat = s.base + n * 2 ^ 12 := by
      rw [← BitVec.toNat_inj]
      simp only [page, BitVec.toNat_ushiftRight, Nat.shiftRight_eq_div_pow, hnat]
      omega
    unfold mapSection at ih ⊢
    rw [List.range_succ, List.map_append, List.map_singleton, lastOn_append, ih (by omega), mapPage,
      PageOp.vaddr, if_congr hpage rfl rfl]
    split
    . next hin => rw [if_pos (by omega), ← hin, BitVec.ofNat_toNat, BitVec.setWidth_eq, mapPage]
    . refine if_congr ?_ rfl rfl
      omega

theorem Section.Fits.has_iff (h : s.Fits paddr vaddr)
    : s.base ≤ v.toNat ∧ v.toNat < s.base + s.pages * 2 ^ 12 ↔ s.Has v := by
  have hbase := s.base_eq
  have hstop := Pm.toNat_pageAlignUp h.top
  unfold Section.pages Section.Has
  omega

theorem Section.Fits.toNat_loaded (h : s.Fits paddr vaddr) (hv : s.Has v)
    : (v - vaddr + paddr).toNat = v.toNat - vaddr.toNat + paddr.toNat ∧
        v.toNat - vaddr.toNat + paddr.toNat < 2 ^ 52 := by
  have hvirtual := h.virtual
  have hphysical := h.physical
  unfold Section.Has at hv
  bv_omega

theorem Section.Fits.frame (h : s.Fits paddr vaddr) (hv : s.Has v) (hpage : v.toNat % 2 ^ 12 = 0)
    : v - vaddr + paddr &&& pteAddress = v - vaddr + paddr := by
  have hvirtual := h.virtual
  have hphysical := h.physical
  have hloaded := h.toNat_loaded hv
  rw [and_pteAddress_iff, hloaded.1]
  unfold Section.Has at hv
  omega

theorem Section.Has.page (h : s.Has v) : s.Has (pageAlignDown v) := by
  have hbase := s.base_eq
  have hdown := toNat_pageAlignDown v
  unfold Section.Has at h ⊢
  omega

theorem lastOn_remapKernel {sections : List Section} (hfits : ∀ s ∈ sections, s.Fits paddr vaddr)
    : lastOn (sections.flatMap fun s => mapSection paddr vaddr s s.pages) v =
        (sectionAt sections v).map fun s => mapPage paddr vaddr s.flags (pageAlignDown v) := by
  induction sections with
  | nil => rfl
  | cons s sections ih =>
    rw [List.forall_mem_cons] at hfits
    have happend : ∀ ops ops', lastOn (ops ++ ops') v = (lastOn ops' v).or (lastOn ops v) := by
      intro ops ops'
      unfold lastOn
      rw [List.filter_append, List.getLast?_append]
    rw [List.flatMap_cons, happend, ih hfits.2, lastOn_mapSection (Nat.le_refl _),
      if_congr hfits.1.has_iff rfl rfl, sectionAt, sectionAt, List.reverse_cons, List.find?_append,
      Option.map_or]
    by_cases h : s.Has v
    . simp [h]
    . simp [h]

theorem Section.Fits.allowed (h : s.Fits paddr vaddr) (hhuge : s.flags &&& kVmHuge = 0)
    (hread : s.flags &&& kVmRead ≠ 0) {op : PageOp} (hop : op ∈ mapSection paddr vaddr s s.pages)
    : op.Allowed := by
  rcases List.mem_map.mp hop with ⟨k, hk, rfl⟩
  have hk := List.mem_range.mp hk
  have hnat := toNat_page hk
  have hbase := s.base_eq
  have hhigh := h.high
  have hhas : s.Has (BitVec.ofNat 64 (s.base + k * 2 ^ 12)) := by
    rw [← h.has_iff]
    omega
  have hframe := h.frame hhas (by omega)
  rw [and_pteAddress_iff] at hframe
  exact ⟨(canonical_iff _).mpr (.inr (by omega)), hhuge, hread, hframe⟩

theorem Section.Fits.address (h : s.Fits paddr vaddr) (hv : s.Has v) {entry : BitVec 64}
    (hentry : entry &&& pteAddress = pageAlignDown v - vaddr + paddr)
    : (Leaf.page4K entry).address v = v - vaddr + paddr := by
  have hdown := toNat_pageAlignDown v
  have hpage := h.toNat_loaded hv.page
  have hloaded := h.toNat_loaded hv
  have hvirtual := h.virtual
  have hphysical := h.physical
  have hle : vaddr.toNat ≤ (pageAlignDown v).toNat := Nat.le_trans hvirtual.2 hv.page.1
  have haddress := @leaf_address .kib4 entry (pageAlignDown v - vaddr + paddr).toNat
    (v - vaddr + paddr).toNat v (by rw [hentry, BitVec.ofNat_toNat, BitVec.setWidth_eq])
  rw [hpage.1, hloaded.1] at haddress
  change _ % 2 ^ 12 = 0 → _ / 2 ^ 12 = _ / 2 ^ 12 → _ % 2 ^ 12 = _ % 2 ^ 12 → _ at haddress
  rw [← hloaded.1, BitVec.ofNat_toNat, BitVec.setWidth_eq] at haddress
  refine haddress ?_ ?_ ?_
  all_goals omega

theorem Section.Fits.translation (h : s.Fits paddr vaddr) (hv : s.Has v) (features : Features)
    : (Leaf.page4K (newEntry features 0 (pageAlignDown v - vaddr + paddr) .writethrough s.flags)).translation
        portPat v = s.loaded features paddr vaddr v := by
  have hdown := toNat_pageAlignDown v
  have hframe := h.frame hv.page (by omega)
  have hdecode : decode portPat .kib4 (newEntry features 0 (pageAlignDown v - vaddr + paddr)
      .writethrough s.flags) = _ := decode_newEntry hframe ((and_pteAddress_iff _).mp hframe).1
  have haddress := h.address hv
    (newEntry_and features .writethrough s.flags (show (0 : BitVec 64) &&& pteAddress = 0 by decide) hframe)
  generalize newEntry features 0 (pageAlignDown v - vaddr + paddr) .writethrough s.flags = entry
    at hdecode haddress ⊢
  have hrights : wordRights entry = ⟨(decode portPat .kib4 entry).writable,
      (decode portPat .kib4 entry).user, !(decode portPat .kib4 entry).noExecute⟩ := rfl
  unfold Leaf.translation
  change Translation.mk ((Leaf.page4K entry).address v) (wordRights entry)
    (decode portPat .kib4 entry).global (decode portPat .kib4 entry).memory = _
  rw [haddress, hrights, hdecode]
  rfl

end

variable {σ : Type} {pmAllocateN : PmAllocate σ} {Ok : σ → Prop} {used : σ → Set Addr} {cfg : Config}
  {features : Features} {cr3 : Addr} {m₀ m m' : Mmu σ} {ops : List PageOp}

def pageLeaf (features : Features) : PageOp → Option Leaf
  | .map paddr _ cache flags => some (.page4K (newEntry features 0 paddr cache flags))
  | .unmap _ _ => none

structure Imaged (Ok : σ → Prop) (used : σ → Set Addr) (features : Features) (cr3 : Addr)
    (ops : List PageOp) (m : Mmu σ) : Prop where
  ok : Ok m.pm
  regular : Regular m.mem cr3
  sound : Sound m.mem cr3 (used m.pm)
  walk : ∀ v, Canonical v → hardwareWalk m.mem cr3 v = (lastOn ops v).bind (pageLeaf features)

theorem imaged_runOps (hsrc : PageSource pmAllocateN Ok used) (hok : Ok m₀.pm)
    (hinit : vmPortInitMap pmAllocateN m₀ = .ok (cr3, m))
    (hops : ∀ op ∈ ops, op.Allowed ∧ (pageLeaf features op).isSome)
    (hrun : runOps pmAllocateN cfg features cr3 m ops = .ok m')
    : Imaged Ok used features cr3 ops m' := by
  rcases Refines.init hsrc hok hinit with ⟨hok1, href1⟩
  induction ops using List.reverseRecOn generalizing m' with
  | nil =>
    cases hrun
    refine ⟨hok1, regular_of_blank ?_, href1.sound, href1.walk⟩
    rcases Except.bind_eq_ok hinit with ⟨_, _, hm⟩
    cases hm
    simp [Radix.clear]
  | append_singleton ops op ih =>
    unfold runOps at hrun
    rw [List.foldlM_append] at hrun
    rcases Except.bind_eq_ok hrun with ⟨m2, hrun2, hop⟩
    have hop : runOp pmAllocateN cfg features cr3 m2 op = .ok m' := by simpa using hop
    rw [List.forall_mem_append] at hops
    have hops2 := fun op hop => (hops.1 op hop).1
    rcases href1.run hsrc hops2 hok1 hrun2 with ⟨hok2, href2⟩
    have h2 := ih hops.1 hrun2
    cases op with
    | unmap vaddr flags => cases (hops.2 _ List.mem_cons_self).2
    | map paddr vaddr cache flags =>
      rcases (hops.2 _ List.mem_cons_self).1 with ⟨hcanonical, hhuge, hread, _⟩
      have hmap : mapEntry pmAllocateN m2 cr3 vaddr PageSize.kib4.flags
          (newEntry features 0 paddr cache flags) = .ok m' := by
        unfold runOp vmPortMap vmPortMapFuel at hop
        dsimp only at hop
        rwa [if_pos hhuge] at hop
      have hplaced : Placed pmAllocateN used cr3 vaddr .kib4 m2 m' _ :=
        mapEntry_placed hsrc hok2 href2.sound (href2.clear vaddr) (fun hne => absurd rfl hne) hmap
      have hre := hplaced.remapped hcanonical
      refine ⟨hsrc.ok_of_taken hok2 hplaced.taken,
        hplaced.outside.regular (by simp [slot, slotPath, PageSize.flags]) h2.regular, hplaced.sound, ?_⟩
      intro v hv
      rw [lastOn_append]
      split
      . next hpage =>
        rw [hre.here v hpage.symm, present_newEntry features 0 paddr cache hread]
        rfl
      . next hpage =>
        rw [hre.elsewhere v hv (Ne.symm hpage)]
        exact h2.walk v hv

theorem Image.flags (k : Image)
    : ∀ s ∈ k.sections, s.flags &&& kVmHuge = 0 ∧ s.flags &&& kVmRead ≠ 0 ∧
        (s.flags &&& kVmWrite ≠ 0 → s.flags &&& kVmExecute = 0) := by
  simp only [Image.sections, List.forall_mem_cons]
  decide

theorem imaged_remapKernel {b : Setup} {k : Image} {paddr vaddr : Addr}
    (hsrc : PageSource pmAllocateN Ok used) (hok : Ok m₀.pm)
    (hinit : vmPortInitMap pmAllocateN m₀ = .ok (b.cr3, m)) (hfits : ∀ s ∈ k.sections, s.Fits paddr vaddr)
    (hrun : remapKernel pmAllocateN b paddr vaddr k m = .ok m')
    : ∃ ops, Imaged Ok used b.features b.cr3 ops m' ∧
        ∀ v, Canonical v → hardwareWalk m'.mem b.cr3 v = (sectionAt k.sections v).map fun s =>
          .page4K (newEntry b.features 0 (pageAlignDown v - vaddr + paddr) .writethrough s.flags) := by
  have hallowed : ∀ op ∈ k.sections.flatMap fun s => mapSection paddr vaddr s s.pages,
      op.Allowed ∧ (pageLeaf b.features op).isSome := by
    intro op hop
    rcases List.mem_flatMap.mp hop with ⟨s, hs, hop⟩
    refine ⟨(hfits s hs).allowed (k.flags s hs).1 (k.flags s hs).2.1 hop, ?_⟩
    rcases List.mem_map.mp hop with ⟨_, _, rfl⟩
    rfl
  have himage := imaged_runOps hsrc hok hinit hallowed hrun
  refine ⟨_, himage, ?_⟩
  intro v hv
  rw [himage.walk v hv, lastOn_remapKernel hfits]
  cases sectionAt k.sections v <;> rfl

/--
After `early_port_map_memory` every address of the kernel image leads to where it was loaded, with the
rights of the last section that has the page. No page of the image can be both written and executed,
and the direct map finds the memory behind it.
-/
theorem kernel_image_mapped {b : Setup} {k : Image} {paddr vaddr : Addr} {entries : List MemmapEntry}
    (hsrc : PageSource pmAllocateN Ok used) (hok : Ok m₀.pm)
    (hinit : vmPortInitMap pmAllocateN m₀ = .ok (b.cr3, m)) (hfits : ∀ s ∈ k.sections, s.Fits paddr vaddr)
    (hentries : ∀ e ∈ entries, e.Fits b) (hstart : b.hhdmStart.toNat % 2 ^ 30 = 0)
    (hapart : ∀ s ∈ k.sections, ∀ x, Region entries x → ¬ s.Has (b.addr x))
    (hunder : entries.Pairwise fun e e' => e.rounded.Under b e'.rounded)
    (hrun : earlyPortMapMemory pmAllocateN b paddr vaddr k entries m = .ok m')
    : (∀ v, Canonical v → (∀ x, Region entries x → v ≠ b.addr x) →
          Paging.translate portPat m'.mem b.cr3 v =
            (sectionAt k.sections v).map (Section.loaded b.features paddr vaddr v)) ∧
        (b.features.nx = true → ∀ s ∈ k.sections, ∀ v,
          ¬ ((s.loaded b.features paddr vaddr v).rights.write = true ∧
            (s.loaded b.features paddr vaddr v).rights.execute = true)) ∧
        (Reached entries → ∀ e ∈ entries, ∀ x, e.Has x → Found b m' x) := by
  rcases Except.bind_eq_ok hrun with ⟨m1, hkernel, hloop⟩
  rcases imaged_remapKernel hsrc hok hinit hfits hkernel with ⟨ops, himage, hwalk⟩
  have hblank : ∀ x, Region entries x → hardwareWalk m1.mem b.cr3 (b.addr x) = none := by
    rintro x hx
    have hnone : sectionAt k.sections (b.addr x) = none := by
      rw [sectionAt, List.find?_eq_none]
      intro s hs
      simpa using hapart s (List.mem_reverse.mp hs) x hx
    rcases hx with ⟨e, he, hin⟩
    rw [hwalk _ ((hentries e he).window x hin).2, hnone]
    rfl
  rcases remapMemmap_eq (b := b) pmAllocateN hentries with ⟨pieces, hlaid, heq⟩
  rw [heq] at hloop
  have hall := (hlaid.allClear_iff hsrc himage.ok himage.sound himage.regular.root hstart hblank hloop).mpr
    hunder
  rcases hlaid.direct hsrc himage.ok himage.sound himage.regular.root hstart hblank hloop hall with
    ⟨hdirect, hfound⟩
  refine ⟨?_, ?_, ?_⟩
  . intro v hv hout
    rw [(hdirect.regular himage.regular).translate, hdirect.elsewhere v hv, hwalk v hv, Option.map_map]
    . cases hs : sectionAt k.sections v with
      | none => rfl
      | some s =>
        have hmem := List.mem_reverse.mp (List.mem_of_find?_eq_some hs)
        have hhas : s.Has v := by simpa using List.find?_some hs
        exact congrArg some ((hfits s hmem).translation hhas b.features)
    . intro p hp x hx
      exact hout x (hlaid.region p (List.mem_reverse.mp hp) x hx)
  . intro hnx s hs v
    simp only [Section.loaded, hnx, bne_iff_ne, Bool.true_and, Bool.not_not]
    rintro ⟨hwrite, hexec⟩
    exact hexec ((k.flags s hs).2.2 hwrite)
  . intro hreached e he x hx
    exact (hfound x ⟨e, he, .inl hx⟩ ((hentries e he).window x (.inl hx))).mpr (hreached e he x hx)

def sampleImage : Image where
  text := (0xFFFFFFFF80000000, 0xFFFFFFFF80000800)
  rodata := (0xFFFFFFFF80001000, 0xFFFFFFFF80001800)
  data := (0xFFFFFFFF80001800, 0xFFFFFFFF80002800)

theorem kernel_image_mapped_sample
    : ∃ m m', earlyPortMapMemory bumpPage sampleSetup 0x200000 0xFFFFFFFF80000000 sampleImage sampleMemmap m
          = .ok m' ∧
        Paging.translate portPat m'.mem 0x1000 0xFFFFFFFF80001123 =
          some ⟨0x201123, ⟨true, false, false⟩, true, some .wt⟩ := by
  obtain ⟨m', hrun⟩ : ∃ m', earlyPortMapMemory bumpPage sampleSetup 0x200000 0xFFFFFFFF80000000 sampleImage
      sampleMemmap firstMap = .ok m' := ⟨_, rfl⟩
  have hfits : ∀ s ∈ sampleImage.sections, s.Fits 0x200000 0xFFFFFFFF80000000 := by
    simp only [Image.sections, List.forall_mem_cons]
    refine ⟨⟨?_, ?_, ?_, ?_⟩, ⟨?_, ?_, ?_, ?_⟩, ⟨?_, ?_, ?_, ?_⟩, by simp⟩ <;> decide
  have hlow : ∀ x, Region sampleMemmap x → (sampleSetup.addr x).toNat < 0xFFFFFFFF80000000 := by
    rintro x ⟨e, he, hin⟩
    rw [Setup.toNat_addr ((sampleMemmap_fits e he).window x hin).1]
    have hx := sampleMemmap_lt ⟨e, he, hin⟩
    change 0xFFFF800000000000 + x < 0xFFFFFFFF80000000
    omega
  have hhigh : ∀ s ∈ sampleImage.sections, ∀ v : Addr, s.Has v → 0xFFFFFFFF80000000 ≤ v.toNat := by
    intro s hs v hv
    have hbase : ∀ s ∈ sampleImage.sections, 0xFFFFFFFF80000000 ≤ s.base := by
      simp only [Image.sections, List.forall_mem_cons]
      refine ⟨?_, ?_, ?_, by simp⟩ <;> decide
    exact Nat.le_trans (hbase s hs) hv.1
  have h := kernel_image_mapped pageSource_bumpPage (by decide) firstMap_init hfits sampleMemmap_fits (by decide)
    (fun s hs x hx hhas => absurd (hhigh s hs _ hhas) (Nat.not_le.mpr (hlow x hx))) sampleMemmap_under hrun
  refine ⟨firstMap, m', hrun, h.1 _ (by decide) ?_⟩
  rintro x hx heq
  have := hlow x hx
  rw [← heq] at this
  exact absurd this (by decide)

end Boot
end Nyy
