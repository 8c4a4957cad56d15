import NyyKernel.Boot.Remap
import NyyKernel.Pm.Lemmas

namespace Nyy
namespace Boot

open Paging

structure MemmapEntry where
  base : BitVec 64
  length : BitVec 64
  framebuffer : Bool
  deriving DecidableEq, Repr

def MemmapEntry.rounded (e : MemmapEntry) : Entry where
  base := pageAlignDown e.base
  length := Pm.pageAlignUp e.length
  cache := if e.framebuffer then .writecombine else .writeback

-- the loop of `early_port_map_memory`
def remapMemmap {σ : Type} (pmAllocateN : PmAllocate σ) (b : Setup) (m : Mmu σ) (entries : List MemmapEntry)
    : Except Fault (Mmu σ) :=
  remapEntries pmAllocateN b m (entries.map MemmapEntry.rounded)

def MemmapEntry.Has (e : MemmapEntry) (x : Nat) : Prop :=
  e.base.toNat ≤ x ∧ x < e.base.toNat + e.length.toNat

section

variable {σ : Type} {pmAllocateN : PmAllocate σ} {Ok : σ → Prop} {used : σ → Set Addr} {b : Setup}
  {m : Mmu σ}

structure MemmapEntry.Fits (b : Setup) (e : MemmapEntry) : Prop where
  physical : e.base.toNat + e.length.toNat ≤ 2 ^ 52
  rounded : e.rounded.base.toNat + e.rounded.length.toNat ≤ 2 ^ 52
  window : ∀ x, e.Has x ∨ e.rounded.Has x → b.Window x

def Region (entries : List MemmapEntry) (x : Nat) : Prop :=
  ∃ e ∈ entries, e.Has x ∨ e.rounded.Has x

def Reached (entries : List MemmapEntry) : Prop :=
  ∀ e ∈ entries, ∀ x, e.Has x → ∃ e' ∈ entries, e'.rounded.Has x

theorem toNat_pageAlignDown (a : Addr) : (pageAlignDown a).toNat = 2 ^ 12 * (a.toNat / 2 ^ 12) := by
  have hmask : (~~~(0x1000 - 1) : BitVec 64).toNat = Word.not (2 ^ 12 - 1) := by decide
  unfold pageAlignDown
  rw [BitVec.toNat_and, hmask]
  exact Word.and_not_low a.isLt (by decide)

structure Laid (b : Setup) (entries : List MemmapEntry) (pieces : List Piece) : Prop
    extends Plan b (entries.map MemmapEntry.rounded) pieces where
  fits : ∀ p ∈ pieces, p.Fits b
  region : ∀ p ∈ pieces, ∀ x, p.Covers x → Region entries x

theorem remapMemmap_eq (pmAllocateN : PmAllocate σ) {entries : List MemmapEntry}
    (hfits : ∀ e ∈ entries, e.Fits b)
    : ∃ pieces, Laid b entries pieces
      ∧ ∀ m, remapMemmap pmAllocateN b m entries = pieces.foldlM (mapPiece pmAllocateN b) m := by
  obtain ⟨pieces, hplan, heq⟩ : ∃ pieces, Plan b (entries.map MemmapEntry.rounded) pieces
      ∧ ∀ m, remapMemmap pmAllocateN b m entries = pieces.foldlM (mapPiece pmAllocateN b) m := by
    apply remapEntries_plan pmAllocateN
    . intro e he
      obtain ⟨e, _, rfl⟩ := List.mem_map.mp he
      change (pageAlignDown e.base).toNat % 2 ^ 12 = 0
      rw [toNat_pageAlignDown, Nat.mul_mod_right]
    . intro e hmem
      obtain ⟨e, he, rfl⟩ := List.mem_map.mp hmem
      have := (hfits e he).physical
      change (Pm.pageAlignUp e.length).toNat % 2 ^ 12 = 0
      rw [Pm.toNat_pageAlignUp (by omega), Nat.mul_mod_right]
    . intro e hmem
      obtain ⟨e, he, rfl⟩ := List.mem_map.mp hmem
      exact (hfits e he).rounded
  have hregion : ∀ p ∈ pieces, ∀ x, p.Covers x → Region entries x := by
    intro p hp x hx
    obtain ⟨e, hmem, hsource⟩ := hplan.source p hp
    obtain ⟨e, he, rfl⟩ := List.mem_map.mp hmem
    exact ⟨e, he, .inr (hsource x hx).1⟩
  refine ⟨pieces, ⟨hplan, ?_, hregion⟩, heq⟩
  refine fun p hp => ⟨hplan.ok p hp, ?_⟩
  intro x hx
  obtain ⟨e, he, hin⟩ := hregion p hp x hx
  exact (hfits e he).window x hin

theorem Laid.covered_iff {entries : List MemmapEntry} {pieces : List Piece} {x : Nat}
    (h : Laid b entries pieces)
    : (∃ p ∈ pieces.reverse, p.Covers x) ↔ ∃ e ∈ entries, e.rounded.Has x := by
  constructor
  . rintro ⟨p, hp, hcovers⟩
    obtain ⟨e, hmem, hsource⟩ := h.source p (List.mem_reverse.mp hp)
    obtain ⟨e, he, rfl⟩ := List.mem_map.mp hmem
    exact ⟨e, he, (hsource x hcovers).1⟩
  . rintro ⟨e, he, hx⟩
    obtain ⟨p, hp, hcovers, _⟩ := h.complete _ (List.mem_map_of_mem he) x hx
    exact ⟨p, List.mem_reverse.mpr hp, hcovers⟩

section

variable (hsrc : PageSource pmAllocateN Ok used) (hok : Ok m.pm) (hsound : Sound m.mem b.cr3 (used m.pm))
  (hroot : ∀ i, isLarge (m.mem b.cr3 i) = false) (hstart : b.hhdmStart.toNat % 2 ^ 30 = 0)
  {entries : List MemmapEntry} {pieces : List Piece} (hlaid : Laid b entries pieces)
  (hblank : ∀ x, Region entries x → hardwareWalk m.mem b.cr3 (b.addr x) = none)

include hsrc hok hsound hroot hstart hlaid hblank

theorem Laid.allClear_iff {m' : Mmu σ} (hm' : pieces.foldlM (mapPiece pmAllocateN b) m = .ok m')
    : AllClear pmAllocateN b pieces m
        ↔ entries.Pairwise (fun e e' => e.rounded.Under b e'.rounded) := by
  have hnone : Direct b used m.mem [] m := .nil hsound hroot
  rw [← List.pairwise_map, ← hlaid.nested]
  refine ⟨fun hall => (hnone.run hsrc hstart hok (by simp) hlaid.fits hm' hall).1.1, fun hpairs => ?_⟩
  exact hnone.allClear hsrc hstart hok (by simp) hlaid.fits
    (fun p hp => hblank _ (hlaid.region p hp _ p.covers_base)) hpairs (by simp)

theorem Laid.direct {m' : Mmu σ} (hm' : pieces.foldlM (mapPiece pmAllocateN b) m = .ok m')
    (hall : AllClear pmAllocateN b pieces m)
    : Direct b used m.mem pieces.reverse m'
      ∧ ∀ x, Region entries x → b.Window x → (Found b m' x ↔ ∃ e ∈ entries, e.rounded.Has x) := by
  have hend := ((Direct.nil hsound hroot).run hsrc hstart hok (by simp) hlaid.fits hm' hall).2
  rw [List.append_nil] at hend
  refine ⟨hend, ?_⟩
  intro x hx hwindow
  rw [hend.found_iff (fun p hp => hlaid.fits p (List.mem_reverse.mp hp)) hstart hwindow (hblank x hx),
    hlaid.covered_iff]

end

/--
All bytes are mapped, and no walk passes a large page, exactly if all are in rounded entries with
pages that are not smaller than those of earlier ones.
-/
theorem memory_map_covered_iff (hsrc : PageSource pmAllocateN Ok used) (hok : Ok m.pm)
    (hsound : Sound m.mem b.cr3 (used m.pm)) (hroot : ∀ i, isLarge (m.mem b.cr3 i) = false)
    (hstart : b.hhdmStart.toNat % 2 ^ 30 = 0) {entries : List MemmapEntry} (hfits : ∀ e ∈ entries, e.Fits b)
    (hblank : ∀ x, Region entries x → hardwareWalk m.mem b.cr3 (b.addr x) = none)
    : ∃ pieces,
      (∀ m, remapMemmap pmAllocateN b m entries = pieces.foldlM (mapPiece pmAllocateN b) m)
      ∧ (∀ f, remapMemmap pmAllocateN b m entries = .error f → ∃ a, pmAllocateN a = .error f)
      ∧ ∀ m', remapMemmap pmAllocateN b m entries = .ok m'
        → ((∀ e ∈ entries, ∀ x, e.Has x → Found b m' x) ∧ AllClear pmAllocateN b pieces m
            ↔ Reached entries
              ∧ entries.Pairwise (fun e e' => e.rounded.Under b e'.rounded)) := by
  obtain ⟨pieces, hlaid, heq⟩ := remapMemmap_eq (b := b) pmAllocateN hfits
  refine ⟨pieces, heq, ?_, ?_⟩
  . intro f hf
    rw [heq] at hf
    exact foldlM_mapPiece_error hf
  . intro m' hm'
    rw [heq] at hm'
    rw [← hlaid.allClear_iff hsrc hok hsound hroot hstart hblank hm']
    refine and_congr_left ?_
    intro hall
    have hfound := (hlaid.direct hsrc hok hsound hroot hstart hblank hm' hall).2
    have hiff : ∀ e ∈ entries, ∀ x, e.Has x → (Found b m' x ↔ ∃ e' ∈ entries, e'.rounded.Has x) :=
      fun e he x hx => hfound x ⟨e, he, .inl hx⟩ ((hfits e he).window x (.inl hx))
    constructor
    . intro h e he x hx
      exact (hiff e he x hx).mp (h e he x hx)
    . intro h e he x hx
      exact (hiff e he x hx).mpr (h e he x hx)

end

def sampleMemmap : List MemmapEntry := [⟨0x800, 0x700, false⟩, ⟨0x1000, 0x1800, true⟩]

theorem sampleMemmap_lt {x : Nat} (h : Region sampleMemmap x) : x < 0x3000 := by
  rcases h with ⟨e, he, hx⟩
  have hend : ∀ e ∈ sampleMemmap, e.base.toNat + e.length.toNat ≤ 0x3000 ∧
      e.rounded.base.toNat + e.rounded.length.toNat ≤ 0x3000 := by
    decide
  rcases hx with hx | hx
  . exact Nat.lt_of_lt_of_le hx.2 (hend e he).1
  . exact Nat.lt_of_lt_of_le hx.2 (hend e he).2

theorem sampleMemmap_fits : ∀ e ∈ sampleMemmap, e.Fits sampleSetup := by
  intro e he
  have hphysical : ∀ e ∈ sampleMemmap, e.base.toNat + e.length.toNat ≤ 2 ^ 52 ∧
      e.rounded.base.toNat + e.rounded.length.toNat ≤ 2 ^ 52 := by
    decide
  refine ⟨(hphysical e he).1, (hphysical e he).2, ?_⟩
  intro x hx
  have hlt := sampleMemmap_lt ⟨e, he, hx⟩
  apply Setup.window_of_high
  . decide
  . change 0xFFFF800000000000 + x < 2 ^ 64
    omega

theorem sampleMemmap_under
    : sampleMemmap.Pairwise (fun e e' => e.rounded.Under sampleSetup e'.rounded) := by
  unfold sampleMemmap
  rw [List.pairwise_pair]
  intro x hx hx'
  exact absurd (Nat.lt_of_lt_of_le hx.2 hx'.1) (Nat.lt_irrefl x)

theorem memory_map_covered_iff_sample
    : ∃ m m', vmPortInitMap bumpPage ⟨fun _ _ => 0, 1⟩ = .ok (0x1000, m)
      ∧ remapMemmap bumpPage sampleSetup m sampleMemmap = .ok m'
      ∧ Found sampleSetup m' 0x27FF := by
  obtain ⟨m', hrun⟩ : ∃ m', remapMemmap bumpPage sampleSetup firstMap sampleMemmap = .ok m' := ⟨_, rfl⟩
  have hblank : ∀ x, Region sampleMemmap x
      → hardwareWalk firstMap.mem 0x1000 (sampleSetup.addr x) = none := by
    rintro x ⟨e, he, hx⟩
    exact firstMap_refines.walk _ ((sampleMemmap_fits e he).window x hx).2
  obtain ⟨pieces, _, _, hiff⟩ := @memory_map_covered_iff Nat bumpPage _ _ sampleSetup firstMap
    pageSource_bumpPage (by decide) firstMap_refines.sound (fun _ => isLarge_zero) (by decide) sampleMemmap
    sampleMemmap_fits hblank
  have hreached : Reached sampleMemmap := by
    intro e he x hx
    refine ⟨e, he, ?_⟩
    simp only [sampleMemmap, List.mem_cons, List.not_mem_nil, or_false] at he
    rcases he with rfl | rfl
    . exact ⟨Nat.zero_le x, Nat.lt_trans hx.2 (by decide)⟩
    . exact ⟨hx.1, Nat.lt_trans hx.2 (by decide)⟩
  refine ⟨firstMap, m', firstMap_init, hrun, ?_⟩
  exact ((hiff m' hrun).mpr ⟨hreached, sampleMemmap_under⟩).1 ⟨0x1000, 0x1800, true⟩ (by decide) 0x27FF
    ⟨by decide, by decide⟩

theorem memory_map_not_covered
    : ((remapMemmap bumpPage sampleSetup ⟨fun _ _ => 0, 2⟩ [⟨0xFFF, 2, false⟩]).map
          (fun m => hardwareWalk m.mem 0x1000 (sampleSetup.addr 0x1000)) = .ok none)
      ∧ ((remapMemmap bumpPage sampleSetup ⟨fun _ _ => 0, 2⟩
            [⟨0, 0x1FF800, false⟩, ⟨0x1FF800, 0x800, false⟩]).map
          (fun m => (hardwareWalk m.mem 0x1000 (sampleSetup.addr 0x1FF800), m.mem 0 0x1FF))
        = .ok (some (.page2M 0x8000000000000183), 0x80000000001FF103)) := by
  constructor
  . rfl
  . rfl

end Boot
end Nyy
