import NyyKernel.Kmem.Wire
import NyyKernel.Lib.Run
import NyyKernel.Paging.Lemmas.Change

/-!
This module contains the translations that the processor keeps.
-/

namespace Nyy
namespace Kmem

open Pm
open Paging
open Slab (pageSize)

structure TlbEntry where
  vaddr : Addr
  leaf : Leaf
  deriving DecidableEq, Repr

def TlbEntry.Covers (e : TlbEntry) (v : Addr) : Prop := InPage e.leaf.size e.vaddr v

instance (e : TlbEntry) (v : Addr) : Decidable (e.Covers v) :=
  inferInstanceAs (Decidable (InPage e.leaf.size e.vaddr v))

-- The operand of the instruction is the place in memory that `vaddr.addr` is stored in.
def invlpg (operand : Addr) (tlb : List TlbEntry) : List TlbEntry :=
  tlb.filter (fun e => ¬ e.Covers operand)

structure Cpu where
  mmu : Mmu State
  tlb : List TlbEntry

inductive Call where
  | map (paddr vaddr : Addr) (cache : CacheMode) (flags : BitVec 64) (operand : Addr)
  | unmap (vaddr : Addr) (flags : BitVec 64)
  | wire (vaddr operand : Addr)
  | unwire (vaddr : Addr)
  deriving DecidableEq, Repr

def Call.vaddr : Call → Addr
  | .map _ vaddr _ _ _ | .unmap vaddr _ | .wire vaddr _ | .unwire vaddr => vaddr

def Call.size : Call → PageSize
  | .map _ _ _ flags _ | .unmap _ flags => pageSizeOf flags
  | .wire _ _ | .unwire _ => .kib4

def Call.operand : Call → Option Addr
  | .map _ _ _ _ operand | .wire _ operand => some operand
  | .unmap _ _ | .unwire _ => none

def Call.invalidate (call : Call) (tlb : List TlbEntry) : List TlbEntry :=
  match call.operand with
  | some operand => invlpg operand tlb
  | none => tlb

-- `early` is what the processor accesses in the call before the entry is stored, `late` is after that.
inductive CpuOp where
  | call (call : Call) (early late : List Addr)
  | access (vaddrs : List Addr)
  deriving DecidableEq, Repr

section Run

variable (k : Setup)

def Call.run (m : Mmu State) : Call → Except Fault (Mmu State)
  | .map paddr vaddr cache flags _ =>
    vmPortMap (tablePage k.cfg) k.cfg k.features m k.kmap paddr vaddr cache flags
  | .unmap vaddr flags => vmPortUnmap (tablePage k.cfg) k.cfg k.features m k.kmap vaddr flags
  | .wire vaddr _ => wirePage k vaddr.toNat m
  | .unwire vaddr => unwirePage k vaddr.toNat m

def fill (m : Mmu State) (vaddrs : List Addr) (tlb : List TlbEntry) : List TlbEntry :=
  (vaddrs.filter Canonical).filterMap (fun v => (hardwareWalk m.mem k.kmap v).map (TlbEntry.mk v)) ++ tlb

def cpuStep (s : Cpu) : CpuOp → Except Fault Cpu
  | .call call early late => do
    let mmu ← call.run k s.mmu
    return ⟨mmu, call.invalidate (fill k mmu late (fill k s.mmu early s.tlb))⟩
  | .access vaddrs => .ok ⟨s.mmu, fill k s.mmu vaddrs s.tlb⟩

def CpuOp.Single : CpuOp → Prop
  | .call (.map _ _ _ flags _) _ _ => ¬ Emulated k.features flags
  | _ => True

def CpuStep (s : Cpu) (op : CpuOp) (s' : Cpu) : Prop := op.Single k ∧ cpuStep k s op = .ok s'

structure CpuStart (s : Cpu) : Prop where
  pages : PagesOk s.mmu.pm
  sound : Sound s.mmu.mem k.kmap (frames .vm s.mmu.pm)
  tlb : s.tlb = []

-- the entry is what the tables say of every address that it is used for
def Current (s : Cpu) (e : TlbEntry) : Prop :=
  ∀ w, e.Covers w → hardwareWalk s.mmu.mem k.kmap w = some e.leaf

structure Call.Changeable (s : Cpu) (call : Call) : Prop where
  canonical : Canonical call.vaddr
  clear : Clear s.mmu.mem k.kmap (slotPath call.size.flags call.vaddr)

def Wires (s : Cpu) (v : Addr) (entry : BitVec 64) (p : PagePtr) : Prop :=
  hardwareWalk s.mmu.mem k.kmap v = some (.page4K entry) ∧
    HasFrame s.mmu.pm .wired (entry &&& pteAddress) p

/--
When the entry of a page is stored the processor keeps no translation of the page, apart from those that
`invlpg` drops because its argument happens to be stored in the same page.
-/
def NotKept (s : Cpu) : CpuOp → Prop
  | .call call early _ => call.Changeable k s ∧
    (∀ e ∈ fill k s.mmu early s.tlb, InPage call.size call.vaddr e.vaddr →
      ∃ operand ∈ call.operand, e.Covers operand) ∧
    ∀ v, call = .unwire v → ∃ entry p, Wires k s v entry p
  | .access _ => True

-- no other page leads to the frame of the page
def Alone (s : Cpu) (v : Addr) : Prop :=
  ∀ w leaf leaf', Canonical w → ¬ InPage .kib4 v w → hardwareWalk s.mmu.mem k.kmap w = some leaf →
    hardwareWalk s.mmu.mem k.kmap v = some leaf' → leaf.frame w ≠ leaf'.frame v

structure CpuInv (s : Cpu) : Prop where
  pages : PagesOk s.mmu.pm
  sound : Sound s.mmu.mem k.kmap (frames .vm s.mmu.pm)
  canonical : ∀ e ∈ s.tlb, Canonical e.vaddr
  current : ∀ e ∈ s.tlb, hardwareWalk s.mmu.mem k.kmap e.vaddr = some e.leaf

end Run

variable {k : Setup} {s s' : Cpu} {operand v w : Addr} {tlb : List TlbEntry} {size : PageSize}
  {mmu : Mmu State} {flags : BitVec 64} {ops : List CpuOp} {call : Call} {early late : List Addr}
  {e : TlbEntry}

theorem mem_fill
    : e ∈ fill k mmu early tlb ↔ (e.vaddr ∈ early ∧ Canonical e.vaddr ∧
        hardwareWalk mmu.mem k.kmap e.vaddr = some e.leaf) ∨ e ∈ tlb := by
  rcases e with ⟨v, leaf⟩
  simp only [fill, List.mem_append, List.mem_filterMap, List.mem_filter, decide_eq_true_eq,
    Option.map_eq_some_iff, TlbEntry.mk.injEq]
  constructor
  . rintro (⟨_, hv, _, hwalk, rfl, rfl⟩ | hmem)
    . exact .inl ⟨hv.1, hv.2, hwalk⟩
    . exact .inr hmem
  . rintro (⟨hv, hcanonical, hwalk⟩ | hmem)
    . exact .inl ⟨v, ⟨hv, hcanonical⟩, leaf, hwalk, rfl, rfl⟩
    . exact .inr hmem

theorem mem_invalidate
    : e ∈ call.invalidate tlb ↔ e ∈ tlb ∧ ¬ ∃ operand ∈ call.operand, e.Covers operand := by
  unfold Call.invalidate
  cases call.operand <;> simp [invlpg]

theorem canonical_of_inPage (hv : Canonical v) (h : InPage size v w) : Canonical w := by
  rw [canonical_iff] at hv ⊢
  unfold InPage at h
  cases size <;> simp only [PageSize.bytes, PageSize.level] at h <;> omega

theorem page_eq_iff : page w = page v ↔ InPage .kib4 v w := by
  rw [← BitVec.toNat_inj]
  simp only [page, BitVec.toNat_ushiftRight, Nat.shiftRight_eq_div_pow]
  exact eq_comm

theorem CpuInv.covered (h : CpuInv k s) : ∀ e ∈ s.tlb, Current k s e := by
  intro e he w hw
  have hcanonical := h.canonical e he
  have hslot := (slot_eq_iff hcanonical (canonical_of_inPage hcanonical hw)).mpr hw
  exact hardwareWalk_of_slot (h.current e he) hslot.symm

theorem CpuInv.fill (h : CpuInv k s) (vaddrs : List Addr) : CpuInv k ⟨s.mmu, fill k s.mmu vaddrs s.tlb⟩ := by
  refine ⟨h.pages, h.sound, ?_, ?_⟩
  . intro e he
    rcases mem_fill.mp he with hnew | hold
    . exact hnew.2.1
    . exact h.canonical e hold
  . intro e he
    rcases mem_fill.mp he with hnew | hold
    . exact hnew.2.2
    . exact h.current e hold

-- what a call leaves in the tables outside its page
structure Call.Leaves (k : Setup) (call : Call) (m m' : Mmu State) : Prop where
  pages : PagesOk m'.pm
  sound : Sound m'.mem k.kmap (frames .vm m'.pm)
  elsewhere : ∀ w, Canonical w → ¬ InPage call.size call.vaddr w →
    hardwareWalk m'.mem k.kmap w = hardwareWalk m.mem k.kmap w

theorem CpuInv.of_leaves (h : CpuInv k s) (hleaves : call.Leaves k s.mmu mmu)
    (hkept : ∀ e ∈ s.tlb, InPage call.size call.vaddr e.vaddr → ∃ operand ∈ call.operand, e.Covers operand)
    : CpuInv k ⟨mmu, call.invalidate (Kmem.fill k mmu late s.tlb)⟩ := by
  refine ⟨hleaves.pages, hleaves.sound, ?_, ?_⟩
  . intro e he
    rcases mem_fill.mp (mem_invalidate.mp he).1 with hnew | hold
    . exact hnew.2.1
    . exact h.canonical e hold
  . intro e he
    rcases mem_invalidate.mp he with ⟨hmem, hdropped⟩
    rcases mem_fill.mp hmem with hnew | hold
    . exact hnew.2.2
    . have hout := fun hin => hdropped (hkept e hold hin)
      exact (hleaves.elsewhere _ (h.canonical e hold) hout).trans (h.current e hold)

theorem Call.Leaves.of_changed (h : CpuInv k s)
    (hchanged : Changed (tablePage k.cfg) (frames .vm) k.kmap call.vaddr call.size s.mmu mmu)
    : call.Leaves k s.mmu mmu :=
  ⟨(pageSource k.cfg).ok_of_taken h.pages hchanged.taken, hchanged.sound, hchanged.elsewhere⟩

theorem CpuInv.wire (h : CpuInv k s) (hchange : (Call.wire v operand).Changeable k s)
    (hwire : wirePage k v.toNat s.mmu = .ok mmu)
    : (Call.wire v operand).Leaves k s.mmu mmu := by
  have hv : BitVec.ofNat 64 v.toNat = v := by simp
  rcases wirePage_spec h.pages h.sound (hv.symm ▸ hchange.canonical) (hv.symm ▸ hchange.clear) hwire with
    ⟨p, a, pm, hwired⟩
  rw [hv] at hwired
  refine ⟨(pageSource k.cfg).ok_of_taken hwired.ok hwired.remapped.taken, hwired.remapped.sound, ?_⟩
  intro w hw hout
  exact hwired.remapped.elsewhere w hw (mt page_eq_iff.mp hout)

theorem CpuInv.unwire (h : CpuInv k s) (hchange : (Call.unwire v).Changeable k s) {entry : BitVec 64}
    {p : PagePtr} (hwires : Wires k s v entry p) (hunwire : unwirePage k v.toNat s.mmu = .ok mmu)
    : (Call.unwire v).Leaves k s.mmu mmu ∧
        (∀ w, InPage .kib4 v w → hardwareWalk mmu.mem k.kmap w = none) ∧
        HasFrame mmu.pm .free (entry &&& pteAddress) p ∧ p ∈ mmu.pm.buddyFreelist 0 := by
  rcases hwires with ⟨hwalk, hframe⟩
  have hv : BitVec.ofNat 64 v.toNat = v := by simp
  rcases unwirePage_spec h.pages h.sound (hv.symm ▸ hchange.canonical) (hv.symm ▸ hchange.clear)
    (hv.symm ▸ hwalk) hframe hunwire with ⟨hremapped, hfree⟩
  rw [hv] at hremapped
  rcases h.pages.free hframe (by decide) (by decide) hfree with ⟨hok, hreused, hlist, _⟩
  have hsound : Sound mmu.mem k.kmap (frames .vm mmu.pm) := by
    rw [hreused.frames_other (by decide) (by decide)]
    exact hremapped.sound
  refine ⟨⟨hok, hsound, ?_⟩, fun w hw => hremapped.here w (page_eq_iff.mpr hw), hreused.after,
    by simp [hlist]⟩
  intro w hw hout
  exact hremapped.elsewhere w hw (mt page_eq_iff.mp hout)

theorem CpuInv.leaves (h : CpuInv k s)
    (hstep : Guarded (NotKept k) (CpuStep k) s (.call call early late) s')
    : call.Leaves k s.mmu s'.mmu := by
  rcases hstep with ⟨⟨hchange, _, hwires⟩, hsingle, he⟩
  rcases Except.bind_eq_ok he with ⟨mmu, hrun, he⟩
  cases he
  cases call with
  | map paddr v cache flags operand =>
    rcases vmPortMap_entry hsingle hrun with ⟨entry, hentry, hmap⟩
    exact .of_changed h (mapEntry_changed (pageSource k.cfg) h.pages h.sound hchange.clear
      hchange.canonical hentry hmap)
  | unmap v flags =>
    exact .of_changed h (vmPortUnmap_changed (pageSource k.cfg) h.pages h.sound hchange.clear
      hchange.canonical hrun).1
  | wire v operand => exact h.wire hchange hrun
  | unwire v =>
    rcases hwires v rfl with ⟨entry, p, hwires⟩
    exact (h.unwire hchange hwires hrun).1

theorem CpuInv.step (h : CpuInv k s) {op : CpuOp} (hstep : Guarded (NotKept k) (CpuStep k) s op s')
    : CpuInv k s' := by
  cases op with
  | call call early late =>
    have hleaves := h.leaves hstep
    rcases hstep with ⟨⟨_, hkept, _⟩, _, he⟩
    rcases Except.bind_eq_ok he with ⟨mmu, _, he⟩
    cases he
    have hearly := h.fill early
    exact hearly.of_leaves hleaves hkept
  | access vaddrs =>
    cases hstep.2.2
    exact h.fill vaddrs

theorem CpuInv.reach (hr : Reach (CpuStart k) (Guarded (NotKept k) (CpuStep k)) s) : CpuInv k s := by
  refine hr.invariant ?_ (fun s op s' h hstep => h.step hstep)
  intro s hs
  refine ⟨hs.pages, hs.sound, ?_, ?_⟩
  . simp [hs.tlb]
  . simp [hs.tlb]

theorem kept_translations_current (hr : Reach (CpuStart k) (Guarded (NotKept k) (CpuStep k)) s)
    : (∀ e ∈ s.tlb, Current k s e) ∧
        -- `pte_walk` adds empty tables, so up to the store a translation gained is one of the old tables
        (∀ v flags r m, Clear s.mmu.mem k.kmap (slotPath flags v) →
          pteWalk (tablePage k.cfg) s.mmu k.kmap v flags = .ok (r, m) →
          ∀ w, hardwareWalk m.mem k.kmap w = hardwareWalk s.mmu.mem k.kmap w) ∧
        ∀ v early late s', Guarded (NotKept k) (CpuStep k) s (.call (.unwire v) early late) s' →
          ∃ entry p, Wires k s v entry p ∧ HasFrame s'.mmu.pm .free (entry &&& pteAddress) p ∧
            p ∈ s'.mmu.pm.buddyFreelist 0 ∧ (∀ e ∈ s'.tlb, ∀ w, e.Covers w → ¬ InPage .kib4 v w) ∧
            (Alone k s v → ∀ e ∈ s'.tlb, ∀ w, e.Covers w → e.leaf.frame w ≠ entry &&& pteAddress) := by
  have h := CpuInv.reach hr
  refine ⟨h.covered, ?_, ?_⟩
  . intro v flags r m hclear hwalk w
    exact (pteWalk_spec (pageSource k.cfg) h.pages h.sound hclear hwalk).walked.same.hardwareWalk w
  . rintro v early late s' hstep
    have h' := h.step hstep
    rcases hstep with ⟨⟨hchange, _, hwires⟩, _, he⟩
    rcases Except.bind_eq_ok he with ⟨mmu, hrun, he⟩
    cases he
    rcases hwires v rfl with ⟨entry, p, hwires⟩
    rcases h.unwire hchange hwires hrun with ⟨hleaves, hnone, hframe, hmem⟩
    have hout : ∀ e ∈ (Call.unwire v).invalidate (fill k mmu late (fill k s.mmu early s.tlb)), ∀ w, e.Covers w →
        ¬ InPage .kib4 v w := by
      intro e he w hcovers hin
      have hwalk := h'.covered e he w hcovers
      rw [hnone w hin] at hwalk
      cases hwalk
    refine ⟨entry, p, hwires, hframe, hmem, hout, ?_⟩
    intro halone e he w hcovers
    have hw := canonical_of_inPage (h'.canonical e he) hcovers
    have hwalk := (hleaves.elsewhere w hw (hout e he w hcovers)).symm.trans (h'.covered e he w hcovers)
    exact halone w e.leaf _ hw (hout e he w hcovers) hwalk hwires.1

def smallCpu : Except Fault Cpu := do
  let (_, mmu) ← smallMap
  return ⟨mmu, []⟩

theorem smallCpu_start (h : smallCpu = .ok s)
    : CpuStart smallSetup s ∧ ∀ v, Canonical v → hardwareWalk s.mmu.mem smallSetup.kmap v = none := by
  rcases Except.bind_eq_ok h with ⟨⟨kmap, mmu⟩, hmap, h⟩
  cases h
  rcases smallMap_blank hmap with ⟨hok, hrefines⟩
  exact ⟨⟨hok, hrefines.sound, rfl⟩, hrefines.walk⟩

def clearAt (s : Cpu) (v : Addr) : Bool :=
  Radix.find tableBelow s.mmu.mem smallSetup.kmap isLarge [] (index v 3) = none &&
    Radix.find tableBelow s.mmu.mem smallSetup.kmap isLarge [index v 3] (index v 2) = none &&
    Radix.find tableBelow s.mmu.mem smallSetup.kmap isLarge [index v 3, index v 2] (index v 1) = none

theorem changeable_of_clearAt (hsize : call.size = .kib4) (hv : Canonical call.vaddr)
    (h : clearAt s call.vaddr = true)
    : call.Changeable smallSetup s := by
  simp only [clearAt, Bool.and_eq_true, decide_eq_true_eq] at h
  exact ⟨hv, hsize ▸ clear_pagePath h.1.1 h.1.2 h.2⟩

def wireFirst : CpuOp := .call (.wire 0xFFFFE00000000000 0x7000) [] []

-- the new page is accessed before the instruction that should have dropped its translation
def wireSecond : CpuOp := .call (.wire 0xFFFFE00000001000 0x7000) [] [0xFFFFE00000001000]

def unwireFirst : CpuOp := .call (.unwire 0xFFFFE00000000000) [0xFFFFE00000001000] [0xFFFFE00000000000]

def keptRun : Except Fault (Cpu × Cpu × Cpu × Cpu) := do
  let s0 ← smallCpu
  let s1 ← cpuStep smallSetup s0 wireFirst
  let s2 ← cpuStep smallSetup s1 wireSecond
  let s3 ← cpuStep smallSetup s2 unwireFirst
  return (s0, s1, s2, s3)

theorem kept_translations_current_small
    : ∃ s s', Reach (CpuStart smallSetup) (Guarded (NotKept smallSetup) (CpuStep smallSetup)) s ∧
        Guarded (NotKept smallSetup) (CpuStep smallSetup) s unwireFirst s' ∧ s'.tlb.length = 2 ∧
        (∀ e ∈ s.tlb, Current smallSetup s e) ∧
        ∃ p, HasFrame s'.mmu.pm .free 0x102000 p ∧ p ∈ s'.mmu.pm.buddyFreelist 0 ∧
          ∀ e ∈ s'.tlb, ∀ w, e.Covers w → e.leaf.frame w ≠ 0x102000 := by
  have hrun : keptRun.map (fun (s0, s1, s2, s3) => decide (
      (clearAt s0 0xFFFFE00000000000 ∧ clearAt s1 0xFFFFE00000001000 ∧ clearAt s2 0xFFFFE00000000000) ∧
      s1.tlb = [] ∧ s2.tlb = [⟨0xFFFFE00000001000, .page4K 0x10600b⟩] ∧ s3.tlb.length = 2 ∧
      fill smallSetup s2.mmu [0xFFFFE00000001000] s2.tlb =
        [⟨0xFFFFE00000001000, .page4K 0x10600b⟩, ⟨0xFFFFE00000001000, .page4K 0x10600b⟩] ∧
      hardwareWalk s2.mmu.mem smallSetup.kmap 0xFFFFE00000000000 = some (.page4K 0x10200b) ∧
      s2.mmu.pm.page? ⟨0, 2⟩ = some ⟨0x102, .wired, 0⟩)) = .ok true := by
    decide +kernel
  rcases Except.map_eq_ok hrun with ⟨⟨s0, s1, s2, s3⟩, hs, hfacts⟩
  rcases of_decide_eq_true hfacts with ⟨⟨hclear0, hclear1, hclear2⟩, htlb1, htlb2, htlb3, hfill, hwalk, hpage⟩
  rcases Except.bind_eq_ok hs with ⟨_, hstart, hs⟩
  rcases Except.bind_eq_ok hs with ⟨_, he1, hs⟩
  rcases Except.bind_eq_ok hs with ⟨_, he2, hs⟩
  rcases Except.bind_eq_ok hs with ⟨_, he3, hs⟩
  cases hs
  rcases smallCpu_start hstart with ⟨hcpu, hblank⟩
  have hstep0 : Guarded (NotKept smallSetup) (CpuStep smallSetup) s0 wireFirst s1 :=
    ⟨⟨changeable_of_clearAt rfl (by decide) hclear0, by simp [fill, hcpu.tlb], by simp⟩, trivial, he1⟩
  have hstep1 : Guarded (NotKept smallSetup) (CpuStep smallSetup) s1 wireSecond s2 :=
    ⟨⟨changeable_of_clearAt rfl (by decide) hclear1, by simp [fill, htlb1], by simp⟩, trivial, he2⟩
  have hwired : Wires smallSetup s2 0xFFFFE00000000000 0x10200b ⟨0, 2⟩ := ⟨hwalk, _, hpage, rfl, by decide⟩
  have hstep : Guarded (NotKept smallSetup) (CpuStep smallSetup) s2 unwireFirst s3 := by
    refine ⟨⟨changeable_of_clearAt rfl (by decide) hclear2, ?_, ?_⟩, trivial, he3⟩
    . rw [hfill]
      decide
    . rintro v hv
      cases hv
      exact ⟨_, _, hwired⟩
  have h0 : Reach (CpuStart smallSetup) (Guarded (NotKept smallSetup) (CpuStep smallSetup)) s0 :=
    .start hcpu
  have h1 := h0.next hstep0
  have h2 := h1.next hstep1
  have halone : Alone smallSetup s2 0xFFFFE00000000000 := by
    intro w leaf leaf' hw hout hleaf hleaf'
    rw [hwalk] at hleaf'
    cases hleaf'
    by_cases hin : InPage .kib4 0xFFFFE00000001000 w
    . have hsecond := (CpuInv.reach h2).covered
        ⟨0xFFFFE00000001000, .page4K 0x10600b⟩ (htlb2 ▸ List.mem_cons_self) w hin
      rw [hsecond] at hleaf
      cases hleaf
      change 0x10600b &&& pteAddress ≠ 0x10200b &&& pteAddress
      decide
    . have hlast := (CpuInv.reach h1).leaves hstep1
      have hfirst := (CpuInv.reach h0).leaves hstep0
      rw [hlast.elsewhere w hw hin, hfirst.elsewhere w hw hout, hblank w hw] at hleaf
      cases hleaf
  rcases kept_translations_current h2 with ⟨hcurrent, _, hunwire⟩
  rcases hunwire _ _ _ _ hstep with ⟨entry, p, hwires, hfree, hmem, _, hgone⟩
  have hentry := hwalk.symm.trans hwires.1
  cases hentry
  exact ⟨s2, s3, h2, hstep, htlb3, hcurrent, p, hfree, hmem, hgone halone⟩

def smallRuns (ops : List CpuOp) : Except Fault Cpu := do
  let s ← smallCpu
  ops.foldlM (cpuStep smallSetup) s

theorem reach_smallRuns (hsingle : ∀ op ∈ ops, op.Single smallSetup) (h : smallRuns ops = .ok s)
    : Reach (CpuStart smallSetup) (CpuStep smallSetup) s := by
  rcases Except.bind_eq_ok h with ⟨s0, hstart, h⟩
  exact Reach.foldlM (fun _ op hop _ he => ⟨hsingle op hop, he⟩) (.start (smallCpu_start hstart).1) h

def unwireAccessed : List CpuOp :=
  [wireFirst, .access [0xFFFFE00000000000], .call (.unwire 0xFFFFE00000000000) [] []]

def remapAccessed : List CpuOp :=
  [.call (.map 0x5000 0xFFFFE00000000000 .writeback kVmAll 0x7000) [] [], .access [0xFFFFE00000000000],
    .call (.map 0x6000 0xFFFFE00000000000 .writeback kVmAll 0x7000) [] []]

theorem translation_outlives_mapping
    : (∃ s, Reach (CpuStart smallSetup) (CpuStep smallSetup) s ∧ ∃ e ∈ s.tlb,
          hardwareWalk s.mmu.mem smallSetup.kmap e.vaddr = none ∧
          ∃ p, HasFrame s.mmu.pm .free (e.leaf.frame e.vaddr) p ∧ p ∈ s.mmu.pm.buddyFreelist 0) ∧
        (∃ s, Reach (CpuStart smallSetup) (CpuStep smallSetup) s ∧ ∃ e ∈ s.tlb, ∃ leaf,
          hardwareWalk s.mmu.mem smallSetup.kmap e.vaddr = some leaf ∧
          e.leaf.frame e.vaddr = 0x5000 ∧ leaf.frame e.vaddr = 0x6000) := by
  constructor
  . have hrun : (smallRuns unwireAccessed).map (fun s => decide (
        s.tlb = [⟨0xFFFFE00000000000, .page4K 0x10200b⟩] ∧
        hardwareWalk s.mmu.mem smallSetup.kmap 0xFFFFE00000000000 = none ∧
        s.mmu.pm.page? ⟨0, 2⟩ = some ⟨0x102, .free, 0⟩ ∧
        ⟨0, 2⟩ ∈ s.mmu.pm.buddyFreelist 0)) = .ok true := by
      decide +kernel
    rcases Except.map_eq_ok hrun with ⟨s, hs, hfacts⟩
    rcases of_decide_eq_true hfacts with ⟨htlb, hwalk, hpage, hmem⟩
    have hreach := reach_smallRuns (by simp [unwireAccessed, wireFirst, CpuOp.Single]) hs
    refine ⟨s, hreach, ⟨0xFFFFE00000000000, .page4K 0x10200b⟩, by rw [htlb]; exact List.mem_cons_self,
      hwalk, ⟨0, 2⟩, ⟨_, hpage, rfl, ?_⟩, hmem⟩
    decide
  . have hrun : (smallRuns remapAccessed).map (fun s => decide (
        s.tlb = [⟨0xFFFFE00000000000, .page4K 0x5003⟩] ∧
        hardwareWalk s.mmu.mem smallSetup.kmap 0xFFFFE00000000000 = some (.page4K 0x6003)))
        = .ok true := by
      decide +kernel
    rcases Except.map_eq_ok hrun with ⟨s, hs, hfacts⟩
    rcases of_decide_eq_true hfacts with ⟨htlb, hwalk⟩
    have hsmall : ¬ Emulated smallSetup.features kVmAll := by decide
    have hreach := reach_smallRuns (by simp [remapAccessed, CpuOp.Single, hsmall]) hs
    refine ⟨s, hreach, ⟨0xFFFFE00000000000, .page4K 0x5003⟩, by rw [htlb]; exact List.mem_cons_self,
      _, hwalk, ?_, ?_⟩
    . decide
    . decide

end Kmem
end Nyy
