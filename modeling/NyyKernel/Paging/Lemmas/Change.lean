import Mathlib.Tactic
import NyyKernel.Paging.Lemmas.Outside

namespace Nyy
namespace Paging

open Radix (descend find)

def pageSizeOf (flags : BitVec 64) : PageSize :=
  if flags &&& kVmHuge = 0 then
    .kib4
  else if flags >>> kVmHugeShift = 21 then
    .mib2
  else if flags >>> kVmHugeShift = 30 then
    .gib1
  else
    .kib4

def Emulated (features : Features) (flags : BitVec 64) : Prop :=
  pageSizeOf flags = .gib1 ∧ features.gbpages = false

instance (features : Features) (flags : BitVec 64) : Decidable (Emulated features flags) :=
  inferInstanceAs (Decidable (pageSizeOf flags = .gib1 ∧ features.gbpages = false))

def PageSize.lookup (size : PageSize) : WalkFlags := ⟨false, size.flags.size2MB, size.flags.size1GB⟩

def InPage (size : PageSize) (v w : Addr) : Prop := v.toNat / size.bytes = w.toNat / size.bytes

instance (size : PageSize) (v w : Addr) : Decidable (InPage size v w) :=
  inferInstanceAs (Decidable (v.toNat / size.bytes = w.toNat / size.bytes))

def Leaf.size : Leaf → PageSize
  | .page1G _ => .gib1
  | .page2M _ => .mib2
  | .page4K _ => .kib4

theorem hardwareWalk_of_slot {mem : PageMem} {cr3 v w : Addr} {leaf : Leaf}
    (h : hardwareWalk mem cr3 v = some leaf) (hslot : slot leaf.size.flags w = slot leaf.size.flags v)
    : hardwareWalk mem cr3 w = some leaf := by
  rw [hardwareWalk_eq] at h ⊢
  have hindex := slot_eq_iff_index.mp hslot
  have hlevel : leaf.size.level ≤ 2 := Nat.le_of_lt_succ leaf.size.level_lt
  rw [hindex 3 (by omega) (by decide), hindex 2 hlevel (by decide)]
  cases hgib : find tableBelow mem cr3 isLarge [index v 3] (index v 2) with
  | some e =>
    rw [hgib] at h
    rw [Option.map_some, Option.some_or, Option.some_or] at h ⊢
    exact h
  | none =>
    rw [hgib] at h
    rw [Option.map_none, Option.none_or] at h ⊢
    cases hmib : find tableBelow mem cr3 isLarge [index v 3, index v 2] (index v 1) with
    | some e =>
      rw [hmib, Option.map_some, Option.some_or] at h
      cases h
      rw [hindex 1 (Nat.le_refl 1) (by decide), hmib, Option.map_some, Option.some_or]
    | none =>
      rw [hmib, Option.map_none, Option.none_or] at h
      obtain ⟨e, hkib, heq⟩ := Option.map_eq_some_iff.mp h
      cases heq
      rw [hindex 1 (Nat.zero_le 1) (by decide), hindex 0 (Nat.le_refl 0) (by decide), hmib, hkib,
        Option.map_none, Option.none_or, Option.map_some]

theorem inPage_of_path {size : PageSize} {v w : Addr} (hv : Canonical v) (hw : Canonical w)
    (h : slot size.flags v <+: slot PageSize.kib4.flags w)
    : InPage size v w :=
  (slot_eq_iff hv hw).mp (slot_eq_of_path h)

variable {σ : Type} {pmAllocateN : PmAllocate σ} {Ok : σ → Prop} {used : σ → Set Addr} {cr3 v : Addr}
  {size : PageSize} {m m' : Mmu σ} {cfg : Config} {features : Features} {flags entry : BitVec 64}

structure Changed (pmAllocateN : PmAllocate σ) (used : σ → Set Addr) (cr3 v : Addr) (size : PageSize)
    (m m' : Mmu σ) : Prop where
  taken : Relation.ReflTransGen (Takes pmAllocateN) m.pm m'.pm
  sound : Sound m'.mem cr3 (used m'.pm)
  elsewhere : ∀ w, Canonical w → ¬ InPage size v w
    → hardwareWalk m'.mem cr3 w = hardwareWalk m.mem cr3 w

theorem Placed.changed {leaf : Option Leaf} (h : Placed pmAllocateN used cr3 v size m m' leaf)
    (hv : Canonical v)
    : Changed pmAllocateN used cr3 v size m m' := by
  refine ⟨h.taken, h.sound, ?_⟩
  intro w hw hout
  exact h.outside.hardwareWalk (fun hpre => hout (inPage_of_path hv hw hpre))

theorem mapEntry_changed (hsrc : PageSource pmAllocateN Ok used) (hok : Ok m.pm)
    (hsound : Sound m.mem cr3 (used m.pm)) (hclear : Clear m.mem cr3 (slotPath size.flags v))
    (hv : Canonical v) (hentry : size ≠ .kib4 → tableBelow entry = none)
    (h : mapEntry pmAllocateN m cr3 v size.flags entry = .ok m')
    : Changed pmAllocateN used cr3 v size m m' :=
  (mapEntry_placed hsrc hok hsound hclear hentry h).changed hv

theorem tableBelow_of_large (h : large entry = true) : tableBelow entry = none := by
  simp [tableBelow, h]

theorem vmPortMap_entry {paddr : Addr} {cache : CacheMode} (hsingle : ¬ Emulated features flags)
    (h : vmPortMap pmAllocateN cfg features m cr3 paddr v cache flags = .ok m')
    : ∃ entry, (pageSizeOf flags ≠ .kib4 → tableBelow entry = none) ∧
        mapEntry pmAllocateN m cr3 v (pageSizeOf flags).flags entry = .ok m' := by
  have hlarge : tableBelow (newEntry features ptePagesize paddr cache flags) = none :=
    tableBelow_of_large (large_newEntry features paddr cache flags)
  unfold vmPortMap vmPortMapFuel at h
  unfold Emulated at hsingle
  unfold pageSizeOf at hsingle ⊢
  split at h
  . next hhuge =>
    rw [if_pos hhuge]
    exact ⟨_, fun hne => absurd rfl hne, h⟩
  . next hhuge =>
    rw [if_neg hhuge] at hsingle ⊢
    split at h
    . next hshift =>
      rw [if_pos hshift]
      obtain ⟨_, _, h⟩ := Except.bind_eq_ok h
      exact ⟨_, fun _ => hlarge, h⟩
    . next hshift =>
      rw [if_neg hshift] at hsingle ⊢
      split at h
      . next hshift' =>
        rw [if_pos hshift'] at hsingle ⊢
        obtain ⟨_, _, h⟩ := Except.bind_eq_ok h
        have hgb : features.gbpages = true := by simpa using hsingle
        rw [if_pos hgb] at h
        exact ⟨_, fun _ => hlarge, h⟩
      . next hshift' =>
        rw [if_neg hshift']
        obtain ⟨_, _, h⟩ := Except.bind_eq_ok h
        exact ⟨_, fun hne => absurd rfl hne, h⟩

theorem pageSizeOf_eq_gib1 (h : pageSizeOf flags = .gib1)
    : flags &&& kVmHuge ≠ 0 ∧ flags >>> kVmHugeShift = 30 := by
  unfold pageSizeOf at h
  split at h
  . cases h
  . next hhuge =>
    split at h
    . cases h
    . split at h
      . next hshift => exact ⟨hhuge, hshift⟩
      . cases h

def partFlags (flags : BitVec 64) : BitVec 64 := (flags &&& ~~~kVmHuge1GB) ||| kVmHuge2MB

theorem partFlags_huge (flags : BitVec 64) : partFlags flags &&& kVmHuge ≠ 0 := by
  intro h
  have h := congrArg (fun x : BitVec 64 => x.getLsbD 5) h
  simp [partFlags, kVmHuge2MB, kVmHuge, kVmHugeShift] at h

theorem partFlags_shift (h : flags >>> kVmHugeShift = 30)
    : partFlags flags >>> kVmHugeShift = 21 := by
  unfold partFlags
  rw [BitVec.ushiftRight_or_distrib, BitVec.ushiftRight_and_distrib, h]
  decide

theorem vmPortMap_emulated (h : Emulated features flags) (m : Mmu σ) (paddr : Addr) (cache : CacheMode)
    : vmPortMap pmAllocateN cfg features m cr3 paddr v cache flags
        =
      (check cfg (paddr % gib1 == 0) >>= fun _ =>
        (List.range 512).foldlM
          (fun m i => vmPortMap pmAllocateN cfg features m cr3 (paddr + mib2 * BitVec.ofNat 64 i)
            (v + mib2 * BitVec.ofNat 64 i) cache ((flags &&& ~~~kVmHuge1GB) ||| kVmHuge2MB)) m) := by
  obtain ⟨hsize, hgb⟩ := h
  have hparts := pageSizeOf_eq_gib1 hsize
  have hhuge' := partFlags_huge flags
  have hshift' := partFlags_shift hparts.2
  have hne : flags >>> kVmHugeShift ≠ 21 := by
    rw [hparts.2]
    decide
  -- the parts are not split again, so they need one level less
  have hpart : ∀ (m : Mmu σ) (p w : Addr),
      vmPortMap pmAllocateN cfg features m cr3 p w cache (partFlags flags) =
        vmPortMapFuel pmAllocateN cfg features cr3 cache 1 m p w (partFlags flags) := by
    intro m p w
    unfold vmPortMap vmPortMapFuel
    rw [if_neg hhuge', if_pos hshift', if_neg hhuge', if_pos hshift']
  unfold partFlags at hpart
  simp only [hpart]
  unfold vmPortMap
  rw [vmPortMapFuel, if_neg hparts.1, if_neg hne, if_pos hparts.2, hgb]
  rfl

theorem unmapFlags_eq {f : WalkFlags} (h : unmapFlags cfg features flags = .ok f)
    : f = (pageSizeOf flags).lookup := by
  unfold unmapFlags at h
  unfold pageSizeOf
  split at h
  . next hhuge =>
    rw [if_pos hhuge]
    cases h
    rfl
  . next hhuge =>
    rw [if_neg hhuge]
    split at h
    . next hshift =>
      rw [if_neg (by rw [hshift]; decide), if_neg (by rw [hshift]; decide)]
      cases h
      rfl
    . split at h
      . next hshift =>
        rw [if_pos hshift]
        cases h
        rfl
      . next hshift =>
        rw [if_neg hshift]
        split at h
        . next hshift' =>
          rw [if_pos hshift']
          obtain ⟨_, _, h⟩ := Except.bind_eq_ok h
          cases h
          rfl
        . next hshift' =>
          rw [if_neg hshift']
          obtain ⟨_, _, h⟩ := Except.bind_eq_ok h
          cases h
          rfl

theorem vmPortUnmap_returns {f : WalkFlags} (hflags : unmapFlags cfg features flags = .ok f)
    (hcreate : f.createNew = false)
    : ∃ m', vmPortUnmap pmAllocateN cfg features m cr3 v flags = .ok m' := by
  unfold vmPortUnmap
  rw [hflags, Except.ok_bind]
  cases hwalk : pteWalk pmAllocateN m cr3 v f with
  | error e =>
    rw [(pteWalk_error hwalk).1] at hcreate
    cases hcreate
  | ok r =>
    obtain ⟨r, m'⟩ := r
    cases r with
    | none => exact ⟨_, rfl⟩
    | some s => exact ⟨_, rfl⟩

theorem hardwareWalk_of_missing (hclear : Clear m.mem cr3 (slotPath size.flags v))
    (hnone : descend tableBelow m.mem cr3 (slotPath size.flags v) = none)
    : hardwareWalk m.mem cr3 v = none := by
  -- a word is above the table that is missing, where no large page is, or below it
  have hfind : ∀ q j, q ++ [j] <+: slotPath size.flags v ∨ slotPath size.flags v <+: q
      → find tableBelow m.mem cr3 isLarge q j = none := by
    intro q j h
    cases h with
    | inl habove => exact hclear q j habove
    | inr hbelow => exact find_below_none hbelow hnone
  have hpre : slotPath size.flags v <+: [index v 3, index v 2, index v 1] := by
    cases size with
    | kib4 => exact List.prefix_refl _
    | mib2 => exact List.prefix_append [index v 3, index v 2] [index v 1]
    | gib1 => exact List.prefix_append [index v 3] [index v 2, index v 1]
  rw [hardwareWalk_eq, hfind, hfind, find_below_none hpre hnone]
  . rfl
  . cases size with
    | kib4 => exact .inl (List.prefix_refl _)
    | mib2 => exact .inr (List.prefix_refl _)
    | gib1 => exact .inr (List.prefix_append [index v 3] [index v 2])
  . cases size with
    | kib4 => exact .inl (List.prefix_append [index v 3, index v 2] [index v 1])
    | mib2 => exact .inl (List.prefix_refl _)
    | gib1 => exact .inr (List.prefix_refl _)

section

variable (hsrc : PageSource pmAllocateN Ok used) (hok : Ok m.pm) (hsound : Sound m.mem cr3 (used m.pm))
  (hclear : Clear m.mem cr3 (slotPath (pageSizeOf flags).flags v))

include hsrc hok hsound hclear

theorem vmPortUnmap_cases (h : vmPortUnmap pmAllocateN cfg features m cr3 v flags = .ok m')
    : (m' = m ∧ descend tableBelow m.mem cr3 (slotPath (pageSizeOf flags).flags v) = none)
        ∨ ∃ t entry, descend tableBelow m.mem cr3 (slotPath (pageSizeOf flags).flags v) = some t
          ∧ present entry = false
          ∧ m' = { m with mem := Radix.write m.mem t (slotIndex (pageSizeOf flags).flags v) entry } := by
  unfold vmPortUnmap at h
  obtain ⟨f, hf, h⟩ := Except.bind_eq_ok h
  have hf := unmapFlags_eq hf
  subst hf
  obtain ⟨⟨r, m₁⟩, hwalk, h⟩ := Except.bind_eq_ok h
  have hclear' : Clear m.mem cr3 (slotPath (pageSizeOf flags).lookup v) := hclear
  have hwalk := pteWalk_spec hsrc hok hsound hclear' hwalk
  have hm : m₁ = m := hwalk.walked.kept rfl
  subst hm
  have hslot : r = (descend tableBelow m₁.mem cr3 (slotPath (pageSizeOf flags).flags v)).map
      (·, slotIndex (pageSizeOf flags).flags v) := hwalk.slot
  cases r with
  | none =>
    cases h
    exact .inl ⟨rfl, Option.map_eq_none_iff.mp hslot.symm⟩
  | some s =>
    obtain ⟨t, ht, heq⟩ := Option.map_eq_some_iff.mp hslot.symm
    cases heq
    cases h
    exact .inr ⟨t, _, ht, present_unmapped _, rfl⟩

theorem vmPortUnmap_placed (h : vmPortUnmap pmAllocateN cfg features m cr3 v flags = .ok m')
    : Placed pmAllocateN used cr3 v (pageSizeOf flags) m m' none ∧ m'.pm = m.pm := by
  rcases vmPortUnmap_cases hsrc hok hsound hclear h with
    ⟨rfl, hmissing⟩ | ⟨t, entry, ht, hpres, rfl⟩
  . refine ⟨⟨Relation.ReflTransGen.refl, hsound, Outside.refl, ?_⟩, rfl⟩
    intro w hw
    have hpath := (List.append_inj' hw rfl).1
    rw [← hpath] at hclear hmissing
    exact hardwareWalk_of_missing hclear hmissing
  . have hplaced := @placed_write σ pmAllocateN used cr3 v (pageSizeOf flags) m m t entry .refl hsound
      Outside.refl hclear ht (fun _ => tableBelow_of_not_present hpres)
    rw [hpres] at hplaced
    exact ⟨hplaced, rfl⟩

theorem vmPortUnmap_changed (hv : Canonical v)
    (h : vmPortUnmap pmAllocateN cfg features m cr3 v flags = .ok m')
    : Changed pmAllocateN used cr3 v (pageSizeOf flags) m m' ∧ m'.pm = m.pm := by
  obtain ⟨hplaced, hpm⟩ := vmPortUnmap_placed hsrc hok hsound hclear h
  exact ⟨hplaced.changed hv, hpm⟩

end

theorem pageSizeOf_of_not_huge (h : flags &&& kVmHuge = 0) : pageSizeOf flags = .kib4 :=
  if_pos h

theorem Placed.remapped {leaf : Option Leaf} (h : Placed pmAllocateN used cr3 v .kib4 m m' leaf)
    (hv : Canonical v)
    : Remapped pmAllocateN used cr3 v m m' leaf := by
  refine ⟨h.taken, h.sound, ?_, ?_, ?_⟩
  . intro q j hq
    apply h.outside.large q j hq
    intro hpre
    have := hpre.length_le
    simp [slot_kib4] at this
    omega
  . intro w hw
    apply h.here w
    rw [slot_kib4, slot_kib4, index_eq_of_page hw 3, index_eq_of_page hw 2, index_eq_of_page hw 1,
      index_eq_of_page hw 0]
  . intro w hcw hne
    apply h.outside.hardwareWalk
    intro hpre
    have hslot := slot_eq_of_path hpre
    rw [slot_kib4, slot_kib4] at hslot
    simp only [List.cons.injEq, and_true] at hslot
    obtain ⟨h3, h2, h1, h0⟩ := hslot
    exact hne ((same_slot_iff hv hcw).mp ⟨by rw [pagePath, pagePath, h3, h2, h1], h0.symm⟩)

section

variable (hsrc : PageSource pmAllocateN Ok used) (hok : Ok m.pm) (hsound : Sound m.mem cr3 (used m.pm))
  (hclear : Clear m.mem cr3 (pagePath v))

include hsrc hok hsound hclear

theorem vmPortMap_spec {paddr : Addr} {cache : CacheMode} (hv : Canonical v) (hhuge : flags &&& kVmHuge = 0)
    (h : vmPortMap pmAllocateN cfg features m cr3 paddr v cache flags = .ok m')
    : Remapped pmAllocateN used cr3 v m m'
        (if present (newEntry features 0 paddr cache flags) then
          some (.page4K (newEntry features 0 paddr cache flags))
        else
          none) := by
  unfold vmPortMap vmPortMapFuel at h
  rw [if_pos hhuge] at h
  have hkib4 : PageSize.kib4 ≠ .kib4 → tableBelow (newEntry features 0 paddr cache flags) = none :=
    fun hne => absurd rfl hne
  have hclear' : Clear m.mem cr3 (slotPath PageSize.kib4.flags v) := hclear
  exact (mapEntry_placed hsrc hok hsound hclear' hkib4 h).remapped hv

theorem vmPortUnmap_spec (hv : Canonical v) (hhuge : flags &&& kVmHuge = 0)
    (h : vmPortUnmap pmAllocateN cfg features m cr3 v flags = .ok m')
    : Remapped pmAllocateN used cr3 v m m' none ∧ m'.pm = m.pm := by
  have hsize := pageSizeOf_of_not_huge hhuge
  obtain ⟨hplaced, hpm⟩ := vmPortUnmap_placed hsrc hok hsound (by rw [hsize]; exact hclear) h
  rw [hsize] at hplaced
  exact ⟨hplaced.remapped hv, hpm⟩

end

end Paging
end Nyy
