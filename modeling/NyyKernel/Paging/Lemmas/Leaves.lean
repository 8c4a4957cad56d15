import NyyKernel.Paging.Lemmas.Change

namespace Nyy
namespace Paging

structure LeafWrite where
  size : PageSize
  vaddr : Addr
  entry : BitVec 64
  deriving DecidableEq, Repr

def Accepted (flags : BitVec 64) : Prop :=
  flags &&& kVmHuge = 0 ∨ flags >>> kVmHugeShift = 21 ∨ flags >>> kVmHugeShift = 30

instance (flags : BitVec 64) : Decidable (Accepted flags) :=
  inferInstanceAs (Decidable (_ ∨ _ ∨ _))

def part (addr : Addr) (i : Nat) : Addr := addr + mib2 * BitVec.ofNat 64 i

def leafWrites (features : Features) (paddr vaddr : Addr) (cache : CacheMode) (flags : BitVec 64)
    : List LeafWrite :=
  if Emulated features flags then
    (List.range 512).map (fun i =>
      ⟨.mib2, part vaddr i, newEntry features ptePagesize (part paddr i) cache (partFlags flags)⟩)
  else
    [⟨pageSizeOf flags, vaddr, newEntry features (pageSizeOf flags).bits paddr cache flags⟩]

section

variable {σ : Type} (pmAllocateN : PmAllocate σ) (cr3 : Addr)

def writeLeaf (m : Mmu σ) (w : LeafWrite) : Except Fault (Mmu σ) :=
  mapEntry pmAllocateN m cr3 w.vaddr w.size.flags w.entry

variable {features : Features} {flags : BitVec 64} {paddr v : Addr} {cache : CacheMode}

theorem vmPortMap_single (cfg : Config) (hflags : Accepted flags)
    (halign : paddr.toNat % (pageSizeOf flags).bytes = 0) (hsingle : ¬ Emulated features flags) (m : Mmu σ)
    : vmPortMap pmAllocateN cfg features m cr3 paddr v cache flags =
        mapEntry pmAllocateN m cr3 v (pageSizeOf flags).flags
          (newEntry features (pageSizeOf flags).bits paddr cache flags) := by
  unfold vmPortMap vmPortMapFuel
  unfold Emulated at hsingle
  unfold pageSizeOf at halign hsingle ⊢
  by_cases hhuge : flags &&& kVmHuge = 0
  . simp only [if_pos hhuge]
    rfl
  . simp only [if_neg hhuge] at halign hsingle ⊢
    by_cases hshift : flags >>> kVmHugeShift = 21
    . simp only [if_pos hshift] at halign ⊢
      have hmod : paddr % mib2 = 0 := BitVec.eq_of_toNat_eq halign
      rw [hmod, beq_self_eq_true, check_true, Except.ok_bind]
      rfl
    . simp only [if_neg hshift] at halign hsingle ⊢
      have hshift' := (hflags.resolve_left hhuge).resolve_left hshift
      simp only [if_pos hshift'] at halign hsingle ⊢
      have hmod : paddr % gib1 = 0 := BitVec.eq_of_toNat_eq halign
      have hgb : features.gbpages = true := by simpa using hsingle
      rw [hmod, beq_self_eq_true, check_true, Except.ok_bind, if_pos hgb]
      rfl

theorem toNat_part {addr : Addr} (h : addr.toNat % 2 ^ 30 = 0) {i : Nat} (hi : i < 512)
    : (part addr i).toNat = addr.toNat + 2 ^ 21 * i := by
  have := addr.isLt
  unfold part
  rw [BitVec.toNat_add, BitVec.toNat_mul, BitVec.toNat_ofNat]
  change (addr.toNat + 2 ^ 21 * (i % 2 ^ 64) % 2 ^ 64) % 2 ^ 64 = _
  omega

theorem pageSizeOf_partFlags (h : pageSizeOf flags = .gib1) : pageSizeOf (partFlags flags) = .mib2 := by
  unfold pageSizeOf
  rw [if_neg (partFlags_huge flags), if_pos (partFlags_shift (pageSizeOf_eq_gib1 h).2)]

theorem vmPortMap_eq (cfg : Config) (hflags : Accepted flags)
    (halign : paddr.toNat % (pageSizeOf flags).bytes = 0) (m : Mmu σ)
    : vmPortMap pmAllocateN cfg features m cr3 paddr v cache flags =
        (leafWrites features paddr v cache flags).foldlM (writeLeaf pmAllocateN cr3) m := by
  unfold leafWrites
  split
  . next hemulated =>
    have hsize := hemulated.1
    rw [hsize] at halign
    have hmod : paddr % gib1 = 0 := BitVec.eq_of_toNat_eq halign
    have hpart := pageSizeOf_partFlags hsize
    have haccepted : Accepted (partFlags flags) :=
      .inr (.inl (partFlags_shift (pageSizeOf_eq_gib1 hsize).2))
    rw [vmPortMap_emulated hemulated, hmod, beq_self_eq_true, check_true, Except.ok_bind,
      List.foldlM_map]
    apply Except.foldlM_congr
    intro m i hi
    have hsingle : ¬ Emulated features (partFlags flags) := by
      rintro ⟨h, _⟩
      rw [hpart] at h
      cases h
    have hi := List.mem_range.mp hi
    have := @vmPortMap_single σ pmAllocateN cr3 features (partFlags flags) (part paddr i) (part v i)
      cache cfg haccepted ?_ hsingle m
    . rw [hpart] at this
      exact this
    . rw [hpart, toNat_part halign hi]
      change (paddr.toNat + 2 ^ 21 * i) % 2 ^ 21 = 0
      change paddr.toNat % 2 ^ 30 = 0 at halign
      omega
  . next hsingle =>
    rw [List.foldlM_cons, vmPortMap_single pmAllocateN cr3 cfg hflags halign hsingle]
    simp only [List.foldlM_nil]
    exact (bind_pure _).symm

end

def leafSize (features : Features) (flags : BitVec 64) : PageSize :=
  if Emulated features flags then .mib2 else pageSizeOf flags

section

variable {features : Features} {flags : BitVec 64} {paddr v : Addr} {cache : CacheMode} {w : LeafWrite}

theorem toNat_index (v : Addr) (level : Nat)
    : (index v level).toNat = v.toNat / 2 ^ (12 + 9 * level) % 2 ^ 9 := by
  unfold index
  rw [BitVec.toNat_setWidth, BitVec.toNat_and, BitVec.toNat_ushiftRight, Nat.shiftRight_eq_div_pow]
  change (v.toNat / 2 ^ (12 + 9 * level) &&& (2 ^ 9 - 1)) % 2 ^ 9 = _
  rw [Nat.and_two_pow_sub_one_eq_mod, Nat.mod_mod]

theorem slot_part (h : v.toNat % 2 ^ 30 = 0) {i : Nat} (hi : i < 512)
    : slot PageSize.mib2.flags (part v i) = slot PageSize.gib1.flags v ++ [BitVec.ofNat 9 i] := by
  have hpart := toNat_part h hi
  have h3 : index (part v i) 3 = index v 3 := by
    apply BitVec.eq_of_toNat_eq
    rw [toNat_index, toNat_index, hpart]
    omega
  have h2 : index (part v i) 2 = index v 2 := by
    apply BitVec.eq_of_toNat_eq
    rw [toNat_index, toNat_index, hpart]
    omega
  have h1 : index (part v i) 1 = BitVec.ofNat 9 i := by
    apply BitVec.eq_of_toNat_eq
    rw [toNat_index, BitVec.toNat_ofNat, hpart]
    omega
  rw [slot_mib2, slot_gib1, h3, h2, h1]
  rfl

theorem size_of_mem_leafWrites (hw : w ∈ leafWrites features paddr v cache flags)
    : w.size = leafSize features flags := by
  unfold leafWrites at hw
  unfold leafSize
  split at hw
  . next hemulated =>
    obtain ⟨i, _, rfl⟩ := List.mem_map.mp hw
    rw [if_pos hemulated]
  . next hsingle =>
    obtain rfl := List.mem_singleton.mp hw
    rw [if_neg hsingle]

theorem tableBelow_of_mem_leafWrites (hw : w ∈ leafWrites features paddr v cache flags)
    (hsize : w.size ≠ .kib4)
    : tableBelow w.entry = none := by
  apply tableBelow_of_large
  unfold leafWrites at hw
  split at hw
  . obtain ⟨i, _, rfl⟩ := List.mem_map.mp hw
    exact large_newEntry ..
  . obtain rfl := List.mem_singleton.mp hw
    have hbits : (pageSizeOf flags).bits = ptePagesize := by
      cases h : pageSizeOf flags with
      | kib4 => exact absurd h hsize
      | mib2 => rfl
      | gib1 => rfl
    dsimp only
    rw [hbits]
    exact large_newEntry ..

theorem slot_of_mem_leafWrites (halign : v.toNat % (pageSizeOf flags).bytes = 0)
    (hw : w ∈ leafWrites features paddr v cache flags)
    : slot (pageSizeOf flags).flags v <+: slot (leafSize features flags).flags w.vaddr := by
  unfold leafWrites at hw
  unfold leafSize
  split at hw
  . next hemulated =>
    obtain ⟨i, hi, rfl⟩ := List.mem_map.mp hw
    rw [hemulated.1] at halign ⊢
    rw [if_pos hemulated, slot_part halign (List.mem_range.mp hi)]
    exact List.prefix_append _ _
  . next hsingle =>
    obtain rfl := List.mem_singleton.mp hw
    rw [if_neg hsingle]

theorem nodup_slots (halign : v.toNat % (pageSizeOf flags).bytes = 0)
    : ((leafWrites features paddr v cache flags).map
        (fun w => slot (leafSize features flags).flags w.vaddr)).Nodup := by
  unfold leafWrites leafSize
  split
  . next hemulated =>
    rw [hemulated.1] at halign
    rw [List.map_map]
    apply List.Nodup.map_on _ List.nodup_range
    intro i hi j hj heq
    have hi := List.mem_range.mp hi
    have hj := List.mem_range.mp hj
    have heq : slot PageSize.mib2.flags (part v i) = slot PageSize.mib2.flags (part v j) := heq
    rw [slot_part halign hi, slot_part halign hj] at heq
    have hlast := congrArg BitVec.toNat (List.cons.inj (List.append_cancel_left heq)).1
    rw [BitVec.toNat_ofNat, BitVec.toNat_ofNat] at hlast
    omega
  . exact List.nodup_singleton _

end

section

variable {σ : Type} {pmAllocateN : PmAllocate σ} {Ok : σ → Prop} {used : σ → Set Addr} {cr3 paddr v : Addr}
  {size : PageSize} {m m' : Mmu σ} {s : List (BitVec 9)} {cfg : Config} {features : Features}
  {cache : CacheMode} {flags : BitVec 64}

def LeafWrite.leaf (w : LeafWrite) : Option Leaf :=
  if present w.entry then some (w.size.leaf w.entry) else none

structure PlacedAll (pmAllocateN : PmAllocate σ) (used : σ → Set Addr) (cr3 : Addr) (size : PageSize)
    (s : List (BitVec 9)) (writes : List LeafWrite) (m m' : Mmu σ) : Prop where
  taken : Relation.ReflTransGen (Takes pmAllocateN) m.pm m'.pm
  sound : Sound m'.mem cr3 (used m'.pm)
  outside : Outside s m.mem m'.mem cr3
  here : ∀ w ∈ writes, ∀ x, slot size.flags x = slot size.flags w.vaddr
    → hardwareWalk m'.mem cr3 x = w.leaf
  elsewhere : ∀ x, (∀ w ∈ writes, slot size.flags x ≠ slot size.flags w.vaddr)
    → hardwareWalk m'.mem cr3 x = hardwareWalk m.mem cr3 x

structure Writable (cr3 : Addr) (size : PageSize) (s : List (BitVec 9)) (writes : List LeafWrite)
    (m : Mmu σ) : Prop where
  uniform : ∀ w ∈ writes, w.size = size
  entry : ∀ w ∈ writes, w.size ≠ .kib4 → tableBelow w.entry = none
  under : ∀ w ∈ writes, s <+: slot size.flags w.vaddr
  apart : (writes.map (fun w => slot size.flags w.vaddr)).Nodup
  clear : ∀ w ∈ writes, Clear m.mem cr3 (slotPath size.flags w.vaddr)

theorem length_slotPath (v w : Addr)
    : (slotPath size.flags v).length = (slotPath size.flags w).length := by
  cases size <;> simp [slotPath, PageSize.flags]

theorem slot_not_isPrefix_slotPath (v w : Addr) : ¬ slot size.flags v <+: slotPath size.flags w := by
  intro h
  have := h.length_le
  rw [slot_eq_append, List.length_append, List.length_singleton, @length_slotPath size v w] at this
  omega

section

variable (hsrc : PageSource pmAllocateN Ok used) (hok : Ok m.pm) (hsound : Sound m.mem cr3 (used m.pm))

include hsrc hok hsound

theorem Writable.placedAll {writes : List LeafWrite} (h : Writable cr3 size s writes m)
    (hrun : writes.foldlM (writeLeaf pmAllocateN cr3) m = .ok m')
    : PlacedAll pmAllocateN used cr3 size s writes m m' := by
  induction writes generalizing m with
  | nil =>
    cases hrun
    exact ⟨.refl, hsound, Outside.refl, (by intro w hw; cases hw), fun _ _ => rfl⟩
  | cons w writes ih =>
    obtain ⟨m₁, hwrite, hrun⟩ := Except.bind_eq_ok hrun
    have hw := @List.mem_cons_self _ w writes
    have hsize := h.uniform w hw
    have hentry := h.entry w hw
    unfold writeLeaf at hwrite
    rw [hsize] at hwrite hentry
    have hplaced := mapEntry_placed hsrc hok hsound (h.clear w hw) hentry hwrite
    have hrest : Writable cr3 size s writes m₁ := by
      refine ⟨?_, ?_, ?_, (List.nodup_cons.mp h.apart).2, ?_⟩
      . exact fun x hx => h.uniform x (List.mem_cons_of_mem w hx)
      . exact fun x hx => h.entry x (List.mem_cons_of_mem w hx)
      . exact fun x hx => h.under x (List.mem_cons_of_mem w hx)
      . intro x hx
        exact hplaced.outside.clear (slotPath_length ..) (slot_not_isPrefix_slotPath _ _)
          (h.clear x (List.mem_cons_of_mem w hx))
    have hall := ih (hsrc.ok_of_taken hok hplaced.taken) hplaced.sound hrest hrun
    refine ⟨hplaced.taken.trans hall.taken, hall.sound,
      (hplaced.outside.mono (h.under w hw)).trans hall.outside, ?_, ?_⟩
    . intro x hx y hy
      cases List.mem_cons.mp hx with
      | inl heq =>
        subst heq
        -- the words after this one are in other slots
        have hne : ∀ z ∈ writes, slot size.flags y ≠ slot size.flags z.vaddr := by
          intro z hz heq
          exact (List.nodup_cons.mp h.apart).1 (List.mem_map.mpr ⟨z, hz, heq.symm.trans hy⟩)
        rw [hall.elsewhere y hne, hplaced.here y hy]
        unfold LeafWrite.leaf
        rw [hsize]
      | inr hx => exact hall.here x hx y hy
    . intro y hy
      rw [hall.elsewhere y (fun z hz => hy z (List.mem_cons_of_mem w hz))]
      apply hplaced.outside.hardwareWalk
      intro hpre
      exact hy w hw (slot_eq_of_path hpre).symm

theorem vmPortMap_placed (hflags : Accepted flags) (hpaddr : paddr.toNat % (pageSizeOf flags).bytes = 0)
    (hv : v.toNat % (pageSizeOf flags).bytes = 0)
    (hclear : Clear m.mem cr3 (slotPath (leafSize features flags).flags v))
    (h : vmPortMap pmAllocateN cfg features m cr3 paddr v cache flags = .ok m')
    : PlacedAll pmAllocateN used cr3 (leafSize features flags) (slot (pageSizeOf flags).flags v)
        (leafWrites features paddr v cache flags) m m' := by
  rw [vmPortMap_eq pmAllocateN cr3 cfg hflags hpaddr] at h
  refine Writable.placedAll hsrc hok hsound ?_ h
  constructor
  . exact fun w hw => size_of_mem_leafWrites hw
  . exact fun w hw => tableBelow_of_mem_leafWrites hw
  . exact fun w hw => slot_of_mem_leafWrites hv hw
  . exact nodup_slots hv
  . intro w hw
    have hpath : slotPath (leafSize features flags).flags w.vaddr
        = slotPath (leafSize features flags).flags v := by
      unfold leafWrites at hw
      unfold leafSize
      split at hw
      . next hemulated =>
        obtain ⟨i, hi, rfl⟩ := List.mem_map.mp hw
        rw [hemulated.1] at hv
        rw [if_pos hemulated]
        have := slot_part hv (List.mem_range.mp hi)
        exact (List.append_inj' this rfl).1
      . obtain rfl := List.mem_singleton.mp hw
        rfl
    rw [hpath]
    exact hclear

end

theorem vmPortMap_error (hflags : Accepted flags) (hpaddr : paddr.toNat % (pageSizeOf flags).bytes = 0)
    {f : Fault} (h : vmPortMap pmAllocateN cfg features m cr3 paddr v cache flags = .error f)
    : ∃ a, pmAllocateN a = .error f := by
  rw [vmPortMap_eq pmAllocateN cr3 cfg hflags hpaddr] at h
  by_contra hnone
  refine Except.foldlM_ne_error ?_ m h
  intro m w hw hf
  refine hnone (mapEntry_error ?_ hf)
  cases w.size <;> rfl

end

end Paging
end Nyy
