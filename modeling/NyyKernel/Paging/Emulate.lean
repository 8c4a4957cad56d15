import NyyKernel.Paging.Decode

namespace Nyy
namespace Paging

open Radix (descend find)

def Leaf.entry : Leaf → BitVec 64
  | .page1G entry => entry
  | .page2M entry => entry
  | .page4K entry => entry

structure Translation where
  address : Addr
  rights : Rights
  global : Bool
  memory : Option MemType
  deriving DecidableEq, Repr

def Leaf.translation (pat : BitVec 64) (v : Addr) (leaf : Leaf) : Translation where
  address := leaf.address v
  rights := wordRights leaf.entry
  global := (decode pat leaf.size leaf.entry).global
  memory := (decode pat leaf.size leaf.entry).memory

def translate (pat : BitVec 64) (mem : PageMem) (cr3 v : Addr)
    : Option Translation :=
  (hardwareWalk mem cr3 v).map (fun leaf =>
    { address := leaf.address v
      rights := (tableRights mem cr3 (slotPath leaf.size.flags v)).and (wordRights leaf.entry)
      global := (decode pat leaf.size leaf.entry).global
      memory := (decode pat leaf.size leaf.entry).memory })

structure Regular (mem : PageMem) (cr3 : Addr) : Prop where
  root : ∀ i, isLarge (mem cr3 i) = false
  full : ∀ p t j, p.length ≤ 2 → descend tableBelow mem cr3 p = some t → tableBelow (mem t j) ≠ none
    → wordRights (mem t j) = .full

section

variable {mem mem' : PageMem} {cr3 v : Addr} {s : List (BitVec 9)} {pat : BitVec 64}

theorem Outside.regular (h : Outside s mem mem' cr3) (hs : 2 ≤ s.length) (hregular : Regular mem cr3)
    : Regular mem' cr3 := by
  constructor
  . exact h.root hs hregular.root
  . intro p t j hlen hp hj
    cases h.made p t j hlen hp hj with
    | inl hold =>
      obtain ⟨hp, hword⟩ := hold
      rw [hword] at hj ⊢
      exact hregular.full p t j hlen hp hj
    | inr hfull => exact hfull

theorem regular_of_blank (h : ∀ j, mem cr3 j = 0) : Regular mem cr3 := by
  constructor
  . intro i
    rw [h, isLarge_zero]
  . intro p t j _ hp hj
    cases p with
    | nil =>
      cases hp
      rw [h, tableBelow_zero] at hj
      exact absurd rfl hj
    | cons i p =>
      simp only [descend, h, tableBelow_zero] at hp
      cases hp

theorem slotPath_isPrefix (size : PageSize) (v : Addr)
    : slotPath size.flags v <+: slot PageSize.kib4.flags v := by
  cases size with
  | kib4 => exact List.prefix_append _ [index v 0]
  | mib2 => exact List.prefix_append _ [index v 1, index v 0]
  | gib1 => exact List.prefix_append _ [index v 2, index v 1, index v 0]

theorem Outside.translate (h : Outside s mem mem' cr3) (hs : ¬ s <+: slot PageSize.kib4.flags v)
    : translate pat mem' cr3 v = translate pat mem cr3 v := by
  have hrights : ∀ size : PageSize, Paging.tableRights mem' cr3 (slotPath size.flags v)
      = Paging.tableRights mem cr3 (slotPath size.flags v) := by
    intro size
    exact h.tableRights (slotPath_length ..) (fun hpre => hs (hpre.trans (slotPath_isPrefix size v)))
  unfold Paging.translate
  simp only [h.hardwareWalk hs, hrights]

theorem getLsbD_part {a : Addr} (ha : a.toNat % 2 ^ 30 = 0) {k : Nat} (hk : k < 512) {i : Nat}
    (hi : i < 21 ∨ 30 ≤ i)
    : (part a k).getLsbD i = a.getLsbD i := by
  have hpart := toNat_part ha hk
  rw [← BitVec.testBit_toNat, ← BitVec.testBit_toNat, hpart]
  obtain ⟨b, hb⟩ := Nat.dvd_of_mod_eq_zero ha
  rw [hb]
  have hzero := Nat.testBit_two_pow_mul_add b (Nat.two_pow_pos 30) i
  rw [Nat.add_zero] at hzero
  rw [Nat.testBit_two_pow_mul_add b (show 2 ^ 21 * k < 2 ^ 30 by omega), hzero]
  cases hi with
  | inl hlow =>
    have hk := Nat.testBit_two_pow_mul_add k (Nat.two_pow_pos 21) i
    rw [Nat.add_zero, if_pos hlow, Nat.zero_testBit] at hk
    rw [hk, Nat.zero_testBit]
  | inr hhigh => rw [if_neg (by omega), if_neg (by omega)]

variable {features : Features} {paddr : Addr} {cache : CacheMode} {flags : BitVec 64}

theorem getLsbD_newEntry_part (hpaddr : paddr.toNat % 2 ^ 30 = 0) {k : Nat} (hk : k < 512) {i : Nat}
    (hi : i < 64) (hout : i < 21 ∨ 30 ≤ i)
    : (newEntry features ptePagesize (part paddr k) cache flags).getLsbD i
        =
      (newEntry features ptePagesize paddr cache flags).getLsbD i := by
  rw [getLsbD_newEntry, @getLsbD_newEntry features ptePagesize paddr, getLsbD_pageAlignDown _ hi,
    getLsbD_pageAlignDown _ hi, getLsbD_part hpaddr hk hout]

theorem present_eq_getLsbD (entry : BitVec 64) : present entry = entry.getLsbD 0 := by
  unfold present ptePresent
  change (entry &&& 1#64 != 0) = _
  rw [BitVec.and_one_eq_setWidth_ofBool_getLsbD]
  cases entry.getLsbD 0 <;> decide

theorem address_part (hpaddr : paddr.toNat % 2 ^ 30 = 0) (w : Addr)
    : (Leaf.page2M (newEntry features ptePagesize (part paddr (index w 1).toNat) cache flags)).address w
        =
      (Leaf.page1G (newEntry features ptePagesize paddr cache flags)).address w := by
  have hk : (index w 1).toNat < 512 := (index w 1).isLt
  have hpart := toNat_part hpaddr hk
  have hindex := toNat_index w 1
  generalize (index w 1).toNat = k at hk hpart hindex ⊢
  have hframe : ∀ a : Addr, a.toNat % 2 ^ 12 = 0
      → newEntry features ptePagesize a cache flags &&& pteAddress
        = BitVec.ofNat 64 (a.toNat % 2 ^ 52) := by
    intro a ha
    rw [newEntry_and_pteAddress features a cache flags (by decide), ← toNat_and_pteAddress ha,
      BitVec.ofNat_toNat, BitVec.setWidth_eq]
  have hreal := @leaf_address .gib1 (newEntry features ptePagesize paddr cache flags)
    (paddr.toNat % 2 ^ 52) (paddr.toNat % 2 ^ 52 + w.toNat % 2 ^ 30) w (hframe paddr (by omega))
  have hparts := @leaf_address .mib2 (newEntry features ptePagesize (part paddr k) cache flags)
    ((part paddr k).toNat % 2 ^ 52) (paddr.toNat % 2 ^ 52 + w.toNat % 2 ^ 30) w
    (hframe (part paddr k) (by omega))
  change _ % 2 ^ 30 = 0 → _ / 2 ^ 30 = _ / 2 ^ 30 → _ % 2 ^ 30 = _ % 2 ^ 30 → _ at hreal
  change _ % 2 ^ 21 = 0 → _ / 2 ^ 21 = _ / 2 ^ 21 → _ % 2 ^ 21 = _ % 2 ^ 21 → _ at hparts
  refine (hparts ?_ ?_ ?_).trans (hreal ?_ ?_ ?_).symm
  all_goals omega

theorem Regular.tableRights (h : Regular mem cr3) {p : List (BitVec 9)} (hlen : p.length ≤ 3)
    : tableRights mem cr3 p = .full := by
  induction p using List.reverseRecOn with
  | nil => rfl
  | append_singleton p j ih =>
    rw [List.length_append, List.length_singleton] at hlen
    rw [tableRights_snoc, ih (by omega), lastRights_eq_full, Rights.and_full]
    intro t ht hj
    exact h.full p t j (by omega) ht hj

theorem Regular.translate (h : Regular mem cr3)
    : translate pat mem cr3 v = (hardwareWalk mem cr3 v).map (Leaf.translation pat v) := by
  unfold Paging.translate Leaf.translation
  congr 1
  funext leaf
  rw [h.tableRights (slotPath_length ..), Rights.full_and]

theorem translate_part (hpaddr : paddr.toNat % 2 ^ 30 = 0) {w : Addr} (hregular : Regular mem' cr3)
    (hrights : tableRights mem' cr3 (slotPath PageSize.gib1.flags w)
      = tableRights mem cr3 (slotPath PageSize.gib1.flags w))
    (hwalk : hardwareWalk mem cr3 w
      = if present (newEntry features ptePagesize paddr cache flags) then
          some (.page1G (newEntry features ptePagesize paddr cache flags))
        else
          none)
    (hwalk' : hardwareWalk mem' cr3 w
      = if present (newEntry features ptePagesize (part paddr (index w 1).toNat) cache flags) then
          some (.page2M (newEntry features ptePagesize (part paddr (index w 1).toNat) cache flags))
        else
          none)
    : translate pat mem' cr3 w = translate pat mem cr3 w := by
  have hk : (index w 1).toNat < 512 := (index w 1).isLt
  have hbit := fun i (hi : i < 21) => @getLsbD_newEntry_part features paddr cache flags hpaddr
    (index w 1).toNat hk i (by omega) (.inl hi)
  have hnx := @getLsbD_newEntry_part features paddr cache flags hpaddr (index w 1).toNat hk 63
    (by decide) (.inr (by decide))
  have hpresent : present (newEntry features ptePagesize (part paddr (index w 1).toNat) cache flags)
      = present (newEntry features ptePagesize paddr cache flags) := by
    rw [present_eq_getLsbD, present_eq_getLsbD, hbit 0 (by decide)]
  unfold translate
  rw [hwalk, hwalk', hpresent]
  split
  . simp only [Option.map_some, Leaf.size, Leaf.entry]
    have hattributes : wordRights (newEntry features ptePagesize (part paddr (index w 1).toNat) cache flags)
        = wordRights (newEntry features ptePagesize paddr cache flags) := by
      unfold wordRights
      rw [hbit 1 (by decide), hbit 2 (by decide), hnx]
    have hpat : patIndex .mib2 (newEntry features ptePagesize (part paddr (index w 1).toNat) cache flags)
        = patIndex .gib1 (newEntry features ptePagesize paddr cache flags) := by
      unfold patIndex PageSize.patBit
      rw [hbit 12 (by decide), hbit 4 (by decide), hbit 3 (by decide)]
    have hfull := hregular.tableRights (slotPath_length PageSize.gib1.flags w)
    rw [hrights] at hfull
    simp only [decode, hattributes, hpat, hbit 8 (by decide), address_part hpaddr w,
      hregular.tableRights (slotPath_length ..), hfull]
  . rfl

end

section

variable {σ : Type} {pmAllocateN : PmAllocate σ} {Ok : σ → Prop} {used : σ → Set Addr} {cr3 v paddr : Addr}
  {m m' : Mmu σ} {cfg : Config} {features : Features} {cache : CacheMode} {flags : BitVec 64}

def withPages (features : Features) (gbpages : Bool) : Features := { features with gbpages := gbpages }

theorem accepted_of_gib1 (h : pageSizeOf flags = .gib1) : Accepted flags :=
  .inr (.inr (pageSizeOf_eq_gib1 h).2)

theorem clear_gib1 (hroot : ∀ i, isLarge (m.mem cr3 i) = false)
    : Clear m.mem cr3 (slotPath PageSize.gib1.flags v) := by
  intro p i hp
  change p ++ [i] <+: [index v 3] at hp
  cases p with
  | nil => exact (find_isLarge_eq_none Radix.descend_nil).mpr (hroot i)
  | cons j p =>
    have := hp.length_le
    simp at this

theorem clear_mib2 (hroot : ∀ i, isLarge (m.mem cr3 i) = false)
    (hnone : find tableBelow m.mem cr3 isLarge [index v 3] (index v 2) = none)
    : Clear m.mem cr3 (slotPath PageSize.mib2.flags v) := by
  intro p i hp
  change p ++ [i] <+: [index v 3, index v 2] at hp
  rcases p with _ | ⟨j, _ | ⟨k, p⟩⟩
  . exact (find_isLarge_eq_none Radix.descend_nil).mpr (hroot i)
  . simp only [List.cons_append, List.nil_append, List.cons_prefix_cons, List.nil_prefix,
      and_true] at hp
    rw [hp.1, hp.2]
    exact hnone
  . have := hp.length_le
    simp at this

section

variable (hsrc : PageSource pmAllocateN Ok used) (hok : Ok m.pm) (hsound : Sound m.mem cr3 (used m.pm))
  (hsize : pageSizeOf flags = .gib1) (hpaddr : paddr.toNat % 2 ^ 30 = 0) (hv : v.toNat % 2 ^ 30 = 0)

include hsrc hok hsound hsize hpaddr hv

theorem real_placed (hclear : Clear m.mem cr3 (slotPath PageSize.gib1.flags v))
    (h : vmPortMap pmAllocateN cfg (withPages features true) m cr3 paddr v cache flags = .ok m')
    : Outside (slot PageSize.gib1.flags v) m.mem m'.mem cr3
      ∧ ∀ w, slot PageSize.gib1.flags w = slot PageSize.gib1.flags v
        → hardwareWalk m'.mem cr3 w
            = if present (newEntry features ptePagesize paddr cache flags) then
                some (.page1G (newEntry features ptePagesize paddr cache flags))
              else
                none := by
  have hsingle : ¬ Emulated (withPages features true) flags := fun h => Bool.noConfusion h.2
  have hleaf : leafSize (withPages features true) flags = .gib1 := by
    unfold leafSize
    rw [if_neg hsingle, hsize]
  have hwrites : leafWrites (withPages features true) paddr v cache flags
      = [⟨.gib1, v, newEntry features ptePagesize paddr cache flags⟩] := by
    unfold leafWrites
    rw [if_neg hsingle, hsize]
    rfl
  have hplaced := vmPortMap_placed hsrc hok hsound (accepted_of_gib1 hsize)
    (by rw [hsize]; exact hpaddr) (by rw [hsize]; exact hv) (by rw [hleaf]; exact hclear) h
  rw [hleaf, hsize, hwrites] at hplaced
  refine ⟨hplaced.outside, ?_⟩
  intro w hw
  exact hplaced.here _ (List.mem_singleton.mpr rfl) w hw

theorem emulated_placed (hclear : Clear m.mem cr3 (slotPath PageSize.mib2.flags v))
    (h : vmPortMap pmAllocateN cfg (withPages features false) m cr3 paddr v cache flags = .ok m')
    : Outside (slot PageSize.gib1.flags v) m.mem m'.mem cr3
      ∧ ∀ w, slot PageSize.gib1.flags w = slot PageSize.gib1.flags v
        → hardwareWalk m'.mem cr3 w
            = if present (newEntry features ptePagesize (part paddr (index w 1).toNat) cache flags) then
                some (.page2M
                  (newEntry features ptePagesize (part paddr (index w 1).toNat) cache flags))
              else
                none := by
  have hemulated : Emulated (withPages features false) flags := ⟨hsize, rfl⟩
  have hleaf : leafSize (withPages features false) flags = .mib2 := by
    unfold leafSize
    rw [if_pos hemulated]
  have hplaced := vmPortMap_placed hsrc hok hsound (accepted_of_gib1 hsize)
    (by rw [hsize]; exact hpaddr) (by rw [hsize]; exact hv) (by rw [hleaf]; exact hclear) h
  rw [hleaf, hsize] at hplaced
  refine ⟨hplaced.outside, ?_⟩
  intro w hw
  have hk : (index w 1).toNat < 512 := (index w 1).isLt
  -- the part that the address is in has the number that the address has in the third level
  have hslot : slot PageSize.mib2.flags w = slot PageSize.mib2.flags (part v (index w 1).toNat) := by
    rw [slot_part hv hk, ← hw, BitVec.ofNat_toNat, BitVec.setWidth_eq]
    rfl
  have hmem : (⟨.mib2, part v (index w 1).toNat,
      newEntry features ptePagesize (part paddr (index w 1).toNat) cache flags⟩ : LeafWrite)
        ∈ leafWrites (withPages features false) paddr v cache flags := by
    unfold leafWrites
    rw [if_pos hemulated]
    refine List.mem_map.mpr ⟨(index w 1).toNat, List.mem_range.mpr hk, ?_⟩
    rw [newEntry_partFlags]
    rfl
  exact hplaced.here _ hmem w hslot

end

theorem emulated_page_equals_real (hsrc : PageSource pmAllocateN Ok used) (hok : Ok m.pm)
    (hsound : Sound m.mem cr3 (used m.pm)) (hregular : Regular m.mem cr3) (hsize : pageSizeOf flags = .gib1)
    (hcanonical : Canonical v) (hpaddr : paddr.toNat % 2 ^ 30 = 0) (hv : v.toNat % 2 ^ 30 = 0)
    (hfree : ∀ w, Canonical w → InPage .gib1 v w → hardwareWalk m.mem cr3 w = none)
    : (∀ gbpages f,
        vmPortMap pmAllocateN cfg (withPages features gbpages) m cr3 paddr v cache flags = .error f
          → ∃ a, pmAllocateN a = .error f)
      ∧ ∀ real emulated,
        vmPortMap pmAllocateN cfg (withPages features true) m cr3 paddr v cache flags = .ok real
          → vmPortMap pmAllocateN cfg (withPages features false) m cr3 paddr v cache flags = .ok emulated
          → (∀ w, Canonical w
              → translate portPat emulated.mem cr3 w = translate portPat real.mem cr3 w)
            ∧ ∀ w, Canonical w → ¬ InPage .gib1 v w
              → translate portPat real.mem cr3 w = translate portPat m.mem cr3 w
                ∧ translate portPat emulated.mem cr3 w = translate portPat m.mem cr3 w := by
  constructor
  . intro gbpages f h
    exact vmPortMap_error (accepted_of_gib1 hsize) (by rw [hsize]; exact hpaddr) h
  intro real emulated hreal hemulated
  have hlarge : find tableBelow m.mem cr3 isLarge [index v 3] (index v 2) = none := by
    have hnone := hfree v hcanonical rfl
    rw [hardwareWalk_eq, Option.or_eq_none_iff, Option.or_eq_none_iff] at hnone
    exact Option.map_eq_none_iff.mp hnone.1.1
  obtain ⟨hout, hwalk⟩ := real_placed hsrc hok hsound hsize hpaddr hv
    (clear_gib1 hregular.root) hreal
  obtain ⟨hout', hwalk'⟩ := emulated_placed hsrc hok hsound hsize hpaddr hv
    (clear_mib2 hregular.root hlarge) hemulated
  have helsewhere : ∀ w, Canonical w → ¬ InPage .gib1 v w
      → translate portPat real.mem cr3 w = translate portPat m.mem cr3 w
        ∧ translate portPat emulated.mem cr3 w = translate portPat m.mem cr3 w := by
    intro w hw hnot
    have hs : ¬ slot PageSize.gib1.flags v <+: slot PageSize.kib4.flags w :=
      fun hpre => hnot (inPage_of_path hcanonical hw hpre)
    exact ⟨hout.translate hs, hout'.translate hs⟩
  refine ⟨?_, helsewhere⟩
  intro w hw
  by_cases hin : InPage .gib1 v w
  . have hslot := ((slot_eq_iff hcanonical hw).mpr hin).symm
    have hs : ¬ slot PageSize.gib1.flags v <+: slotPath PageSize.gib1.flags w :=
      slot_not_isPrefix_slotPath v w
    have hrights := (hout'.tableRights (slotPath_length ..) hs).trans
      (hout.tableRights (slotPath_length ..) hs).symm
    exact translate_part hpaddr (hout'.regular (by simp [slot_gib1]) hregular) hrights
      (hwalk w hslot) (hwalk' w hslot)
  . obtain ⟨h, h'⟩ := helsewhere w hw hin
    rw [h, h']

end

def sampleFeatures : Features := ⟨true, true, true⟩

-- the first part allocates the tables, the others write into them
theorem emulated_returns
    : ∃ emulated, vmPortMap bumpPage ⟨false⟩ (withPages sampleFeatures false) firstMap 0x1000 0x40000000
        0xFFFF800080000000 .uncached (kVmAll ||| kVmHuge1GB) = .ok emulated := by
  have hwrites : ∀ (l : List LeafWrite) (m : Mmu Nat), (∀ w ∈ l, w.size = .mib2 ∧
        index w.vaddr 3 = 256 ∧ index w.vaddr 2 = 2) →
      m.mem 0x1000 256 = 0x2007 → m.mem 0x2000 2 = 0x3007 →
      ∃ m', l.foldlM (writeLeaf bumpPage 0x1000) m = .ok m' := by
    intro l
    induction l with
    | nil => exact fun m _ _ _ => ⟨m, rfl⟩
    | cons w l ih =>
      intro m hl h3 h2
      obtain ⟨⟨hsize, hindex3, hindex2⟩, hl⟩ := List.forall_mem_cons.mp hl
      have hwrite : writeLeaf bumpPage 0x1000 m w =
          .ok { m with mem := Radix.write m.mem 0x3000 (index w.vaddr 1) w.entry } := by
        have hnext3 : pteNext bumpPage m 0x1000 256 PageSize.mib2.flags = .ok (some 0x2000, m) := by
          unfold pteNext
          rw [h3]
          rfl
        have hnext2 : pteNext bumpPage m 0x2000 2 PageSize.mib2.flags = .ok (some 0x3000, m) := by
          unfold pteNext
          rw [h2]
          rfl
        unfold writeLeaf mapEntry pteWalk
        rw [hsize, hindex3, hindex2, hnext3, Except.ok_bind]
        dsimp only
        rw [if_neg (by decide), hnext2]
        rfl
      rw [List.foldlM_cons, hwrite, Except.ok_bind]
      exact ih _ hl h3 h2
  obtain ⟨m, hm, h3, h2⟩ : ∃ m, writeLeaf bumpPage 0x1000 firstMap ⟨.mib2, part 0xFFFF800080000000 0,
      newEntry (withPages sampleFeatures false) ptePagesize (part 0x40000000 0) .uncached
        (partFlags (kVmAll ||| kVmHuge1GB))⟩ = .ok m ∧ m.mem 0x1000 256 = 0x2007 ∧
      m.mem 0x2000 2 = 0x3007 := ⟨_, rfl, rfl, rfl⟩
  rw [vmPortMap_eq _ _ _ (by decide) (by decide), leafWrites, if_pos (by decide),
    List.range_eq_range', List.range'_succ, List.map_cons, List.foldlM_cons]
  rw [hm, Except.ok_bind]
  refine hwrites _ m ?_ h3 h2
  intro w hw
  obtain ⟨i, hi, rfl⟩ := List.mem_map.mp hw
  have hslot := slot_part (v := 0xFFFF800080000000) (by decide) (show i < 512 by simp at hi; omega)
  rw [slot_mib2] at hslot
  injection hslot with h3 hslot
  injection hslot with h2 _
  exact ⟨rfl, h3, h2⟩

theorem emulated_page_equals_real_new
    : ∃ m real emulated, vmPortInitMap bumpPage ⟨fun _ _ => 0, 1⟩ = .ok (0x1000, m)
      ∧ vmPortMap bumpPage ⟨false⟩ (withPages sampleFeatures true) m 0x1000 0x40000000
          0xFFFF800080000000 .uncached (kVmAll ||| kVmHuge1GB) = .ok real
      ∧ translate portPat real.mem 0x1000 0xFFFF800081234567
          = some ⟨0x41234567, ⟨true, false, false⟩, false, some .uc⟩
      ∧ vmPortMap bumpPage ⟨false⟩ (withPages sampleFeatures false) m 0x1000 0x40000000
          0xFFFF800080000000 .uncached (kVmAll ||| kVmHuge1GB) = .ok emulated
      ∧ translate portPat emulated.mem 0x1000 0xFFFF800081234567
          = some ⟨0x41234567, ⟨true, false, false⟩, false, some .uc⟩ := by
  have hregular : Regular firstMap.mem 0x1000 := regular_of_blank fun _ => rfl
  obtain ⟨real, hreal⟩ : ∃ real, vmPortMap bumpPage ⟨false⟩ (withPages sampleFeatures true) firstMap 0x1000
      0x40000000 0xFFFF800080000000 .uncached (kVmAll ||| kVmHuge1GB) = .ok real := ⟨_, rfl⟩
  obtain ⟨emulated, hemulated⟩ := emulated_returns
  have hvalue : translate portPat real.mem 0x1000 0xFFFF800081234567
      = some ⟨0x41234567, ⟨true, false, false⟩, false, some .uc⟩ := by
    cases hreal
    decide
  have hsame := (@emulated_page_equals_real Nat bumpPage _ _ 0x1000 0xFFFF800080000000 0x40000000
    firstMap ⟨false⟩ sampleFeatures .uncached (kVmAll ||| kVmHuge1GB) pageSource_bumpPage (by decide)
    firstMap_refines.sound hregular (by decide) (by decide) (by decide) (by decide)
    (fun w hw _ => firstMap_refines.walk w hw)).2 real emulated hreal hemulated
  refine ⟨firstMap, real, emulated, firstMap_init, hreal, hvalue, hemulated, ?_⟩
  rw [← hvalue]
  exact hsame.1 _ (by decide)

end Paging
end Nyy
