import Mathlib.Tactic
import Mathlib.Logic.Function.Basic
import NyyKernel.Paging.Lemmas.Change

namespace Nyy
namespace Paging

open Radix (descend find)

inductive PageOp where
  | map (paddr vaddr : Addr) (cache : CacheMode) (flags : BitVec 64)
  | unmap (vaddr : Addr) (flags : BitVec 64)
  deriving DecidableEq, Repr

namespace PageOp

def vaddr : PageOp → Addr
  | .map _ vaddr _ _ => vaddr
  | .unmap vaddr _ => vaddr

def Allowed : PageOp → Prop
  | .map paddr vaddr _ flags =>
    Canonical vaddr ∧ flags &&& kVmHuge = 0 ∧ flags &&& kVmRead ≠ 0
      ∧ paddr.toNat % 2 ^ 12 = 0 ∧ paddr.toNat < 2 ^ 52
  | .unmap vaddr flags => Canonical vaddr ∧ flags &&& kVmHuge = 0

instance : DecidablePred Allowed := fun
  | .map paddr vaddr _ flags =>
    inferInstanceAs (Decidable (Canonical vaddr ∧ flags &&& kVmHuge = 0 ∧ flags &&& kVmRead ≠ 0
      ∧ paddr.toNat % 2 ^ 12 = 0 ∧ paddr.toNat < 2 ^ 52))
  | .unmap vaddr flags => inferInstanceAs (Decidable (Canonical vaddr ∧ flags &&& kVmHuge = 0))

end PageOp

section

variable {σ : Type} (pmAllocateN : PmAllocate σ) (cfg : Config) (features : Features) (cr3 : Addr)

def runOp (m : Mmu σ) : PageOp → Except Fault (Mmu σ)
  | .map paddr vaddr cache flags => vmPortMap pmAllocateN cfg features m cr3 paddr vaddr cache flags
  | .unmap vaddr flags => vmPortUnmap pmAllocateN cfg features m cr3 vaddr flags

def runOps (m : Mmu σ) (ops : List PageOp) : Except Fault (Mmu σ) :=
  ops.foldlM (runOp pmAllocateN cfg features cr3) m

end

abbrev PageMap := BitVec 64 → Option Addr

def PageMap.apply (map : PageMap) : PageOp → PageMap
  | .map paddr vaddr _ _ => Function.update map (page vaddr) (some paddr)
  | .unmap vaddr _ => Function.update map (page vaddr) none

def lastOn (ops : List PageOp) (v : Addr) : Option PageOp :=
  (ops.filter (fun op => page op.vaddr == page v)).getLast?

def PageOp.frame : PageOp → Option Addr
  | .map paddr _ _ _ => some paddr
  | .unmap _ _ => none

theorem PageMap.apply_eq (map : PageMap) (op : PageOp)
    : map.apply op = Function.update map (page op.vaddr) op.frame := by
  cases op <;> rfl

theorem lastOn_append (ops : List PageOp) (op : PageOp) (v : Addr)
    : lastOn (ops ++ [op]) v = if page op.vaddr = page v then some op else lastOn ops v := by
  unfold lastOn
  rw [List.filter_append]
  by_cases h : page op.vaddr = page v
  . simp [h]
  . simp [h]

theorem foldl_apply (ops : List PageOp) (v : Addr)
    : (ops.foldl PageMap.apply (fun _ => none)) (page v) = (lastOn ops v).bind PageOp.frame := by
  induction ops using List.reverseRecOn with
  | nil => rfl
  | append_singleton ops op ih =>
    rw [List.foldl_append, lastOn_append]
    simp only [List.foldl_cons, List.foldl_nil]
    rw [PageMap.apply_eq]
    by_cases h : page op.vaddr = page v
    . rw [h, Function.update_self, if_pos rfl]
      rfl
    . rw [Function.update_of_ne (Ne.symm h), if_neg h]
      exact ih

def Translates (leaf : Option Leaf) : Option Addr → Prop
  | none => leaf = none
  | some paddr => ∃ entry, leaf = some (.page4K entry) ∧ entry &&& pteAddress = paddr

structure Refines (mem : PageMem) (cr3 : Addr) (inUse : Set Addr) (map : PageMap)
    : Prop where
  sound : Sound mem cr3 inUse
  small : ∀ q j, q.length ≤ 2 → find tableBelow mem cr3 isLarge q j = none
  walk : ∀ v, Canonical v → Translates (hardwareWalk mem cr3 v) (map (page v))

section

variable {σ : Type} {pmAllocateN : PmAllocate σ} {Ok : σ → Prop} {used : σ → Set Addr} {cfg : Config}
  {features : Features} {m m' : Mmu σ} {cr3 : Addr} {map : PageMap} {mem : PageMem} {inUse : Set Addr}
  {op : PageOp}

theorem Refines.clear (h : Refines mem cr3 inUse map) (v : Addr) : Clear mem cr3 (pagePath v) := by
  intro p i hp
  apply h.small
  have := hp.length_le
  simp [pagePath] at this
  omega

theorem Refines.of_blank (hblank : ∀ j, mem cr3 j = 0) (hcr3 : cr3 ∈ inUse)
    : Refines mem cr3 inUse (fun _ => none) := by
  have hbelow : ∀ i q, Radix.descend tableBelow mem cr3 (i :: q) = none := by
    intro i q
    rw [Radix.descend, hblank, tableBelow_zero]
  have hfind : ∀ kind : BitVec 64 → Bool, kind 0 = false → ∀ q j,
      find tableBelow mem cr3 kind q j = none := by
    intro kind hkind q j
    cases q with
    | nil => rw [Radix.find_of j Radix.descend_nil, hblank, Option.filter_some_neg hkind]
    | cons i q => exact Radix.find_none j (hbelow i q)
  refine ⟨⟨Radix.tree_of_blank fun j => by rw [hblank, tableBelow_zero], ?_⟩,
    fun q j _ => hfind isLarge isLarge_zero q j, ?_⟩
  . intro p t _ ht
    cases p with
    | nil =>
      cases ht
      exact hcr3
    | cons i p =>
      rw [hbelow] at ht
      cases ht
  . intro v _
    rw [hardwareWalk_eq, hfind isLarge isLarge_zero, hfind isLarge isLarge_zero,
      hfind present present_zero]
    rfl

section

variable (hsrc : PageSource pmAllocateN Ok used)

include hsrc

theorem Refines.init (hok : Ok m.pm) (h : vmPortInitMap pmAllocateN m = .ok (cr3, m'))
    : Ok m'.pm ∧ Refines m'.mem cr3 (used m'.pm) (fun _ => none) := by
  obtain ⟨⟨page, pm⟩, htake, heq⟩ := Except.bind_eq_ok h
  cases heq
  have hblank : ∀ j, Radix.clear m.mem cr3 0 cr3 j = 0 := by
    intro j
    simp [Radix.clear]
  have hcr3 : cr3 ∈ used pm := by
    rw [hsrc.used_eq hok htake]
    exact Set.mem_insert _ _
  exact ⟨hsrc.ok hok htake, .of_blank hblank hcr3⟩

theorem remapped_of_runOp (hok : Ok m.pm) (href : Refines m.mem cr3 (used m.pm) map) (hop : op.Allowed)
    (h : runOp pmAllocateN cfg features cr3 m op = .ok m')
    : ∃ leaf, Remapped pmAllocateN used cr3 op.vaddr m m' leaf ∧ Translates leaf op.frame := by
  cases op with
  | map paddr vaddr cache flags =>
    obtain ⟨hv, hhuge, hread, halign, hbound⟩ := hop
    have hframe := (and_pteAddress_iff paddr).mpr ⟨halign, hbound⟩
    refine ⟨_, vmPortMap_spec hsrc hok href.sound (href.clear vaddr) hv hhuge h, ?_⟩
    rw [present_newEntry features 0 paddr cache hread, if_pos rfl]
    exact ⟨_, rfl, newEntry_and features cache flags (by decide) hframe⟩
  | unmap vaddr flags =>
    obtain ⟨hv, hhuge⟩ := hop
    exact ⟨none, (vmPortUnmap_spec hsrc hok href.sound (href.clear vaddr) hv hhuge h).1, rfl⟩

theorem Refines.step (hok : Ok m.pm) (href : Refines m.mem cr3 (used m.pm) map) (hop : op.Allowed)
    (h : runOp pmAllocateN cfg features cr3 m op = .ok m')
    : Ok m'.pm ∧ Refines m'.mem cr3 (used m'.pm) (map.apply op) := by
  obtain ⟨leaf, hre, hleaf⟩ := remapped_of_runOp hsrc hok href hop h
  refine ⟨hsrc.ok_of_taken hok hre.taken, hre.sound, ?_, ?_⟩
  . intro q j hq
    rw [hre.large q j hq]
    exact href.small q j hq
  . intro v hv
    rw [PageMap.apply_eq]
    by_cases hpage : page v = page op.vaddr
    . rw [hpage, Function.update_self, hre.here v hpage]
      exact hleaf
    . rw [Function.update_of_ne hpage, hre.elsewhere v hv hpage]
      exact href.walk v hv

theorem Refines.run {ops : List PageOp} (hops : ∀ op ∈ ops, op.Allowed) (hok : Ok m.pm)
    (href : Refines m.mem cr3 (used m.pm) map) (h : runOps pmAllocateN cfg features cr3 m ops = .ok m')
    : Ok m'.pm ∧ Refines m'.mem cr3 (used m'.pm) (ops.foldl PageMap.apply map) := by
  induction ops generalizing m map with
  | nil =>
    cases h
    exact ⟨hok, href⟩
  | cons op ops ih =>
    unfold runOps at h
    rw [List.foldlM_cons] at h
    obtain ⟨m₁, h₁, h⟩ := Except.bind_eq_ok h
    obtain ⟨hok₁, href₁⟩ := href.step hsrc hok (hops op (by simp)) h₁
    exact ih (fun op' hop' => hops op' (by simp [hop'])) hok₁ href₁ h

end

inductive Table (mem : PageMem) (cr3 : Addr) : Nat → Addr → Prop where
  | root : Table mem cr3 3 cr3
  | child {level : Nat} {t : Addr} {i : BitVec 9} : Table mem cr3 (level + 1) t
      → present (mem t i) = true → Table mem cr3 level (mem t i &&& pteAddress)

structure NotShared (mem : PageMem) (cr3 : Addr) : Prop where
  parent : ∀ {l l' t t' i j}, Table mem cr3 (l + 1) t → Table mem cr3 (l' + 1) t'
    → present (mem t i) = true → present (mem t' j) = true
    → mem t i &&& pteAddress = mem t' j &&& pteAddress → l = l' ∧ t = t' ∧ i = j
  root : ∀ {l t i}, Table mem cr3 (l + 1) t → present (mem t i) = true
    → mem t i &&& pteAddress ≠ cr3

theorem Refines.descend_of_table (h : Refines mem cr3 inUse map) {level : Nat} {t : Addr}
    (ht : Table mem cr3 level t)
    : ∃ p, p.length + level = 3 ∧ descend tableBelow mem cr3 p = some t := by
  induction ht with
  | root => exact ⟨[], rfl, rfl⟩
  | @child level t i _ hpres ih =>
    obtain ⟨p, hlen, hp⟩ := ih
    refine ⟨p ++ [i], by simp; omega, ?_⟩
    rw [Radix.descend_snoc_of i hp]
    exact tableBelow_of_present hpres ((find_isLarge_eq_none hp).mp (h.small p i (by omega)))

theorem Refines.notShared (h : Refines mem cr3 inUse map) : NotShared mem cr3 := by
  constructor
  . intro l l' t t' i j ht ht' hi hj heq
    obtain ⟨p, hlen, hp⟩ := h.descend_of_table ht
    obtain ⟨p', hlen', hp'⟩ := h.descend_of_table ht'
    have hpi : descend tableBelow mem cr3 (p ++ [i]) = some (mem t i &&& pteAddress) := by
      rw [Radix.descend_snoc_of i hp]
      exact tableBelow_of_present hi ((find_isLarge_eq_none hp).mp (h.small p i (by omega)))
    have hpj : descend tableBelow mem cr3 (p' ++ [j]) = some (mem t i &&& pteAddress) := by
      rw [Radix.descend_snoc_of j hp', heq]
      exact tableBelow_of_present hj ((find_isLarge_eq_none hp').mp (h.small p' j (by omega)))
    have happ := h.sound.tree _ _ _ (by simp; omega) (by simp; omega) hpi hpj
    obtain ⟨hpp, hij⟩ := List.append_inj' happ rfl
    subst hpp
    rw [hp] at hp'
    refine ⟨by omega, Option.some.inj hp', by simpa using hij⟩
  . intro l t i ht hi heq
    obtain ⟨p, hlen, hp⟩ := h.descend_of_table ht
    have hpi : descend tableBelow mem cr3 (p ++ [i]) = some cr3 := by
      rw [Radix.descend_snoc_of i hp, ← heq]
      exact tableBelow_of_present hi ((find_isLarge_eq_none hp).mp (h.small p i (by omega)))
    have happ := h.sound.tree _ _ _ (by simp; omega) (by simp) hpi Radix.descend_nil
    simp at happ

theorem runOp_error (hop : op.Allowed) {f : Fault} (h : runOp pmAllocateN cfg features cr3 m op = .error f)
    : ∃ a, pmAllocateN a = .error f := by
  cases op with
  | map paddr vaddr cache flags =>
    obtain ⟨_, hhuge, _⟩ := hop
    change vmPortMapFuel pmAllocateN cfg features cr3 cache 2 m paddr vaddr flags = .error f at h
    unfold vmPortMapFuel at h
    rw [if_pos hhuge] at h
    exact mapEntry_error rfl h
  | unmap vaddr flags =>
    obtain ⟨_, hhuge⟩ := hop
    change vmPortUnmap pmAllocateN cfg features m cr3 vaddr flags = .error f at h
    have hflags : unmapFlags cfg features flags = .ok ⟨false, false, false⟩ := if_pos hhuge
    obtain ⟨m', hm'⟩ := vmPortUnmap_returns hflags rfl
    cases h.symm.trans hm'

theorem runOps_eq_ok (htotal : ∀ a, ∃ r, pmAllocateN a = .ok r) {ops : List PageOp}
    (hops : ∀ op ∈ ops, op.Allowed)
    : ∃ m', runOps pmAllocateN cfg features cr3 m ops = .ok m' := by
  induction ops generalizing m with
  | nil => exact ⟨m, rfl⟩
  | cons op ops ih =>
    rw [List.forall_mem_cons] at hops
    unfold runOps
    rw [List.foldlM_cons]
    cases h : runOp pmAllocateN cfg features cr3 m op with
    | error f =>
      obtain ⟨a, ha⟩ := runOp_error hops.1 h
      obtain ⟨r, hr⟩ := htotal a
      cases ha.symm.trans hr
    | ok m₁ => exact ih hops.2

theorem translates_iff {leaf : Option Leaf} {frame : Option Addr} (h : Translates leaf frame) (paddr : Addr)
    : (∃ entry, leaf = some (.page4K entry) ∧ entry &&& pteAddress = paddr)
        ↔ frame = some paddr := by
  cases frame with
  | none =>
    rw [show leaf = none from h]
    simp
  | some paddr' =>
    obtain ⟨entry', rfl, rfl⟩ := h
    constructor
    . rintro ⟨entry, heq, rfl⟩
      cases heq
      rfl
    . intro heq
      exact ⟨entry', rfl, Option.some.inj heq⟩

theorem frame_eq_some {last : Option PageOp} {paddr : Addr}
    : last.bind PageOp.frame = some paddr
        ↔ ∃ vaddr cache flags, last = some (.map paddr vaddr cache flags) := by
  constructor
  . intro h
    obtain ⟨op, rfl, hop⟩ := Option.bind_eq_some_iff.mp h
    cases op with
    | map paddr' vaddr cache flags =>
      cases hop
      exact ⟨vaddr, cache, flags, rfl⟩
    | unmap vaddr flags => cases hop
  . rintro ⟨vaddr, cache, flags, rfl⟩
    rfl

theorem walk_finds_last_mapping (hsrc : PageSource pmAllocateN Ok used) {m₀ : Mmu σ} {ops : List PageOp}
    (hok : Ok m₀.pm) (hinit : vmPortInitMap pmAllocateN m₀ = .ok (cr3, m)) (hops : ∀ op ∈ ops, op.Allowed)
    (hrun : runOps pmAllocateN cfg features cr3 m ops = .ok m')
    : (∀ v, Canonical v → ∀ paddr,
        (∃ entry, hardwareWalk m'.mem cr3 v = some (.page4K entry) ∧ entry &&& pteAddress = paddr)
          ↔ ∃ vaddr cache flags, lastOn ops v = some (.map paddr vaddr cache flags))
      ∧ (∀ v, Canonical v → hardwareWalk m'.mem cr3 v = none
          ∨ ∃ entry, hardwareWalk m'.mem cr3 v = some (.page4K entry))
      ∧ (∀ op m'', op.Allowed → runOp pmAllocateN cfg features cr3 m' op = .ok m''
        → ∀ v, Canonical v → page v ≠ page op.vaddr
        → hardwareWalk m''.mem cr3 v = hardwareWalk m'.mem cr3 v)
      ∧ NotShared m'.mem cr3
      ∧ (∀ op f, op.Allowed → runOp pmAllocateN cfg features cr3 m' op = .error f
        → ∃ a, pmAllocateN a = .error f) := by
  obtain ⟨hok₁, href₁⟩ := Refines.init hsrc hok hinit
  obtain ⟨hok', href'⟩ := href₁.run hsrc hops hok₁ hrun
  refine ⟨?_, ?_, ?_, href'.notShared, ?_⟩
  . intro v hv paddr
    rw [translates_iff (href'.walk v hv), foldl_apply, frame_eq_some]
  . intro v hv
    have hwalk := href'.walk v hv
    cases hmap : ops.foldl PageMap.apply (fun _ => none) (page v) with
    | none =>
      rw [hmap] at hwalk
      exact Or.inl hwalk
    | some paddr =>
      rw [hmap] at hwalk
      obtain ⟨entry, hentry, _⟩ := hwalk
      exact Or.inr ⟨entry, hentry⟩
  . intro op m'' hop h v hv hne
    obtain ⟨leaf, hre, _⟩ := remapped_of_runOp hsrc hok' href' hop h
    exact hre.elsewhere v hv hne
  . intro op f hop h
    exact runOp_error hop h

end

def bumpPage (n : Nat) : Except Fault (Addr × Nat) :=
  if n < 2 ^ 40 then .ok (BitVec.ofNat 64 (n * 2 ^ 12), n + 1) else .error .noMemory

def bumped (n : Nat) : Set Addr := fun a => ∃ i < n, a = BitVec.ofNat 64 (i * 2 ^ 12)

theorem pageSource_bumpPage : PageSource bumpPage (fun n => n ≤ 2 ^ 40) bumped := by
  have hinv : ∀ {n page n'}, bumpPage n = .ok (page, n')
      → n < 2 ^ 40 ∧ page = BitVec.ofNat 64 (n * 2 ^ 12) ∧ n' = n + 1 := by
    intro n page n' h
    unfold bumpPage at h
    split at h
    . next hn =>
      cases h
      exact ⟨hn, rfl, rfl⟩
    . cases h
  constructor
  . intro n page n' _ h
    obtain ⟨hn, _, rfl⟩ := hinv h
    omega
  . intro n page n' _ h
    obtain ⟨hn, rfl, _⟩ := hinv h
    rw [and_pteAddress_iff, BitVec.toNat_ofNat]
    omega
  . intro n page n' _ h hused
    obtain ⟨hn, rfl, _⟩ := hinv h
    obtain ⟨i, hi, heq⟩ := hused
    have := congrArg BitVec.toNat heq
    simp only [BitVec.toNat_ofNat] at this
    omega
  . intro n page n' _ h
    obtain ⟨hn, rfl, rfl⟩ := hinv h
    ext a
    constructor
    . rintro ⟨i, hi, rfl⟩
      by_cases hin : i = n
      . left
        rw [hin]
      . right
        exact ⟨i, by omega, rfl⟩
    . rintro (rfl | ⟨i, hi, rfl⟩)
      . exact ⟨n, by omega, rfl⟩
      . exact ⟨i, by omega, rfl⟩

def firstMap : Mmu Nat := ⟨Radix.clear (fun _ _ => 0) 0x1000 0, 2⟩

theorem firstMap_init : vmPortInitMap bumpPage ⟨fun _ _ => 0, 1⟩ = .ok (0x1000, firstMap) := by
  rfl

theorem firstMap_refines : Refines firstMap.mem 0x1000 (bumped firstMap.pm) (fun _ => none) := by
  exact (Refines.init pageSource_bumpPage (by decide : (1 : Nat) ≤ 2 ^ 40) firstMap_init).2

def sampleOps : List PageOp :=
  [.map 0x5000 0xFFFFE00000000000 .writethrough kVmAll,
    .map 0x7000 0xFFFFE00000001000 .writecombine kVmAll,
    .map 0x6000 0xFFFFE00000000000 .writeback kVmRead,
    .unmap 0xFFFFE00000001000 0]

theorem sampleOps_run
    : ∃ m', runOps bumpPage ⟨false⟩ ⟨true, true, true⟩ 0x1000 firstMap sampleOps = .ok m' := by
  exact ⟨_, rfl⟩

theorem walk_finds_last_mapping_sample
    : ∃ m m', vmPortInitMap bumpPage ⟨fun _ _ => 0, 1⟩ = .ok (0x1000, m)
      ∧ runOps bumpPage ⟨false⟩ ⟨true, true, true⟩ 0x1000 m sampleOps = .ok m'
      ∧ (∃ entry, hardwareWalk m'.mem 0x1000 0xFFFFE00000000123 = some (.page4K entry)
        ∧ entry &&& pteAddress = 0x6000) := by
  obtain ⟨m', hrun⟩ := sampleOps_run
  have hstart : (1 : Nat) ≤ 2 ^ 40 := by decide
  have hspec := walk_finds_last_mapping pageSource_bumpPage hstart firstMap_init (by decide) hrun
  exact ⟨firstMap, m', firstMap_init, hrun,
    (hspec.1 0xFFFFE00000000123 (by decide) 0x6000).mpr ⟨_, _, _, rfl⟩⟩

end Paging
end Nyy
