import Mathlib.Tactic
import NyyKernel.Paging.Lemmas.Map

namespace Nyy
namespace Paging

variable {size : PageSize} {v w : Addr}

def slot (flags : WalkFlags) (v : Addr) : List (BitVec 9) := slotPath flags v ++ [slotIndex flags v]

inductive PageSize where
  | kib4
  | mib2
  | gib1
  deriving DecidableEq, Repr

namespace PageSize

def flags : PageSize → WalkFlags
  | .kib4 => ⟨true, false, false⟩
  | .mib2 => ⟨true, true, false⟩
  | .gib1 => ⟨true, false, true⟩

def level : PageSize → Nat
  | .kib4 => 0
  | .mib2 => 1
  | .gib1 => 2

def bytes (size : PageSize) : Nat := 2 ^ (12 + 9 * size.level)

def bits : PageSize → BitVec 64
  | .kib4 => 0
  | .mib2 => ptePagesize
  | .gib1 => ptePagesize

theorem bytes_mib2 : mib2.bytes = 2 ^ 21 := by
  decide

theorem bytes_gib1 : gib1.bytes = 2 ^ 30 := by
  decide

theorem level_lt (size : PageSize) : size.level < 3 := by
  cases size <;> decide

theorem bytes_pos (size : PageSize) : 0 < size.bytes := by
  cases size <;> decide

theorem bytes_dvd_gib (size : PageSize) : size.bytes ∣ 2 ^ 30 := by
  cases size <;> decide

theorem page_dvd_bytes (size : PageSize) : 2 ^ 12 ∣ size.bytes := by
  cases size <;> decide

end PageSize

theorem slot_kib4 (v : Addr)
    : slot PageSize.kib4.flags v = [index v 3, index v 2, index v 1, index v 0] := by
  rfl

theorem slot_mib2 (v : Addr)
    : slot PageSize.mib2.flags v = [index v 3, index v 2, index v 1] := by
  rfl

theorem slot_gib1 (v : Addr) : slot PageSize.gib1.flags v = [index v 3, index v 2] := by
  rfl

theorem slot_eq_iff_index
    : slot size.flags v = slot size.flags w
        ↔ ∀ level, size.level ≤ level → level < 4 → index v level = index w level := by
  constructor
  . intro h level hlow hlevel
    cases size with
    | kib4 =>
      simp only [slot_kib4, List.cons.injEq, and_true] at h
      interval_cases level <;> simp [h]
    | mib2 =>
      simp only [slot_mib2, List.cons.injEq, and_true] at h
      simp only [PageSize.level] at hlow
      interval_cases level <;> simp [h]
    | gib1 =>
      simp only [slot_gib1, List.cons.injEq, and_true] at h
      simp only [PageSize.level] at hlow
      interval_cases level <;> simp [h]
  . intro h
    cases size with
    | kib4 =>
      rw [slot_kib4, slot_kib4, h 3 (by decide) (by decide), h 2 (by decide) (by decide),
        h 1 (by decide) (by decide), h 0 (by decide) (by decide)]
    | mib2 =>
      rw [slot_mib2, slot_mib2, h 3 (by decide) (by decide), h 2 (by decide) (by decide),
        h 1 (by decide) (by decide)]
    | gib1 =>
      rw [slot_gib1, slot_gib1, h 3 (by decide) (by decide), h 2 (by decide) (by decide)]

theorem slot_eq_iff (hv : Canonical v) (hw : Canonical w)
    : slot size.flags v = slot size.flags w ↔ v.toNat / size.bytes = w.toNat / size.bytes := by
  have hshift : v >>> (12 + 9 * size.level) = w >>> (12 + 9 * size.level)
      ↔ v.toNat / size.bytes = w.toNat / size.bytes := by
    unfold PageSize.bytes
    rw [← BitVec.toNat_inj, BitVec.toNat_ushiftRight, BitVec.toNat_ushiftRight,
      Nat.shiftRight_eq_div_pow, Nat.shiftRight_eq_div_pow]
  rw [← hshift, slot_eq_iff_index]
  constructor
  . intro h
    have := size.level_lt
    exact shiftRight_eq_of_index hv hw (by omega) h
  . intro h level hlow _
    exact index_eq_of_shiftRight h hlow

theorem slot_eq_of_path {size' : PageSize} (h : slot size.flags v <+: slot size'.flags w)
    : slot size.flags v = slot size.flags w := by
  cases size <;> cases size' <;>
    simp [slot, slotPath, slotIndex, PageSize.flags, List.cons_prefix_cons] at h ⊢ <;> simp [h]

def PageSize.leaf : PageSize → BitVec 64 → Leaf
  | .kib4 => Leaf.page4K
  | .mib2 => Leaf.page2M
  | .gib1 => Leaf.page1G

theorem leaf_address {size : PageSize} {entry : BitVec 64} {base x : Nat} {v : Addr}
    (hframe : entry &&& pteAddress = BitVec.ofNat 64 base) (halign : base % size.bytes = 0)
    (hupper : x / size.bytes = base / size.bytes) (hlower : v.toNat % size.bytes = x % size.bytes)
    : (size.leaf entry).address v = BitVec.ofNat 64 x := by
  have hbase : ∀ i, 12 + 9 * size.level ≤ i → base.testBit i = x.testBit i := by
    intro i hi
    obtain ⟨j, rfl⟩ := Nat.exists_eq_add_of_le hi
    rw [Nat.add_comm, ← Nat.testBit_div_two_pow, ← Nat.testBit_div_two_pow]
    exact congrArg (Nat.testBit · j) hupper.symm
  have hzero : ∀ i, i < 12 + 9 * size.level → base.testBit i = false := by
    intro i hi
    have := congrArg (Nat.testBit · i) halign
    simpa [PageSize.bytes, Nat.testBit_mod_two_pow, hi] using this
  have hlow : ∀ i, i < 12 + 9 * size.level → v.toNat.testBit i = x.testBit i := by
    intro i hi
    have := congrArg (Nat.testBit · i) hlower
    simpa [PageSize.bytes, Nat.testBit_mod_two_pow, hi] using this
  have hmask : ∀ k i : Nat, (BitVec.ofNat 64 (2 ^ k - 1)).getLsbD i
      = (decide (i < 64) && decide (i < k)) := by
    intro k i
    rw [BitVec.getLsbD_ofNat, Nat.testBit_two_pow_sub_one]
  have hpage : (0x1000 - 1 : BitVec 64) = BitVec.ofNat 64 (2 ^ 12 - 1) := by decide
  have hmib : mib2 - 1 = BitVec.ofNat 64 (2 ^ 21 - 1) := by decide
  have hgib : gib1 - 1 = BitVec.ofNat 64 (2 ^ 30 - 1) := by decide
  apply BitVec.eq_of_getLsbD_eq
  intro i hi
  cases size with
  | kib4 =>
    simp only [PageSize.leaf, Leaf.address, Leaf.frame, hframe, hpage, BitVec.getLsbD_or,
      BitVec.getLsbD_and, hmask, BitVec.getLsbD_ofNat, hi, decide_true, Bool.true_and]
    by_cases hlt : i < 12
    . rw [hzero i hlt, ← hlow i hlt, BitVec.testBit_toNat]
      simp [hlt]
    . rw [hbase i (by simp [PageSize.level]; omega)]
      simp [hlt]
  | mib2 =>
    simp only [PageSize.leaf, Leaf.address, Leaf.frame, hframe, hpage, hmib, pageAlignDown,
      BitVec.getLsbD_or, BitVec.getLsbD_and, BitVec.getLsbD_not, hmask, BitVec.getLsbD_ofNat, hi,
      decide_true, Bool.true_and]
    by_cases hlt : i < 21
    . rw [← hlow i hlt, BitVec.testBit_toNat]
      by_cases hlt' : i < 12 <;> simp [hlt, hlt']
    . rw [hbase i (by simp [PageSize.level]; omega)]
      simp [hlt, show ¬ i < 12 by omega]
  | gib1 =>
    simp only [PageSize.leaf, Leaf.address, Leaf.frame, hframe, hpage, hgib, pageAlignDown,
      BitVec.getLsbD_or, BitVec.getLsbD_and, BitVec.getLsbD_not, hmask, BitVec.getLsbD_ofNat, hi,
      decide_true, Bool.true_and]
    by_cases hlt : i < 30
    . rw [← hlow i hlt, BitVec.testBit_toNat]
      by_cases hlt' : i < 12 <;> simp [hlt, hlt']
    . rw [hbase i (by simp [PageSize.level]; omega)]
      simp [hlt, show ¬ i < 12 by omega]

end Paging
end Nyy
