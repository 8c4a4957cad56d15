import Mathlib.Tactic
import NyyKernel.Paging.Impl

namespace Nyy
namespace Paging

variable {v a w paddr : Addr} {entry bits size : BitVec 64} {i : Nat}

theorem getLsbD_pteAddress (hi : i < 64) : pteAddress.getLsbD i = decide (12 ≤ i ∧ i < 52) := by
  have h : ∀ i : Fin 64, pteAddress.getLsbD i = decide (12 ≤ i.val ∧ i.val < 52) := by decide
  exact h ⟨i, hi⟩

theorem and_pteAddress_iff (a : Addr)
    : a &&& pteAddress = a ↔ a.toNat % 2 ^ 12 = 0 ∧ a.toNat < 2 ^ 52 := by
  constructor
  . intro h
    have hbit : ∀ i, a.toNat.testBit i = true → 12 ≤ i ∧ i < 52 := by
      intro i hi
      rw [BitVec.testBit_toNat] at hi
      have hlt : i < 64 := BitVec.lt_of_getLsbD hi
      rw [← h, BitVec.getLsbD_and, getLsbD_pteAddress hlt] at hi
      simpa using (Bool.and_eq_true_iff.mp hi).2
    constructor
    . apply Nat.eq_of_testBit_eq
      intro i
      rw [Nat.testBit_mod_two_pow, Nat.zero_testBit]
      by_contra hne
      simp at hne
      have := hbit i hne.2
      omega
    . apply Nat.lt_pow_two_of_testBit
      intro i hi
      by_contra hne
      have := hbit i (by simpa using hne)
      omega
  . rintro ⟨hmod, hlt⟩
    apply BitVec.eq_of_getLsbD_eq
    intro i hi
    rw [BitVec.getLsbD_and, getLsbD_pteAddress hi]
    by_cases hr : 12 ≤ i ∧ i < 52
    . simp [hr]
    . have hzero : a.getLsbD i = false := by
        rw [← BitVec.testBit_toNat]
        by_cases h12 : i < 12
        . have := Nat.testBit_mod_two_pow a.toNat 12 i
          rw [hmod] at this
          simpa [h12] using this.symm
        . apply Nat.testBit_lt_two_pow
          calc a.toNat < 2 ^ 52 := hlt
            _ ≤ 2 ^ i := Nat.pow_le_pow_right (by omega) (by omega)
      simp [hzero]

theorem toNat_and_pteAddress (h : a.toNat % 2 ^ 12 = 0)
    : (a &&& pteAddress).toNat = a.toNat % 2 ^ 52 := by
  apply Nat.eq_of_testBit_eq
  intro i
  rw [Nat.testBit_mod_two_pow, BitVec.testBit_toNat, BitVec.testBit_toNat, BitVec.getLsbD_and]
  by_cases hi : i < 64
  . rw [getLsbD_pteAddress hi]
    by_cases h12 : i < 12
    . have hzero := Nat.testBit_mod_two_pow a.toNat 12 i
      rw [h, BitVec.testBit_toNat] at hzero
      have hzero : a.getLsbD i = false := by simpa [h12] using hzero.symm
      simp [hzero]
    . simp [Nat.le_of_not_lt h12, Bool.and_comm]
  . simp [BitVec.getLsbD_of_ge _ _ (Nat.le_of_not_lt hi)]

theorem getLsbD_index (v : Addr) (level j : Nat) (hj : j < 9)
    : (index v level).getLsbD j = v.getLsbD (12 + 9 * level + j) := by
  have hmask : ∀ j : Fin 9, (0x1ff : BitVec 64).getLsbD j = true := by decide
  unfold index
  rw [BitVec.getLsbD_setWidth, BitVec.getLsbD_and, BitVec.getLsbD_ushiftRight, hmask ⟨j, hj⟩]
  simp [hj]

theorem getLsbD_of_canonical (h : Canonical v) (hi : 48 ≤ i) (hi' : i < 64)
    : v.getLsbD i = v.getLsbD 47 := by
  unfold Canonical at h
  rw [← h, BitVec.getLsbD_signExtend, BitVec.getLsbD_signExtend]
  simp [hi', show ¬ i < 48 by omega, BitVec.msb_eq_getLsbD_last]

theorem canonical_iff (v : Addr)
    : Canonical v ↔ v.toNat < 2 ^ 47 ∨ 2 ^ 64 - 2 ^ 47 ≤ v.toNat := by
  have := v.isLt
  unfold Canonical
  rw [← BitVec.toInt_inj, BitVec.toInt_signExtend_of_le (by decide), BitVec.toInt_setWidth,
    BitVec.toInt_eq_toNat_bmod, Int.bmod_def, Int.bmod_def]
  omega

theorem shiftRight_eq_of_index {v w : Addr} (hv : Canonical v) (hw : Canonical w) {low : Nat}
    (hlow : low < 4) (h : ∀ level, low ≤ level → level < 4 → index v level = index w level)
    : v >>> (12 + 9 * low) = w >>> (12 + 9 * low) := by
  have hbits : ∀ i, 12 + 9 * low ≤ i → i < 48 → v.getLsbD i = w.getLsbD i := by
    intro i h1 h2
    have hl := h ((i - 12) / 9) (by omega) (by omega)
    have hb := getLsbD_index v ((i - 12) / 9) ((i - 12) % 9) (by omega)
    rw [hl, getLsbD_index _ _ _ (by omega)] at hb
    have he : 12 + 9 * ((i - 12) / 9) + (i - 12) % 9 = i := by omega
    rw [he] at hb
    exact hb.symm
  apply BitVec.eq_of_getLsbD_eq
  intro i hi
  rw [BitVec.getLsbD_ushiftRight, BitVec.getLsbD_ushiftRight]
  by_cases h1 : 12 + 9 * low + i < 48
  . exact hbits _ (by omega) h1
  . by_cases h2 : 12 + 9 * low + i < 64
    . rw [getLsbD_of_canonical hv (by omega) h2, getLsbD_of_canonical hw (by omega) h2]
      exact hbits 47 (by omega) (by omega)
    . rw [BitVec.getLsbD_of_ge _ _ (by omega), BitVec.getLsbD_of_ge _ _ (by omega)]

theorem index_eq_of_shiftRight {v w : Addr} {low : Nat} (h : v >>> (12 + 9 * low) = w >>> (12 + 9 * low))
    {level : Nat} (hlevel : low ≤ level)
    : index v level = index w level := by
  apply BitVec.eq_of_getLsbD_eq
  intro j hj
  rw [getLsbD_index _ _ _ hj, getLsbD_index _ _ _ hj]
  have hb := congrArg (fun b => b.getLsbD (9 * (level - low) + j)) h
  simp only [BitVec.getLsbD_ushiftRight] at hb
  have he : 12 + 9 * low + (9 * (level - low) + j) = 12 + 9 * level + j := by omega
  rwa [he] at hb

theorem page_eq_of_index (hv : Canonical v) (hw : Canonical w)
    (h : ∀ level < 4, index v level = index w level)
    : page v = page w :=
  @shiftRight_eq_of_index v w hv hw 0 (by decide) (fun level _ hlt => h level hlt)

theorem index_eq_of_page (h : page v = page w) (level : Nat) : index v level = index w level :=
  @index_eq_of_shiftRight v w 0 h level (Nat.zero_le level)

theorem present_zero : present 0 = false := by
  decide

theorem isLarge_zero : isLarge 0 = false := by
  decide

theorem tableBelow_zero : tableBelow 0 = none := by
  decide

theorem isLarge_of_not_present (h : present entry = false) : isLarge entry = false := by
  simp [isLarge, h]

theorem tableBelow_of_not_present (h : present entry = false) : tableBelow entry = none := by
  simp [tableBelow, h]

theorem tableBelow_of_present (h : present entry = true) (hlarge : isLarge entry = false)
    : tableBelow entry = some (entry &&& pteAddress) := by
  have : large entry = false := by simpa [isLarge, h] using hlarge
  simp [tableBelow, h, this]

theorem frame_and (h : a &&& pteAddress = a) (hbits : pteAddress &&& bits = 0)
    : a &&& bits = 0 := by
  rw [← h, BitVec.and_assoc, hbits]
  simp

theorem or_and (a b c : BitVec 64) : (a ||| b) &&& c = (a &&& c) ||| (b &&& c) := by
  apply BitVec.eq_of_getLsbD_eq
  intro i _
  simp [Bool.and_or_distrib_right]

def tableEntry (page : Addr) : BitVec 64 := page ||| ptePresent ||| pteUser ||| pteWrite

theorem present_tableEntry {page : Addr} (h : page &&& pteAddress = page)
    : present (tableEntry page) = true := by
  unfold present tableEntry
  rw [or_and, or_and, or_and, frame_and h (by decide)]
  decide

theorem isLarge_tableEntry {page : Addr} (h : page &&& pteAddress = page)
    : isLarge (tableEntry page) = false := by
  unfold isLarge large tableEntry
  rw [or_and, or_and, or_and, frame_and h (by decide)]
  have : (0 ||| ptePresent &&& ptePagesize ||| pteUser &&& ptePagesize
      ||| pteWrite &&& ptePagesize != 0) = false := by decide
  rw [this, Bool.and_false]

theorem tableBelow_tableEntry {page : Addr} (h : page &&& pteAddress = page)
    : tableBelow (tableEntry page) = some page := by
  rw [tableBelow_of_present (present_tableEntry h) (isLarge_tableEntry h)]
  unfold tableEntry
  rw [or_and, or_and, or_and, h]
  have h1 : ptePresent &&& pteAddress = 0 := by decide
  have h2 : pteUser &&& pteAddress = 0 := by decide
  have h3 : pteWrite &&& pteAddress = 0 := by decide
  rw [h1, h2, h3]
  simp

theorem bitsIf_and (cond : Bool) {mask : BitVec 64} (h : bits &&& mask = 0)
    : bitsIf cond bits &&& mask = 0 := by
  cases cond with
  | true => exact h
  | false => exact BitVec.zero_and

theorem cacheBits_and (cache : CacheMode) : cacheBits cache &&& pteAddress = 0 := by
  cases cache <;> decide

theorem pageAlignDown_frame (h : paddr &&& pteAddress = paddr) : pageAlignDown paddr = paddr := by
  have hmask : pteAddress &&& ~~~(0x1000 - 1) = pteAddress := by decide
  unfold pageAlignDown
  rw [← h, BitVec.and_assoc, hmask]

theorem newEntry_and_pteAddress (features : Features) (paddr : Addr) (cache : CacheMode) (flags : BitVec 64)
    (hsize : size &&& pteAddress = 0)
    : newEntry features size paddr cache flags &&& pteAddress = paddr &&& pteAddress := by
  have halign : pageAlignDown paddr &&& pteAddress = paddr &&& pteAddress := by
    have hmask : ~~~(0x1000 - 1) &&& pteAddress = pteAddress := by decide
    unfold pageAlignDown
    rw [BitVec.and_assoc, hmask]
  unfold newEntry
  simp only [or_and, halign, hsize, cacheBits_and]
  rw [bitsIf_and _ (by decide), bitsIf_and _ (by decide), bitsIf_and _ (by decide),
    bitsIf_and _ (by decide), bitsIf_and _ (by decide)]
  simp

theorem newEntry_and (features : Features) (cache : CacheMode) (flags : BitVec 64)
    (hsize : size &&& pteAddress = 0) (h : paddr &&& pteAddress = paddr)
    : newEntry features size paddr cache flags &&& pteAddress = paddr := by
  rw [newEntry_and_pteAddress features paddr cache flags hsize, h]

theorem large_newEntry (features : Features) (paddr : Addr) (cache : CacheMode) (flags : BitVec 64)
    : large (newEntry features ptePagesize paddr cache flags) = true := by
  have hbit : ptePagesize.getLsbD 7 = true := by decide
  have hset : (newEntry features ptePagesize paddr cache flags &&& ptePagesize).getLsbD 7
      = true := by
    unfold newEntry
    simp [hbit]
  unfold large
  rw [bne_iff_ne]
  intro hzero
  rw [hzero] at hset
  cases hset

theorem present_newEntry (features : Features) (size : BitVec 64) (paddr : Addr) (cache : CacheMode)
    {flags : BitVec 64} (h : flags &&& kVmRead ≠ 0)
    : present (newEntry features size paddr cache flags) = true := by
  have hread : (flags &&& kVmRead != 0) = true := by simpa using h
  have hbit : ptePresent.getLsbD 0 = true := by decide
  have hset : (newEntry features size paddr cache flags &&& ptePresent).getLsbD 0 = true := by
    unfold newEntry
    rw [hread]
    simp [bitsIf, hbit]
  unfold present
  rw [bne_iff_ne]
  intro hzero
  rw [hzero] at hset
  cases hset

theorem present_unmapped (entry : BitVec 64)
    : present (entry &&& ~~~(ptePresent ||| pteAddress)) = false := by
  have hmask : ~~~(ptePresent ||| pteAddress) &&& ptePresent = 0 := by decide
  unfold present
  rw [BitVec.and_assoc, hmask]
  simp

end Paging
end Nyy
