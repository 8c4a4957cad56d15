import Mathlib.Tactic

/-!
This module contains registers of 32 bits as four bytes, of which the first one is the lowest.
-/

namespace Nyy
namespace Bytes

variable {j w i s k : Nat}

def dword (b : Nat → BitVec 8) : BitVec 32 := b 3 ++ b 2 ++ b 1 ++ b 0

def byte (v : BitVec 32) (k : Nat) : BitVec 8 := v.extractLsb' (8 * k) 8

theorem byte_dword (b : Nat → BitVec 8) (hj : j < 4) : byte (dword b) j = b j := by
  unfold byte dword
  ext i hi
  interval_cases j <;> simp <;> grind

theorem getLsbD_mask (hi : i < 32) : (BitVec.ofNat 32 (2 ^ w - 1)).getLsbD i = decide (i < w) := by
  rw [BitVec.getLsbD_ofNat, Nat.testBit_two_pow_sub_one]
  simp [hi]

theorem read_field (s : Nat) (v : BitVec 32) (hw : w ≤ 32)
    : ((v >>> s) &&& BitVec.ofNat 32 (2 ^ w - 1)).setWidth w = v.extractLsb' s w := by
  ext i hi
  rw [← BitVec.getLsbD_eq_getElem, ← BitVec.getLsbD_eq_getElem]
  rw [BitVec.getLsbD_setWidth, BitVec.getLsbD_and, getLsbD_mask (by omega)]
  rw [BitVec.getLsbD_ushiftRight, BitVec.getLsbD_extractLsb']
  simp [hi]

theorem toNat_field {x : Nat} (v : BitVec 32) (hw : w ≤ 32) (hx : x < 2 ^ w)
    (h : ∀ i < w, v.getLsbD (s + i) = x.testBit i)
    : ((v >>> s) &&& BitVec.ofNat 32 (2 ^ w - 1)).toNat = x := by
  apply Nat.eq_of_testBit_eq
  intro i
  rw [BitVec.testBit_toNat, BitVec.getLsbD_and, BitVec.getLsbD_ushiftRight]
  by_cases hi : i < w
  . rw [getLsbD_mask (by omega), h i hi]
    simp [hi]
  . have hbit : x.testBit i = false := by
      apply Nat.testBit_lt_two_pow
      apply Nat.lt_of_lt_of_le hx
      exact Nat.pow_le_pow_right (by decide) (by omega)
    have hmask : (BitVec.ofNat 32 (2 ^ w - 1)).getLsbD i = false := by
      rw [BitVec.getLsbD_ofNat, Nat.testBit_two_pow_sub_one]
      simp [hi]
    rw [hbit, hmask, Bool.and_false]

theorem write_field (old : BitVec 32) (value : BitVec w) (hi : i < 32) (hsw : s + w ≤ 32)
    : (old &&& ~~~ (BitVec.ofNat 32 (2 ^ w - 1) <<< s) ||| value.setWidth 32 <<< s).getLsbD i =
        if s ≤ i ∧ i < s + w then value.getLsbD (i - s) else old.getLsbD i := by
  simp only [BitVec.getLsbD_or, BitVec.getLsbD_and, BitVec.getLsbD_not, BitVec.getLsbD_shiftLeft,
    BitVec.getLsbD_setWidth, hi]
  by_cases hs : i < s
  . rw [if_neg (by omega)]
    simp [hs]
  . rw [getLsbD_mask (by omega)]
    by_cases hw : i - s < w
    . rw [if_pos (by omega)]
      simp [hs, hw]
      omega
    . have hzero : value.getLsbD (i - s) = false := BitVec.getLsbD_of_ge _ _ (by omega)
      rw [if_neg (by omega)]
      simp [hs, hw, hzero]

theorem read_byte (v : BitVec 32) (k : Nat) : ((v >>> (k * 8)) &&& 0xff).setWidth 8 = byte v k := by
  rw [Nat.mul_comm]
  exact read_field _ v (by decide)

theorem read_word (v : BitVec 32) (k : Nat)
    : ((v >>> (k * 8)) &&& 0xffff).setWidth 16 = byte v (k + 1) ++ byte v k := by
  rw [Nat.mul_comm]
  refine (read_field _ v (by decide)).trans ?_
  unfold byte
  ext i hi
  rw [← BitVec.getLsbD_eq_getElem, ← BitVec.getLsbD_eq_getElem, BitVec.getLsbD_append]
  simp only [BitVec.getLsbD_extractLsb']
  split
  . next hlow => simp [hi, hlow]
  . next hlow =>
    have hidx : 8 * (k + 1) + (i - 8) = 8 * k + i := by omega
    simp [hi, hidx, show i - 8 < 8 by omega]

theorem byte_write_byte (old : BitVec 32) (value : BitVec 8) (hk : k < 4) (hj : j < 4)
    : byte (old &&& ~~~ (0xff#32 <<< (8 * k)) ||| value.setWidth 32 <<< (8 * k)) j =
        if j = k then value else byte old j := by
  unfold byte
  ext i hi
  rw [BitVec.getElem_extractLsb']
  refine (write_field old value (by omega) (by omega)).trans ?_
  split_ifs with hfield heq heq
  . subst heq
    rw [← BitVec.getLsbD_eq_getElem]
    congr 1
    omega
  . omega
  . omega
  . simp

theorem byte_write_word (old : BitVec 32) (value : BitVec 16) (hk : k < 3) (hj : j < 4)
    : byte (old &&& ~~~ (0xffff#32 <<< (8 * k)) ||| value.setWidth 32 <<< (8 * k)) j =
        if j = k then value.extractLsb' 0 8 else
          if j = k + 1 then value.extractLsb' 8 8 else byte old j := by
  unfold byte
  ext i hi
  rw [BitVec.getElem_extractLsb']
  refine (write_field old value (by omega) (by omega)).trans ?_
  split_ifs with hfield heq heq' heq heq'
  . subst heq
    rw [BitVec.getElem_extractLsb']
    congr 1
    omega
  . subst heq'
    rw [BitVec.getElem_extractLsb']
    congr 1
    omega
  . omega
  . omega
  . omega
  . simp

end Bytes
end Nyy
