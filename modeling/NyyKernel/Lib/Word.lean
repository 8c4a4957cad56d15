import Mathlib.Tactic
import Mathlib.Data.Nat.Bitwise

/-!
This module contains unsigned 64 bit arithmetic on `Nat`.
-/

namespace Nyy
namespace Word

variable {a b k : Nat}

def add (a b : Nat) : Nat := (a + b) % 2 ^ 64

def sub (a b : Nat) : Nat := (a + (2 ^ 64 - b % 2 ^ 64)) % 2 ^ 64

def mul (a b : Nat) : Nat := (a * b) % 2 ^ 64

def not (a : Nat) : Nat := 2 ^ 64 - 1 - a

def alignUp (a align : Nat) : Nat := sub (add a align) 1 &&& not (sub align 1)

def alignDown (a align : Nat) : Nat := a &&& not (sub align 1)

theorem add_eq (h : a + b < 2 ^ 64) : add a b = a + b := by
  unfold add
  exact Nat.mod_eq_of_lt h

theorem sub_eq (ha : a < 2 ^ 64) (h : b ≤ a) : sub a b = a - b := by
  unfold sub
  omega

theorem mul_eq (h : a * b < 2 ^ 64) : mul a b = a * b := by
  unfold mul
  exact Nat.mod_eq_of_lt h

theorem sub_lt (a b : Nat) : sub a b < 2 ^ 64 := by
  unfold sub
  omega

theorem sub_one_add (ha : a < 2 ^ 64) (hb : 0 < b) (h : a + b ≤ 2 ^ 64)
    : sub (add a b) 1 = a + (b - 1) := by
  unfold add sub
  omega

theorem and_not_low (ha : a < 2 ^ 64) (hk : k ≤ 64)
    : a &&& not (2 ^ k - 1) = 2 ^ k * (a / 2 ^ k) := by
  have hmask : not (2 ^ k - 1) = 2 ^ k * (2 ^ (64 - k) - 1) := by
    have h1 : 2 ^ k * 2 ^ (64 - k) = 2 ^ 64 := by
      rw [← Nat.pow_add]
      congr 1
      omega
    have h2 : 0 < 2 ^ k := Nat.two_pow_pos k
    unfold not
    rw [Nat.mul_sub, h1]
    omega
  apply Nat.eq_of_testBit_eq
  intro i
  rw [hmask, Nat.testBit_and, Nat.testBit_two_pow_mul, Nat.testBit_two_pow_mul,
    Nat.testBit_two_pow_sub_one, Nat.testBit_div_two_pow]
  by_cases hi : k ≤ i
  . have hik : i - k + k = i := by omega
    rw [hik]
    by_cases hi2 : i < 64
    . have : i - k < 64 - k := by omega
      simp [hi, this]
    . have hbit : a.testBit i = false := by
        apply Nat.testBit_lt_two_pow
        apply Nat.lt_of_lt_of_le ha
        apply Nat.pow_le_pow_right
        . omega
        . omega
      simp [hbit]
  . simp [hi]

theorem alignDown_two_pow (ha : a < 2 ^ 64) (hk : k < 64)
    : alignDown a (2 ^ k) = 2 ^ k * (a / 2 ^ k) := by
  have h1 : 2 ^ k < 2 ^ 64 := Nat.pow_lt_pow_right (by omega) hk
  have h2 : 0 < 2 ^ k := Nat.two_pow_pos k
  unfold alignDown
  rw [sub_eq h1 (by omega)]
  apply and_not_low ha
  omega

theorem alignUp_two_pow (ha : a + 2 ^ k ≤ 2 ^ 64) (hk : k < 64)
    : alignUp a (2 ^ k) = 2 ^ k * ((a + (2 ^ k - 1)) / 2 ^ k) := by
  have h1 : 2 ^ k < 2 ^ 64 := Nat.pow_lt_pow_right (by omega) hk
  have h2 : 0 < 2 ^ k := Nat.two_pow_pos k
  unfold alignUp
  rw [sub_eq h1 (by omega), sub_one_add (by omega) h2 ha]
  apply and_not_low
  . omega
  . omega

theorem alignUp_of_dvd (ha : a + 2 ^ k ≤ 2 ^ 64) (hk : k < 64) (h : 2 ^ k ∣ a)
    : alignUp a (2 ^ k) = a := by
  have h2 : 0 < 2 ^ k := Nat.two_pow_pos k
  rw [alignUp_two_pow ha hk]
  rcases h with ⟨m, rfl⟩
  congr 1
  rw [Nat.mul_add_div h2]
  rw [Nat.div_eq_of_lt (by omega)]
  omega

theorem alignUp_wraps (ha : a < 2 ^ 64) (hk : k < 64) (hwrap : 2 ^ 64 < a + 2 ^ k)
    : alignUp a (2 ^ k) = 0 := by
  have h1 : 2 ^ k < 2 ^ 64 := Nat.pow_lt_pow_right (by omega) hk
  have h2 : 0 < 2 ^ k := Nat.two_pow_pos k
  unfold alignUp
  have hsum : sub (add a (2 ^ k)) 1 = a + 2 ^ k - 1 - 2 ^ 64 := by
    unfold add sub
    omega
  rw [hsum, sub_eq h1 (by omega), and_not_low (by omega) (by omega), Nat.div_eq_of_lt (by omega),
    Nat.mul_zero]

theorem alignUp_bounds (ha : a < 2 ^ 64) (ha0 : 0 < a) (hk : k < 64) (h : alignUp a (2 ^ k) ≠ 0)
    : 2 ^ k ≤ alignUp a (2 ^ k) ∧ a ≤ alignUp a (2 ^ k) := by
  have h2 : 0 < 2 ^ k := Nat.two_pow_pos k
  by_cases hwrap : a + 2 ^ k ≤ 2 ^ 64
  . rw [alignUp_two_pow hwrap hk]
    have hdiv := Nat.div_add_mod (a + (2 ^ k - 1)) (2 ^ k)
    have hmod := Nat.mod_lt (a + (2 ^ k - 1)) h2
    have hle : a ≤ 2 ^ k * ((a + (2 ^ k - 1)) / 2 ^ k) := by omega
    refine ⟨?_, hle⟩
    apply Nat.le_mul_of_pos_right
    apply Nat.div_pos
    . omega
    . exact h2
  . exact absurd (alignUp_wraps ha hk (by omega)) h

theorem le_and_not_add {m : Nat} (ha : a < 2 ^ 64) (hm : m < 2 ^ 64) : a ≤ (a &&& not m) + m := by
  have hsplit : (BitVec.ofNat 64 a &&& ~~~ BitVec.ofNat 64 m) + (BitVec.ofNat 64 a &&& BitVec.ofNat 64 m) =
      BitVec.ofNat 64 a := by
    rw [BitVec.add_eq_or_of_and_eq_zero]
    . ext i
      simp only [BitVec.getElem_or, BitVec.getElem_and, BitVec.getElem_not]
      cases (BitVec.ofNat 64 a)[i] <;> cases (BitVec.ofNat 64 m)[i] <;> rfl
    . ext i
      simp only [BitVec.getElem_and, BitVec.getElem_not, BitVec.getElem_zero]
      cases (BitVec.ofNat 64 a)[i] <;> cases (BitVec.ofNat 64 m)[i] <;> rfl
  have hnat := congrArg BitVec.toNat hsplit
  rw [BitVec.toNat_add, BitVec.toNat_and, BitVec.toNat_and, BitVec.toNat_not, BitVec.toNat_ofNat,
    BitVec.toNat_ofNat, Nat.mod_eq_of_lt ha, Nat.mod_eq_of_lt hm] at hnat
  have hle : a &&& m ≤ m := Nat.and_le_right
  have hmod := Nat.mod_le ((a &&& (2 ^ 64 - 1 - m)) + (a &&& m)) (2 ^ 64)
  unfold not
  omega

theorem le_alignUp {align : Nat} (hpos : 0 < align) (h : a + align ≤ 2 ^ 64)
    : a ≤ alignUp a align := by
  have hmask : sub align 1 = align - 1 := by
    unfold sub
    omega
  have hle := le_and_not_add (show a + (align - 1) < 2 ^ 64 by omega) (show align - 1 < 2 ^ 64 by omega)
  unfold alignUp
  rw [sub_one_add (by omega) hpos h, hmask]
  omega

theorem add_two_pow_le (hk : k < 64) (ha : a < 2 ^ 64) (h : 2 ^ k ∣ a) : a + 2 ^ k ≤ 2 ^ 64 := by
  have h64 : 2 ^ k ∣ 2 ^ 64 := Nat.pow_dvd_pow 2 (by omega)
  have hdvd : 2 ^ k ∣ 2 ^ 64 - a := Nat.dvd_sub h64 h
  have hle := Nat.le_of_dvd (by omega) hdvd
  omega

theorem exists_two_pow {v : Nat} (hv : v ≠ 0) (h : v &&& (v - 1) = 0) : ∃ k, v = 2 ^ k := by
  refine ⟨v.log2, ?_⟩
  have hle := Nat.log2_self_le hv
  have hlt := Nat.lt_log2_self (n := v)
  by_contra hne
  -- both numbers have the highest bit of `v`
  have hbit : ∀ w, 2 ^ v.log2 ≤ w → w < 2 ^ (v.log2 + 1) → w.testBit v.log2 = true := by
    intro w h1 h2
    rw [Nat.testBit_eq_decide_div_mod_eq]
    have : w / 2 ^ v.log2 = 1 := by
      rw [Nat.div_eq_iff (Nat.two_pow_pos _)]
      rw [Nat.pow_succ] at h2
      omega
    rw [this]
    rfl
  have := Nat.testBit_and v (v - 1) v.log2
  rw [h, hbit v hle hlt, hbit (v - 1) (by omega) (by omega)] at this
  simp at this

end Word
end Nyy
