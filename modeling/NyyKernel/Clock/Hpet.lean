import Mathlib.Tactic
import Mathlib.Algebra.Order.Ring.Rat

/-!
This module contains the clock of `kernel/platform/amd64/hpet.c`.
-/

namespace Nyy
namespace Clock

def ns2femtos (x : BitVec 64) : BitVec 64 := x * 1000000

structure Hpet where
  -- femtoseconds from one tick to the next
  period : BitVec 32
  -- the register of the main counter
  counterMain : BitVec 64
  deriving DecidableEq, Repr

def hpetInit (generalCapability counterMain : BitVec 64) : Hpet where
  period := (generalCapability >>> 32).setWidth 32
  counterMain := counterMain

def hpetCounter (hpet : Hpet) : BitVec 64 := hpet.counterMain

def hpetCurrentNanos (hpet : Hpet) : BitVec 64 :=
  hpetCounter hpet * (hpet.period.setWidth 64 / ns2femtos 1)

namespace Hpet

variable {hpet : Hpet}

def elapsed (hpet : Hpet) : ℚ := hpet.counterMain.toNat * hpet.period.toNat / 10 ^ 6

def nanos (hpet : Hpet) : Nat := hpet.counterMain.toNat * hpet.period.toNat / 10 ^ 6

def rest (hpet : Hpet) : Nat := hpet.period.toNat % 10 ^ 6

theorem nanos_le (hpet : Hpet) : (hpet.nanos : ℚ) ≤ hpet.elapsed ∧ hpet.elapsed < hpet.nanos + 1 := by
  have hsplit := Nat.div_add_mod (hpet.counterMain.toNat * hpet.period.toNat) (10 ^ 6)
  have hlt := Nat.mod_lt (hpet.counterMain.toNat * hpet.period.toNat) (show 10 ^ 6 > 0 by decide)
  unfold nanos elapsed
  generalize hpet.counterMain.toNat * hpet.period.toNat / 10 ^ 6 = n at *
  generalize hrest : hpet.counterMain.toNat * hpet.period.toNat % 10 ^ 6 = r at *
  have hcast : (hpet.counterMain.toNat : ℚ) * hpet.period.toNat = 10 ^ 6 * n + r := by
    exact_mod_cast hsplit.symm
  have hr : (r : ℚ) < 10 ^ 6 := by exact_mod_cast hlt
  have hr' : (0 : ℚ) ≤ r := Nat.cast_nonneg r
  rw [hcast, le_div_iff₀ (by norm_num), div_lt_iff₀ (by norm_num)]
  constructor
  . linarith
  . linarith

theorem toNat_currentNanos (hfits : hpet.nanos < 2 ^ 64)
    : (hpetCurrentNanos hpet).toNat = hpet.counterMain.toNat * (hpet.period.toNat / 10 ^ 6) := by
  have hperiod : (hpet.period.setWidth 64 / ns2femtos 1).toNat = hpet.period.toNat / 10 ^ 6 := by
    rw [BitVec.toNat_udiv, BitVec.toNat_setWidth_of_le (by decide)]
    rfl
  have hle : hpet.counterMain.toNat * (hpet.period.toNat / 10 ^ 6) ≤ hpet.nanos :=
    Nat.mul_div_le_mul_div_assoc _ _ _
  unfold hpetCurrentNanos hpetCounter
  rw [BitVec.toNat_mul, hperiod, Nat.mod_eq_of_lt (by omega)]

theorem nanos_eq (hpet : Hpet)
    : hpet.nanos = hpet.counterMain.toNat * (hpet.period.toNat / 10 ^ 6) +
        hpet.counterMain.toNat * hpet.rest / 10 ^ 6 := by
  have hsplit := Nat.div_add_mod hpet.period.toNat (10 ^ 6)
  unfold nanos rest
  nth_rewrite 1 [← hsplit]
  rw [Nat.mul_add, Nat.mul_left_comm, Nat.mul_add_div (by decide)]

theorem currentNanos_exact_iff (hfits : hpet.nanos < 2 ^ 64)
    : (hpetCurrentNanos hpet).toNat = hpet.nanos ↔ hpet.counterMain.toNat * hpet.rest < 10 ^ 6 := by
  rw [toNat_currentNanos hfits, nanos_eq]
  constructor
  . intro h
    have hzero : hpet.counterMain.toNat * hpet.rest / 10 ^ 6 = 0 := by omega
    exact (Nat.div_eq_zero_iff_lt (by decide)).mp hzero
  . intro h
    rw [Nat.div_eq_of_lt h, Nat.add_zero]

end Hpet

structure Accurate (h₁ h₂ : Hpet) : Prop where
  first : (hpetCurrentNanos h₁).toNat = h₁.nanos
  second : (hpetCurrentNanos h₂).toNat = h₂.nanos
  between : |((hpetCurrentNanos h₂).toNat - (hpetCurrentNanos h₁).toNat : ℚ)
    - (h₂.elapsed - h₁.elapsed)| < 1

theorem Accurate.of_exact {h₁ h₂ : Hpet} (hfirst : (hpetCurrentNanos h₁).toNat = h₁.nanos)
    (hsecond : (hpetCurrentNanos h₂).toNat = h₂.nanos)
    : Accurate h₁ h₂ := by
  refine ⟨hfirst, hsecond, ?_⟩
  have := h₁.nanos_le
  have := h₂.nanos_le
  rw [hfirst, hsecond, abs_lt]
  constructor
  . linarith
  . linarith

theorem hpet_accurate_iff (generalCapability : BitVec 64) {c₁ c₂ : BitVec 64} (hle : c₁ ≤ c₂)
    (hfits : (hpetInit generalCapability c₂).nanos < 2 ^ 64)
    : Accurate (hpetInit generalCapability c₁) (hpetInit generalCapability c₂)
        ↔ c₂.toNat * ((hpetInit generalCapability c₂).period.toNat % 10 ^ 6) < 10 ^ 6 := by
  constructor
  . intro h
    exact (Hpet.currentNanos_exact_iff hfits).mp h.second
  . intro h
    have hle' : c₁.toNat ≤ c₂.toNat := hle
    have hfits' : (hpetInit generalCapability c₁).nanos < 2 ^ 64 :=
      Nat.lt_of_le_of_lt (Nat.div_le_div_right (Nat.mul_le_mul_right _ hle')) hfits
    apply Accurate.of_exact
    . apply (Hpet.currentNanos_exact_iff hfits').mpr
      exact Nat.lt_of_le_of_lt (Nat.mul_le_mul_right _ hle') h
    . exact (Hpet.currentNanos_exact_iff hfits).mpr h

theorem hpet_accurate_iff_whole
    : Accurate (hpetInit 0x05F5E10000000000 12345) (hpetInit 0x05F5E10000000000 987654321) :=
  (hpet_accurate_iff 0x05F5E10000000000 (by decide) (by decide)).mpr (by decide)

theorem hpet_loses_milliseconds
    : (hpetInit 0x0429B17F00000000 14318180).nanos = 1000000004
      ∧ hpetCurrentNanos (hpetInit 0x0429B17F00000000 14318180) = 987954420
      ∧ ¬ Accurate (hpetInit 0x0429B17F00000000 0) (hpetInit 0x0429B17F00000000 14318180) := by
  refine ⟨by decide, by decide, ?_⟩
  intro h
  exact absurd h.second (by decide)

end Clock
end Nyy
