import Mathlib.Tactic
import Mathlib.Algebra.Order.Ring.Rat
import NyyKernel.Lib.Fault

/-!
This module contains the timer of the local APIC, `kernel/platform/amd64/apic.c`.
-/

namespace Nyy
namespace Clock

structure Lapic where
  ticksPerMs : BitVec 64
  timerInitial : BitVec 32
  nextDeadline : BitVec 64
  timerUpdate : Bool
  deriving DecidableEq, Repr

def apicRegTimerInitial : BitVec 16 := 0x380

-- The only register that is written after the start is the one for the initial count.
def apicWrite (cfg : Config) (p : Lapic) (offset : BitVec 16) (value : BitVec 32)
    : Except Fault Lapic := do
  check cfg (offset &&& 15 == 0)
  if offset = apicRegTimerInitial then
    .ok { p with timerInitial := value }
  else
    .ok p

def apicArm (cfg : Config) (p : Lapic) (now deadline : BitVec 64) : Except Fault Lapic :=
  if deadline = 0 then
    apicWrite cfg p apicRegTimerInitial 0
  else if deadline < now then
    apicWrite cfg p apicRegTimerInitial 1
  else do
    let of := BitVec.umulOverflow (deadline - now) p.ticksPerMs
    let ticks := (deadline - now) * p.ticksPerMs
    check cfg !of
    let ticks := ticks / 1000000
    let ticks := if ticks = 0 then 1 else ticks
    apicWrite cfg p apicRegTimerInitial (ticks.setWidth 32)

def armNext (cfg : Config) (p : Lapic) (now next : BitVec 64) : Except Fault Lapic :=
  apicArm cfg { p with nextDeadline := next } now next

def timerHandler (p : Lapic) (now : BitVec 64) : Lapic :=
  if now ≥ p.nextDeadline then { p with timerUpdate := true } else p

def Lapic.Fires (p : Lapic) (t : ℚ) : Prop :=
  t * p.ticksPerMs.toNat = p.timerInitial.toNat * 10 ^ 6

def Lapic.OnTime (p : Lapic) (now deadline : BitVec 64) : Prop :=
  ∃ p', armNext ⟨false⟩ p now deadline = .ok p' ∧ p'.timerInitial ≠ 0
    ∧ ∃ t, p'.Fires t ∧ ∀ shown : BitVec 64, now.toNat + t < (shown.toNat : ℚ) + 1
      → p'.nextDeadline ≤ shown ∧ timerHandler p' shown = { p' with timerUpdate := true }

section

variable {p : Lapic} {now deadline : BitVec 64}

def Lapic.distance (p : Lapic) (now deadline : BitVec 64) : Nat :=
  (deadline.toNat - now.toNat) * p.ticksPerMs.toNat

def initialCount (distance : Nat) : Nat :=
  (if distance / 10 ^ 6 = 0 then 1 else distance / 10 ^ 6) % 2 ^ 32

theorem armNext_eq (hlt : now < deadline)
    : armNext ⟨false⟩ p now deadline =
        if p.distance now deadline < 2 ^ 64 then
          .ok { p with
            nextDeadline := deadline
            timerInitial := BitVec.ofNat 32 (initialCount (p.distance now deadline)) }
        else
          .error .assertion := by
  have hlt' : now.toNat < deadline.toNat := hlt
  have hsub : (deadline - now).toNat = deadline.toNat - now.toNat :=
    BitVec.toNat_sub_of_le (BitVec.le_of_lt hlt)
  have hne : deadline ≠ 0 := by
    rintro rfl
    exact absurd hlt' (Nat.not_lt_zero _)
  have hnot : ¬ deadline < now := BitVec.not_lt.mpr (BitVec.le_of_lt hlt)
  have hof : BitVec.umulOverflow (deadline - now) p.ticksPerMs
      = decide (2 ^ 64 ≤ p.distance now deadline) := by
    unfold BitVec.umulOverflow Lapic.distance
    rw [hsub]
  unfold armNext apicArm
  rw [if_neg hne, if_neg hnot, hof]
  split
  . next hfits =>
    have hticks : ((deadline - now) * p.ticksPerMs / 1000000).toNat
        = p.distance now deadline / 10 ^ 6 := by
      rw [BitVec.toNat_udiv, BitVec.toNat_mul, hsub]
      change p.distance now deadline % 2 ^ 64 / 10 ^ 6 = _
      rw [Nat.mod_eq_of_lt hfits]
    have hcount : (if (deadline - now) * p.ticksPerMs / 1000000 = 0 then 1
        else (deadline - now) * p.ticksPerMs / 1000000).setWidth 32
        = BitVec.ofNat 32 (initialCount (p.distance now deadline)) := by
      apply BitVec.eq_of_toNat_eq
      rw [BitVec.toNat_setWidth, BitVec.toNat_ofNat, initialCount, Nat.mod_mod, ← hticks]
      congr 1
      split
      . next hzero =>
        rw [hzero]
        rfl
      . next hzero =>
        have hne : ((deadline - now) * p.ticksPerMs / 1000000).toNat ≠ 0 :=
          fun h => hzero (BitVec.eq_of_toNat_eq h)
        rw [if_neg hne]
    dsimp only
    rw [hcount, decide_eq_false (by omega), Bool.not_false, check_true, Except.ok_bind]
    rfl
  . next hfits =>
    rw [decide_eq_true (by omega)]
    rfl

theorem timerHandler_of_le {shown : BitVec 64} (h : p.nextDeadline ≤ shown)
    : timerHandler p shown = { p with timerUpdate := true } :=
  if_pos h

def CountsUp (distance : Nat) : Prop :=
  distance < 10 ^ 6 ∨ 10 ^ 6 ∣ distance ∧ distance < 2 ^ 32 * 10 ^ 6

theorem le_initialCount_iff {distance : Nat} (hfits : distance < 2 ^ 64)
    : initialCount distance ≠ 0 ∧ distance ≤ initialCount distance * 10 ^ 6 ↔ CountsUp distance := by
  unfold initialCount CountsUp
  constructor
  . rintro ⟨hne, hle⟩
    split at hne
    . left
      omega
    . right
      rw [if_neg (by assumption)] at hle
      omega
  . rintro (hlt | ⟨hdvd, hlt⟩)
    . rw [if_pos (Nat.div_eq_of_lt hlt)]
      omega
    . split
      . omega
      . omega

theorem fires_late_iff (hlt : now < deadline) {count : Nat} (hcount : count ≠ 0)
    : (∃ t : ℚ, t * p.ticksPerMs.toNat = count * 10 ^ 6
        ∧ ∀ shown : BitVec 64, now.toNat + t < (shown.toNat : ℚ) + 1 → deadline ≤ shown)
      ↔ 0 < p.ticksPerMs.toNat ∧ p.distance now deadline ≤ count * 10 ^ 6 := by
  have hlt' : now.toNat < deadline.toNat := hlt
  obtain ⟨d, hd⟩ := Nat.exists_eq_add_of_lt hlt'
  have hdist : p.distance now deadline = (d + 1) * p.ticksPerMs.toNat := by
    unfold Lapic.distance
    congr 1
    omega
  rw [hdist]
  have hpos : (0 : ℚ) < count * 10 ^ 6 := by
    have : (0 : ℚ) < count := Nat.cast_pos.mpr (Nat.pos_of_ne_zero hcount)
    linarith
  constructor
  . rintro ⟨t, ht, hshown⟩
    have hrun : 0 < p.ticksPerMs.toNat := by
      rw [Nat.pos_iff_ne_zero]
      intro hzero
      rw [hzero, Nat.cast_zero, mul_zero] at ht
      linarith
    refine ⟨hrun, ?_⟩
    by_contra hless
    -- one nanosecond before the deadline the interrupt is there already
    have hearly : t < (d : ℚ) + 1 := by
      have hless' : (count : ℚ) * 10 ^ 6 < (d + 1) * p.ticksPerMs.toNat := by
        exact_mod_cast not_le.mp hless
      rw [← ht] at hless'
      exact lt_of_mul_lt_mul_right hless' (Nat.cast_nonneg _)
    have hback : (deadline - 1).toNat = deadline.toNat - 1 := by
      rw [BitVec.toNat_sub_of_le (by rw [BitVec.le_def]; change 1 ≤ deadline.toNat; omega)]
      rfl
    have hle : deadline.toNat ≤ (deadline - 1).toNat := by
      apply hshown
      have hcast : (((deadline - 1).toNat : Nat) : ℚ) = now.toNat + d := by
        rw [hback, hd]
        push_cast [show now.toNat + d + 1 - 1 = now.toNat + d from rfl]
        ring
      rw [hcast]
      linarith
    omega
  . rintro ⟨hrun, hle⟩
    have hrun' : (0 : ℚ) < p.ticksPerMs.toNat := Nat.cast_pos.mpr hrun
    refine ⟨count * 10 ^ 6 / p.ticksPerMs.toNat, div_mul_cancel₀ _ (ne_of_gt hrun'), ?_⟩
    intro shown hshown
    have hle' : ((d : ℚ) + 1) * p.ticksPerMs.toNat ≤ count * 10 ^ 6 := by exact_mod_cast hle
    rw [← le_div_iff₀ hrun'] at hle'
    have hnat : now.toNat + (d + 1) < shown.toNat + 1 := by
      have : (now.toNat : ℚ) + (d + 1) < shown.toNat + 1 := by linarith
      exact_mod_cast this
    rw [BitVec.le_def]
    omega

/--
The timer comes on time exactly if it runs and the ticks up to the deadline are less than one, or a
whole number that fits.
-/
theorem oneshot_on_time_iff (hlt : now < deadline)
    : p.OnTime now deadline ↔ 0 < p.ticksPerMs.toNat ∧ CountsUp (p.distance now deadline) := by
  unfold Lapic.OnTime
  rw [armNext_eq hlt]
  by_cases hfits : p.distance now deadline < 2 ^ 64
  . have hcount : (BitVec.ofNat 32 (initialCount (p.distance now deadline))).toNat
        = initialCount (p.distance now deadline) := by
      rw [BitVec.toNat_ofNat, initialCount, Nat.mod_mod]
    have hzero : BitVec.ofNat 32 (initialCount (p.distance now deadline)) ≠ 0
        ↔ initialCount (p.distance now deadline) ≠ 0 := by
      rw [Ne, ← BitVec.toNat_inj, hcount]
      rfl
    rw [if_pos hfits, ← le_initialCount_iff hfits]
    constructor
    . rintro ⟨p', hp', hne, t, hfires, hshown⟩
      cases hp'
      have hne := hzero.mp hne
      unfold Lapic.Fires at hfires
      rw [hcount] at hfires
      have hlate := (fires_late_iff hlt hne).mp ⟨t, hfires, fun shown h => (hshown shown h).1⟩
      exact ⟨hlate.1, hne, hlate.2⟩
    . rintro ⟨hrun, hne, hle⟩
      obtain ⟨t, hfires, hshown⟩ := (fires_late_iff hlt hne).mpr ⟨hrun, hle⟩
      refine ⟨_, rfl, hzero.mpr hne, t, ?_, ?_⟩
      . unfold Lapic.Fires
        rw [hcount]
        exact hfires
      . intro shown h
        exact ⟨hshown shown h, timerHandler_of_le (hshown shown h)⟩
  . rw [if_neg hfits]
    constructor
    . rintro ⟨p', hp', _⟩
      cases hp'
    . rintro ⟨_, hcounts⟩
      unfold CountsUp at hcounts
      omega

end

def sampleLapic : Lapic := ⟨62500, 0, 0, false⟩

theorem oneshot_on_time_iff_sample : sampleLapic.OnTime 1000000 1016000 :=
  (oneshot_on_time_iff (by decide)).mpr ⟨by decide, .inr ⟨by decide, by decide⟩⟩

theorem oneshot_early_lost_or_asserted
    : ¬ sampleLapic.OnTime 1000000 1016001
      ∧ (∃ p', armNext ⟨false⟩ sampleLapic 1000000 1016001 = .ok p' ∧ p'.Fires 16000
        ∧ timerHandler p' 1016000 = p')
      ∧ (∃ p', armNext ⟨false⟩ sampleLapic 0 68719476736 = .ok p' ∧ p'.timerInitial = 0)
      ∧ armNext ⟨false⟩ sampleLapic 0 0x10000000000000 = .error .assertion := by
  have harm : armNext ⟨false⟩ sampleLapic 1000000 1016001 = .ok ⟨62500, 1000, 1016001, false⟩ := by
    decide
  refine ⟨?_, ⟨_, harm, ?_, by decide⟩, ⟨⟨62500, 0, 68719476736, false⟩, by decide, rfl⟩, by decide⟩
  . rintro ⟨p', hp', _, t, hfires, hshown⟩
    rw [harm] at hp'
    cases hp'
    have ht : t * 62500 = 1000 * 10 ^ 6 := hfires
    have hlate : (1016001 : BitVec 64) ≤ 1016000 := by
      apply (hshown 1016000 _).1
      change (1000000 : ℚ) + t < 1016000 + 1
      linarith
    exact absurd hlate (by decide)
  . change (16000 : ℚ) * 62500 = 1000 * 10 ^ 6
    norm_num

end Clock
end Nyy
