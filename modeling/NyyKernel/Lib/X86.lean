import Mathlib.Tactic

/-!
This module contains the part of x86-64 that fills and copies memory.
-/

namespace Nyy
namespace X86

abbrev Memory := BitVec 64 → BitVec 8

inductive Reg where
  | rax | rcx | rdx | rsi | rdi
  deriving DecidableEq, Repr

structure State where
  reg : Reg → BitVec 64
  df : Bool
  mem : Memory

inductive Instr where
  | cld
  | movq (src dst : Reg)
  -- between the low bytes, the rest of `dst` stays
  | movb (src dst : Reg)
  | repStosb
  | repMovsb
  deriving DecidableEq, Repr

def low (v : BitVec 64) : BitVec 8 := v.setWidth 8

def setLow (v : BitVec 64) (b : BitVec 8) : BitVec 64 := v.extractLsb' 8 56 ++ b

namespace State

def stride (s : State) : BitVec 64 := if s.df then -1 else 1

def stosb (s : State) : State :=
  { s with
    reg := Function.update s.reg .rdi (s.reg .rdi + s.stride)
    mem := Function.update s.mem (s.reg .rdi) (low (s.reg .rax)) }

def movsb (s : State) : State :=
  { s with
    reg := Function.update (Function.update s.reg .rdi (s.reg .rdi + s.stride)) .rsi
      (s.reg .rsi + s.stride)
    mem := Function.update s.mem (s.reg .rdi) (s.mem (s.reg .rsi)) }

def countDown (s : State) : State := { s with reg := Function.update s.reg .rcx (s.reg .rcx - 1) }

def rep (op : State → State) (s : State) : State :=
  (fun s => (op s).countDown)^[(s.reg .rcx).toNat] s

def step (s : State) : Instr → State
  | .cld => { s with df := false }
  | .movq src dst => { s with reg := Function.update s.reg dst (s.reg src) }
  | .movb src dst =>
    { s with reg := Function.update s.reg dst (setLow (s.reg dst) (low (s.reg src))) }
  | .repStosb => s.rep stosb
  | .repMovsb => s.rep movsb

def run (s : State) (program : List Instr) : State := program.foldl step s

end State

@[simp]
theorem low_setLow (v : BitVec 64) (b : BitVec 8) : low (setLow v b) = b := by
  unfold setLow low
  rw [BitVec.setWidth_append]
  simp

theorem setLow_low (v : BitVec 64) : setLow v (low v) = v := by
  unfold setLow low
  ext i hi
  rw [← BitVec.getLsbD_eq_getElem, ← BitVec.getLsbD_eq_getElem, BitVec.getLsbD_append]
  by_cases hlow : i < 8
  . simp [hlow]
  . simp [hlow, show i - 8 < 56 by omega, show 8 + (i - 8) = i by omega]

theorem setLow_eq_self {v : BitVec 64} {b : BitVec 8} : setLow v b = v ↔ low v = b := by
  constructor
  . intro h
    rw [← h, low_setLow]
  . rintro rfl
    exact setLow_low v

namespace State

variable {s : State}

theorem iterate_stosb (hdf : s.df = false) (k : Nat)
    : (fun s => (stosb s).countDown)^[k] s =
        { s with
          reg := Function.update (Function.update s.reg .rdi (s.reg .rdi + BitVec.ofNat 64 k)) .rcx
            (s.reg .rcx - BitVec.ofNat 64 k)
          mem := (List.range k).foldl
            (fun m i => Function.update m (s.reg .rdi + BitVec.ofNat 64 i) (low (s.reg .rax))) s.mem } := by
  induction k with
  | zero => simp
  | succ k ih =>
    rw [Function.iterate_succ_apply', ih, List.range_succ, List.foldl_append]
    unfold stosb countDown stride
    simp only [State.mk.injEq, hdf, true_and]
    constructor
    . funext r
      cases r <;> simp [BitVec.ofNat_add, BitVec.add_assoc, BitVec.sub_sub]
    . simp

theorem iterate_movsb (hdf : s.df = false) (k : Nat)
    : (fun s => (movsb s).countDown)^[k] s =
        { s with
          reg := Function.update (Function.update (Function.update s.reg .rdi
            (s.reg .rdi + BitVec.ofNat 64 k)) .rsi (s.reg .rsi + BitVec.ofNat 64 k)) .rcx
            (s.reg .rcx - BitVec.ofNat 64 k)
          mem := (List.range k).foldl
            (fun m i => Function.update m (s.reg .rdi + BitVec.ofNat 64 i)
              (m (s.reg .rsi + BitVec.ofNat 64 i))) s.mem } := by
  induction k with
  | zero => simp
  | succ k ih =>
    rw [Function.iterate_succ_apply', ih, List.range_succ, List.foldl_append]
    unfold movsb countDown stride
    simp only [State.mk.injEq, hdf, true_and]
    constructor
    . funext r
      cases r <;> simp [BitVec.ofNat_add, BitVec.add_assoc, BitVec.sub_sub]
    . simp

end State
end X86
end Nyy
