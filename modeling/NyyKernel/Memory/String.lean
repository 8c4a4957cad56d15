import NyyKernel.Lib.X86

/-!
This module contains the memory functions of `kernel/lib/string.c`, and those of
`kernel/platform/amd64/string.S` that replace two of them. A function returns its pointer and the memory.
-/

namespace Nyy
namespace Mem

open X86

section Portable

variable (m : Memory) (dest src : BitVec 64) (n : BitVec 64)

def memset (p : BitVec 64) (c : BitVec 32) (n : BitVec 64) : BitVec 64 × Memory :=
  (p, (List.range n.toNat).foldl (fun m i => Function.update m (p + BitVec.ofNat 64 i) (c.setWidth 8)) m)

-- the loop of `memcpy` and of `memmove`, from the first byte on
def copyUp (k : Nat) : Memory :=
  (List.range k).foldl
    (fun m i => Function.update m (dest + BitVec.ofNat 64 i) (m (src + BitVec.ofNat 64 i))) m

def copyDown (m : Memory) : Nat → Memory
  | 0 => m
  | i + 1 => copyDown
      (Function.update m (dest + BitVec.ofNat 64 i) (m (src + BitVec.ofNat 64 i))) i

def memcpy : BitVec 64 × Memory := (dest, copyUp m dest src n.toNat)

def memmove : BitVec 64 × Memory :=
  if src > dest then
    (dest, copyUp m dest src n.toNat)
  else if src < dest then
    (dest, copyDown dest src m n.toNat)
  else
    (dest, m)

end Portable

section Assembly

def memsetAsm : List Instr := [.cld, .movq .rdi .rax, .movb .rsi .rax, .movq .rdx .rcx, .repStosb]

def memcpyAsm : List Instr := [.cld, .movq .rdx .rcx, .repMovsb]

variable (s : State)

theorem run_memsetAsm
    : (s.run memsetAsm).mem = (memset s.mem (s.reg .rdi) ((s.reg .rsi).setWidth 32) (s.reg .rdx)).2 ∧
        (s.run memsetAsm).reg .rax = setLow (s.reg .rdi) (low (s.reg .rsi)) := by
  simp only [State.run, memsetAsm, List.foldl_cons, List.foldl_nil, State.step, State.rep]
  have hbyte : ((s.reg .rsi).setWidth 32).setWidth 8 = low (s.reg .rsi) := by simp [low]
  rw [State.iterate_stosb rfl, memset, hbyte]
  simp

theorem run_memcpyAsm
    : (s.run memcpyAsm).mem = (memcpy s.mem (s.reg .rdi) (s.reg .rsi) (s.reg .rdx)).2 ∧
        (s.run memcpyAsm).reg .rax = s.reg .rax := by
  simp only [State.run, memcpyAsm, List.foldl_cons, List.foldl_nil, State.step, State.rep]
  rw [State.iterate_movsb rfl]
  simp [memcpy, copyUp]

/--
The routines leave the memory of the portable functions. They return the destination only if its low
byte is the one to be written, and if `rax` holds it at the call.
-/
theorem string_asm_agrees
    : (s.run memsetAsm).mem =
        (memset s.mem (s.reg .rdi) ((s.reg .rsi).setWidth 32) (s.reg .rdx)).2 ∧
      (s.run memcpyAsm).mem = (memcpy s.mem (s.reg .rdi) (s.reg .rsi) (s.reg .rdx)).2 ∧
      (memset s.mem (s.reg .rdi) ((s.reg .rsi).setWidth 32) (s.reg .rdx)).1 = s.reg .rdi ∧
      (memcpy s.mem (s.reg .rdi) (s.reg .rsi) (s.reg .rdx)).1 = s.reg .rdi ∧
      ((s.run memsetAsm).reg .rax = s.reg .rdi ↔ low (s.reg .rdi) = low (s.reg .rsi)) ∧
      ((s.run memcpyAsm).reg .rax = s.reg .rdi ↔ s.reg .rax = s.reg .rdi) := by
  have hset := run_memsetAsm s
  have hcpy := run_memcpyAsm s
  refine ⟨hset.1, hcpy.1, rfl, rfl, ?_, ?_⟩
  . rw [hset.2]
    exact setLow_eq_self
  . rw [hcpy.2]

theorem string_asm_wrong_pointer
    : let s : State := ⟨fun | .rax => 0 | .rcx => 0 | .rdx => 4 | .rsi => 1 | .rdi => 0x1000, false,
        fun _ => 0⟩
      let s' : State := { s with reg := Function.update s.reg .rsi 0x2000 }
      (s.run memsetAsm).reg .rax = 0x1001 ∧ (memset s.mem 0x1000 1 4).1 = 0x1000 ∧
        (s'.run memcpyAsm).reg .rax = 0 ∧ (memcpy s'.mem 0x1000 0x2000 4).1 = 0x1000 := by
  decide

end Assembly

section Move

variable {m : Memory} {dest src a : BitVec 64} {k : Nat}

theorem copyUp_apply (hlt : dest < src) (hk : src.toNat + k ≤ 2 ^ 64) (a : BitVec 64)
    : copyUp m dest src k a = if (a - dest).toNat < k then m (src + (a - dest)) else m a := by
  induction k generalizing a with
  | zero => simp [copyUp]
  | succ k ih =>
    have hnext : copyUp m dest src (k + 1) = Function.update (copyUp m dest src k)
        (dest + BitVec.ofNat 64 k) (copyUp m dest src k (src + BitVec.ofNat 64 k)) := by
      unfold copyUp
      rw [List.range_succ, List.foldl_append]
      rfl
    -- the byte to be read is behind all that were written
    have hread : ¬ (src + BitVec.ofNat 64 k - dest).toNat < k := by bv_omega
    rw [hnext, Function.update_apply, ih (by omega), ih (by omega), if_neg hread]
    split
    . next ha =>
      have hoff : a - dest = BitVec.ofNat 64 k := by bv_omega
      rw [if_pos (by bv_omega), hoff]
    . next ha =>
      have hoff : (a - dest).toNat < k + 1 ↔ (a - dest).toNat < k := by bv_omega
      simp only [hoff]

theorem copyDown_apply (hlt : src < dest) (hk : dest.toNat + k ≤ 2 ^ 64) (m : Memory) (a : BitVec 64)
    : copyDown dest src m k a = if (a - dest).toNat < k then m (src + (a - dest)) else m a := by
  induction k generalizing m with
  | zero => simp [copyDown]
  | succ k ih =>
    unfold copyDown
    rw [ih (by omega)]
    split
    . next ha =>
      -- the bytes that are left to be read are before the one that was written
      rw [Function.update_of_ne (by bv_omega), if_pos (by omega)]
    . rw [Function.update_apply]
      split
      . next ha =>
        have hoff : a - dest = BitVec.ofNat 64 k := by bv_omega
        rw [if_pos (by bv_omega), hoff]
      . rw [if_neg (by bv_omega)]

theorem memmove_moves (m : Memory) (dest src n : BitVec 64) (hsrc : src.toNat + n.toNat ≤ 2 ^ 64)
    (hdest : dest.toNat + n.toNat ≤ 2 ^ 64)
    : (memmove m dest src n).1 = dest ∧
        (∀ i < n.toNat, (memmove m dest src n).2 (dest + BitVec.ofNat 64 i) =
          m (src + BitVec.ofNat 64 i)) ∧
        ∀ a : BitVec 64, ¬ (dest.toNat ≤ a.toNat ∧ a.toNat < dest.toNat + n.toNat) →
          (memmove m dest src n).2 a = m a := by
  have hmove : (memmove m dest src n).1 = dest ∧ ∀ a, (memmove m dest src n).2 a =
      if (a - dest).toNat < n.toNat then m (src + (a - dest)) else m a := by
    unfold memmove
    split
    . next hlt => exact ⟨rfl, copyUp_apply hlt hsrc⟩
    . split
      . next hlt => exact ⟨rfl, copyDown_apply hlt hdest m⟩
      . have heq : src = dest := by bv_omega
        refine ⟨rfl, fun a => ?_⟩
        rw [heq, show dest + (a - dest) = a by bv_omega, ite_self]
  refine ⟨hmove.1, ?_, ?_⟩
  . intro i hi
    have hoff : dest + BitVec.ofNat 64 i - dest = BitVec.ofNat 64 i := by bv_omega
    rw [hmove.2, hoff, if_pos (by bv_omega)]
  . intro a ha
    rw [hmove.2, if_neg (by bv_omega)]

theorem memmove_moves_overlap
    : let m : Memory := fun a => a.setWidth 8
      (memmove m 0x1002 0x1000 4).2 0x1002 = 0 ∧ (memmove m 0x1002 0x1000 4).2 0x1005 = 3 ∧
        (memmove m 0x1002 0x1000 4).2 0x1001 = 1 := by
  intro m
  rcases memmove_moves m 0x1002 0x1000 4 (by decide) (by decide) with ⟨_, hin, hout⟩
  exact ⟨hin 0 (by decide), hin 3 (by decide), hout 0x1001 (by decide)⟩

end Move
end Mem
end Nyy
