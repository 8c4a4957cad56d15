import NyyKernel.Irq.Register

/-!
This module contains the delivery of interrupts to the objects on their vectors.
-/

namespace Nyy

-- `handle_irq` in the loop of `irq_do_dispatch`, at the object with this index
structure IrqCall where
  number : Nat
  irql : Nat
  index : Nat
  ackCount : Nat

structure IrqCpu (ω : Type) where
  sys : IrqSys ω
  irql : Nat
  calls : List IrqCall
  unhandled : List Nat

-- an object without a handler does not acknowledge anything
inductive IrqOp (ω : Type) where
  | request (r : IrqRequest ω)
  | level (irql : Nat)
  | interrupt (number : Nat)
  | round (ack : Bool)
  | leave

namespace IrqCpu

variable {ω : Type} {cfg : Config} {s s' : IrqCpu ω} {c : IrqCall} {calls : List IrqCall}

def objq (s : IrqCpu ω) (number : Nat) : List ω := (s.sys.table.vectors (number - 32)).objq

def handleIrq (cfg : Config) (s : IrqCpu ω) (number : Nat) : Except Fault (IrqCpu ω) := do
  check cfg (s.irql ≤ number >>> 4)
  check cfg (s.sys.table.irqHandlers (number - 32))
  if s.sys.table.irqHandlers (number - 32) then
    if (s.sys.table.vectors (number - 32)).objectcnt = 0 then
      return { s with unhandled := s.unhandled ++ [number - 32] }
    else
      return { s with irql := number >>> 4, calls := ⟨number, s.irql, 0, 0⟩ :: s.calls }
  else
    .error .undefined

def leave (cfg : Config) (s : IrqCpu ω) (c : IrqCall) (calls : List IrqCall) : Except Fault (IrqCpu ω) := do
  check cfg (c.irql ≤ s.irql)
  let unhandled := if c.ackCount = 0 then s.unhandled ++ [c.number - 32] else s.unhandled
  return { s with irql := c.irql, calls := calls, unhandled := unhandled }

-- an object that is added while the loop is under way comes at its end
def Step [DecidableEq ω] (cfg : Config) (s : IrqCpu ω) : IrqOp ω → IrqCpu ω → Prop
  | .request r, s' => ∃ sys, s.sys.Step cfg r sys ∧ s' = { s with sys := sys }
  | .level irql, s' => s.calls = [] ∧ s' = { s with irql := irql }
  | .interrupt number, s' => 32 ≤ number ∧ s.irql < number >>> 4 ∧ handleIrq cfg s number = .ok s'
  | .round ack, s' => ∃ c calls, s.calls = c :: calls ∧ c.index < (s.objq c.number).length ∧
      s' = { s with calls := { c with index := c.index + 1, ackCount := c.ackCount + ack.toNat } :: calls }
  | .leave, s' => ∃ c calls, s.calls = c :: calls ∧ (s.objq c.number).length ≤ c.index ∧
      s.leave cfg c calls = .ok s'

def Start (s : IrqCpu ω) : Prop := s.sys.Boot ∧ s.calls = []

def Nested : Nat → List IrqCall → Prop
  | _, [] => True
  | irql, c :: calls => irql = c.number >>> 4 ∧ c.irql < irql ∧ Nested c.irql calls

structure Inv (s : IrqCpu ω) : Prop where
  ported : s.sys.Ported
  asked : ∀ obj irql flags, s.sys.registered obj = some (irql, flags) → 2 ≤ irql
  nested : Nested s.irql s.calls
  calls : ∀ c ∈ s.calls, 32 ≤ c.number ∧ c.index ≤ (s.objq c.number).length

theorem Nested.le {irql : Nat} (h : Nested irql calls) : ∀ c ∈ calls, c.number >>> 4 ≤ irql := by
  induction calls generalizing irql with
  | nil => simp
  | cons c calls ih =>
    rcases h with ⟨rfl, hlt, h⟩
    exact List.forall_mem_cons.mpr ⟨Nat.le_refl _, fun c hc => Nat.le_trans (ih h c hc) hlt.le⟩

theorem handleIrq_eq {number : Nat} (h : Inv s) (hcfg : cfg.disableAsserts = false)
    (hlt : s.irql < number >>> 4)
    : handleIrq cfg s number =
        if s.objq number = [] then
          .error .assertion
        else
          .ok { s with irql := number >>> 4, calls := ⟨number, s.irql, 0, 0⟩ :: s.calls } := by
  have hhandlers := h.ported.handlers (number - 32)
  have hraise : check cfg (s.irql ≤ number >>> 4) = .ok () := check_of cfg (by simpa using hlt.le)
  have hcount : (s.sys.table.vectors (number - 32)).objectcnt = 0 ↔ s.objq number = [] := by
    rw [h.ported.inv.count, List.length_eq_zero_iff]
    rfl
  unfold handleIrq
  rw [hraise, Except.ok_bind]
  by_cases hnil : s.objq number = []
  . have hnone : s.sys.table.irqHandlers (number - 32) = false := by
      simpa [hcount.mpr hnil] using hhandlers
    simp [hnone, check, hcfg, hnil]
  . rw [hhandlers.mpr (hcount.not.mpr hnil), check_true, if_neg hnil, if_neg (hcount.not.mpr hnil)]
    rfl

theorem Inv.level (h : Inv s) (hc : c ∈ s.calls) {obj : ω} (hobj : obj ∈ s.objq c.number)
    : ∃ flags, s.sys.registered obj = some (c.number >>> 4, flags) := by
  have hvec := (h.ported.inv.vector obj _).mpr hobj
  cases hreg : s.sys.registered obj with
  | none =>
    rw [(h.ported.inv.registered obj).mp hreg] at hvec
    cases hvec
  | some r =>
    have hasked := h.asked obj _ _ hreg
    have hlevel := h.ported.inv.level obj _ _ _ hvec hreg
    have hnumber := (h.calls c hc).1
    rw [IrqSys.mem_levelVectors, IrqTable.irqlToVector, Nat.shiftLeft_eq] at hlevel
    have heq : c.number >>> 4 = r.1 := by
      rw [Nat.shiftRight_eq_div_pow]
      omega
    exact ⟨r.2, by rw [heq]⟩

theorem Inv.start (h : Start s) : Inv s := by
  refine ⟨.boot h.1, ?_, ?_, ?_⟩
  . intro obj irql flags hreg
    rw [h.1.1.2.2 obj] at hreg
    cases hreg
  . rw [h.2]
    trivial
  . rw [h.2]
    simp

variable [DecidableEq ω]

theorem Inv.request {r : IrqRequest ω} {sys : IrqSys ω} (h : Inv s) (hstep : s.sys.Step cfg r sys)
    : Inv { s with sys := sys } := by
  have hported := h.ported.step hstep
  rcases hstep with ⟨hallowed, ret, table, hcall, rfl⟩
  refine ⟨hported, ?_, h.nested, ?_⟩
  . intro obj irql flags hreg
    unfold IrqSys.record at hreg
    dsimp only at hreg
    split at hreg
    . by_cases hobj : obj = r.obj
      . rw [hobj, Function.update_self] at hreg
        cases hreg
        exact hallowed.2.1
      . rw [Function.update_of_ne hobj] at hreg
        exact h.asked obj irql flags hreg
    . exact h.asked obj irql flags hreg
  . intro c hc
    have hc := h.calls c hc
    refine ⟨hc.1, Nat.le_trans hc.2 ?_⟩
    unfold objq IrqSys.record
    rcases IrqSys.irqInitializeObjIrql_cases cfg h.ported.inv hallowed with ⟨vec, _, _, _, heq⟩ | ⟨_, heq⟩
    . have htable := congrArg Prod.snd (Except.ok.inj (heq.symm.trans hcall))
      dsimp only at htable ⊢
      rw [← htable, IrqSys.irqRegisterHandler_vectors]
      rcases eq_or_ne (c.number - 32) vec with hv | hv
      . simp [hv, IrqSys.joined]
      . rw [Function.update_of_ne hv]
    . cases heq.symm.trans hcall
      exact Nat.le_refl _

theorem Inv.step {op : IrqOp ω} (hcfg : cfg.disableAsserts = false) (h : Inv s) (hstep : Step cfg s op s')
    : Inv s' := by
  have hnested := h.nested
  have hcalls := h.calls
  cases op with
  | request r =>
    rcases hstep with ⟨sys, hstep, rfl⟩
    exact h.request hstep
  | level irql =>
    rcases hstep with ⟨hnil, rfl⟩
    refine ⟨h.ported, h.asked, ?_, h.calls⟩
    rw [hnil]
    trivial
  | interrupt number =>
    rcases hstep with ⟨hnumber, hlt, he⟩
    rw [handleIrq_eq h hcfg hlt] at he
    split at he
    . cases he
    . cases he
      exact ⟨h.ported, h.asked, ⟨rfl, hlt, h.nested⟩,
        List.forall_mem_cons.mpr ⟨⟨hnumber, Nat.zero_le _⟩, h.calls⟩⟩
  | round ack =>
    rcases hstep with ⟨c, calls, heq, hlt, rfl⟩
    rw [heq] at hnested hcalls
    rw [List.forall_mem_cons] at hcalls
    exact ⟨h.ported, h.asked, hnested, List.forall_mem_cons.mpr ⟨⟨hcalls.1.1, hlt⟩, hcalls.2⟩⟩
  | leave =>
    rcases hstep with ⟨c, calls, heq, _, he⟩
    rcases Except.bind_eq_ok he with ⟨_, _, he⟩
    cases he
    rw [heq] at hnested hcalls
    exact ⟨h.ported, h.asked, hnested.2.2, (List.forall_mem_cons.mp hcalls).2⟩

/--
However interrupts are nested, a handler runs at the level that its object asked for and is not
entered again before it returns. An interrupt gets to each object of its vector once and goes back to
the level it came at.
-/
theorem interrupts_delivered (hcfg : cfg.disableAsserts = false) (hr : Reach Start (Step cfg) s)
    : (∀ c ∈ s.calls, ∀ obj ∈ s.objq c.number,
          ∃ flags, s.sys.registered obj = some (c.number >>> 4, flags)) ∧
        (∀ number, s.irql < number >>> 4 →
          (handleIrq cfg s number = .error .assertion ↔ s.objq number = [])) ∧
        ∀ c calls, s.calls = c :: calls → s.irql = c.number >>> 4 ∧
          (∀ c' ∈ calls, c'.number >>> 4 < s.irql) ∧ c.index ≤ (s.objq c.number).length ∧
          ∃ s', s.leave cfg c calls = .ok s' ∧ s'.irql = c.irql := by
  have h : Inv s := hr.invariant (fun s => .start) fun s op s' h hstep => h.step hcfg hstep
  refine ⟨fun c hc obj => h.level hc, ?_, ?_⟩
  . intro number hlt
    rw [handleIrq_eq h hcfg hlt]
    split <;> simp [*]
  . intro c calls hcalls
    have hnested := h.nested
    rw [hcalls] at hnested
    have hlower : check cfg (c.irql ≤ s.irql) = .ok () := check_of cfg (by simpa using hnested.2.1.le)
    refine ⟨hnested.1, fun c' hc' => Nat.lt_of_le_of_lt (hnested.2.2.le c' hc') hnested.2.1,
      (h.calls c (by simp [hcalls])).2, ?_⟩
    unfold leave
    rw [hlower]
    exact ⟨_, rfl, rfl⟩

theorem interrupts_delivered_one
    : ∃ s : IrqCpu Nat, Reach Start (Step ⟨false⟩) s ∧ s.calls = [⟨48, 0, 0, 0⟩] ∧
        ∃ flags, s.sys.registered 1 = some (3, flags) := by
  have h0 : Reach Start (Step ⟨false⟩) (⟨IrqSys.vacant, 0, [], []⟩ : IrqCpu Nat) :=
    .start ⟨⟨⟨fun _ => rfl, fun _ => rfl, fun _ => rfl⟩, fun _ => rfl⟩, rfl⟩
  have h1 := h0.next (e := IrqOp.request ⟨1, 3, 0⟩) ⟨_, ⟨⟨rfl, by decide, by decide⟩, _, _, rfl, rfl⟩, rfl⟩
  have h2 := h1.next (e := IrqOp.interrupt 48) ⟨by decide, by decide, rfl⟩
  exact ⟨_, h2, rfl, (interrupts_delivered rfl h2).1 ⟨48, 0, 0, 0⟩ (.head _) 1 (.head _)⟩

end IrqCpu
end Nyy
