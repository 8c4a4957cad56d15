import NyyKernel.Irq.Vector

namespace Nyy
namespace IrqSys

open IrqTable

variable {ω : Type} [DecidableEq ω] {cfg : Config} {s s' : IrqSys ω} {flags : BitVec 32}

def Boot (s : IrqSys ω) : Prop := Init s ∧ ∀ vec, s.table.irqHandlers vec = false

def Attached (table : IrqTable ω) (r : IrqRequest ω) : Prop :=
  ∃ vec ∈ levelVectors r.irql, table.vector r.obj = some vec ∧ r.obj ∈ (table.vectors vec).objq ∧
    table.irqHandlers vec = true

def AllOrNothing (cfg : Config) (s : IrqSys ω) (r : IrqRequest ω) : Prop :=
  ∃ ret table, irqInitializeObjIrql cfg s.table r.obj r.irql r.flags = .ok (ret, table) ∧
    (ret = 0 ↔ Attached table r) ∧
    (ret ≠ 0 → table.vectors = s.table.vectors ∧ table.vector r.obj = s.table.vector r.obj ∧
      table.irqHandlers = s.table.irqHandlers)

structure Ported (s : IrqSys ω) : Prop where
  inv : Inv s
  handlers : ∀ vec, s.table.irqHandlers vec = true ↔ (s.table.vectors vec).objectcnt ≠ 0

section Register

variable {obj : ω} {vec : Nat} {r : IrqRequest ω}

theorem irqRegisterHandler_ret (obj : ω) (vec : Nat) (flags : BitVec 32) (t : IrqTable ω)
    : (irqRegisterHandler t obj vec flags).1 = if t.irqHandlers vec then 1 else 0 := by
  unfold irqRegisterHandler portRegisterIsr
  dsimp only
  split <;> rfl

theorem irqRegisterHandler_irqHandlers (t : IrqTable ω)
    : (irqRegisterHandler t obj vec flags).2.irqHandlers =
        Function.update t.irqHandlers vec true := by
  unfold irqRegisterHandler portRegisterIsr
  dsimp only
  split
  . next h =>
    funext v
    rcases eq_or_ne v vec with rfl | hv
    . simp [h]
    . simp [hv]
  . rfl

omit [DecidableEq ω] in
theorem Ported.boot (h : Boot s) : Ported s := by
  refine ⟨Inv.init h.1, ?_⟩
  intro vec
  simp [h.2 vec, h.1.1 vec]

theorem Ported.step (h : Ported s) (hstep : Step cfg s r s') : Ported s' := by
  refine ⟨h.inv.step hstep, ?_⟩
  rcases hstep with ⟨hallowed, ret, table, hcall, rfl⟩
  intro v
  unfold record
  dsimp only
  rcases irqInitializeObjIrql_cases cfg h.inv hallowed with ⟨vec, _, _, _, heq⟩ | ⟨_, heq⟩
  . rw [heq] at hcall
    have htable := congrArg Prod.snd (Except.ok.inj hcall)
    dsimp only at htable
    rw [← htable, irqRegisterHandler_irqHandlers, irqRegisterHandler_vectors]
    rcases eq_or_ne v vec with rfl | hv
    . simp [joined]
    . rw [Function.update_of_ne hv, Function.update_of_ne hv]
      exact h.handlers v
  . rw [heq] at hcall
    cases hcall
    exact h.handlers v

theorem attached_irqRegisterHandler (t : IrqTable ω) (hvec : vec ∈ levelVectors r.irql)
    : Attached (irqRegisterHandler t r.obj vec r.flags).2 r := by
  refine ⟨vec, hvec, ?_, ?_, ?_⟩
  . rw [irqRegisterHandler_vector, Function.update_self]
  . rw [irqRegisterHandler_vectors, Function.update_self]
    simp [joined]
  . rw [irqRegisterHandler_irqHandlers, Function.update_self]

end Register

theorem register_all_or_nothing_iff (hr : Reach Boot (Step cfg) s) {r : IrqRequest ω}
    (hallowed : Allowed s r)
    : AllOrNothing cfg s r ↔
        (∃ vec ∈ levelVectors r.irql, (s.table.vectors vec).objectcnt = 0) ∨
          ∀ vec ∈ levelVectors r.irql,
            ¬ (Shareable (s.table.vectors vec).flags ∧ Shareable r.flags) := by
  have h : Ported s := by
    refine hr.invariant ?_ ?_
    . intro s
      exact Ported.boot
    . intro s r s'
      exact Ported.step
  have hnone := (h.inv.registered r.obj).mp hallowed.1
  unfold AllOrNothing
  rcases irqInitializeObjIrql_cases cfg h.inv hallowed with
    ⟨vec, hvec, husable, hfirst, heq⟩ | ⟨hno, heq⟩
  . have hret := irqRegisterHandler_ret r.obj vec r.flags s.table
    have hat := attached_irqRegisterHandler s.table hvec
    rw [heq]
    generalize irqRegisterHandler s.table r.obj vec r.flags = res at hret hat
    rcases res with ⟨ret, table⟩
    cases hhandler : s.table.irqHandlers vec with
    | false =>
      -- the vector was unoccupied
      rw [hhandler, if_neg (by decide)] at hret
      refine iff_of_true ⟨_, _, rfl, iff_of_true hret hat, fun hne => absurd hret hne⟩ (.inl ⟨vec, hvec, ?_⟩)
      by_contra hcount
      rw [(h.handlers vec).mpr hcount] at hhandler
      cases hhandler
    | true =>
      -- the object joins others, and the call fails with the object attached
      rw [hhandler, if_pos rfl] at hret
      have hcount := (h.handlers vec).mp hhandler
      refine iff_of_false ?_ ?_
      . rintro ⟨ret', table', hok, hzero, _⟩
        cases hok
        have := hzero.mpr hat
        omega
      . rintro (hempty | hshared)
        . exact hcount (hfirst hempty)
        . exact hshared vec hvec (husable.resolve_left hcount)
  . refine iff_of_true ⟨1, s.table, heq, ?_, fun _ => ⟨rfl, rfl, rfl⟩⟩ (.inr ?_)
    . refine iff_of_false (by decide) ?_
      rintro ⟨vec, _, hvec, _⟩
      rw [hnone] at hvec
      cases hvec
    . intro vec hvec hshared
      exact hno vec hvec (.inr hshared)

theorem register_all_or_nothing_iff_crowded
    : AllOrNothing ⟨false⟩ (crowded 16) ⟨18, 3, 0⟩ ∧
        ¬ AllOrNothing ⟨false⟩ (crowded 16) ⟨16, 3, irqShareable⟩ := by
  have hr : Reach Boot (Step ⟨false⟩) (crowded 16) :=
    (crowded_reach ⟨⟨fun _ => rfl, fun _ => rfl, fun _ => rfl⟩, fun _ => rfl⟩ (by decide)).1
  have hnew : (crowded 16).registered 18 = none ∧ (crowded 16).registered 16 = none := by decide +kernel
  have hfull : ∀ vec ∈ levelVectors 3, ((crowded 16).table.vectors vec).objectcnt ≠ 0 ∧
      ((crowded 16).table.vectors vec).flags = irqShareable := by
    decide +kernel
  rw [register_all_or_nothing_iff hr ⟨hnew.1, by decide, by decide⟩,
    register_all_or_nothing_iff hr ⟨hnew.2, by decide, by decide⟩]
  refine ⟨.inr fun vec _ h => absurd h.2 (by unfold Shareable; decide), ?_⟩
  rintro (⟨vec, hvec, hempty⟩ | hnone)
  . exact (hfull vec hvec).1 hempty
  . have h16 : 16 ∈ levelVectors 3 := by decide
    refine hnone 16 h16 ⟨?_, by unfold Shareable; decide⟩
    rw [(hfull 16 h16).2]
    unfold Shareable
    decide

def shareRun : Nat → Except Fault (List Nat × IrqTable Nat)
  | 0 => return ([], vacant.table)
  | n + 1 => do
    let (rets, table) ← shareRun n
    let (ret, table) ← irqInitializeObjIrql ⟨false⟩ table n 3 irqShareable
    return (rets ++ [ret], table)

theorem joined_but_failed
    : (shareRun 17).map (fun r => (r.1, r.2.vector 16, (r.2.vectors 16).objq)) =
        .ok (List.replicate 16 0 ++ [1], some 16, [0, 16]) := by
  decide

end IrqSys
end Nyy
