import NyyKernel.Lib.Fault
import NyyKernel.Lib.Run

/-!
This module contains the queue of deferred procedure calls in `kernel/irq/dpc.c`.
-/

namespace Nyy

structure Dpc where
  function : Nat
  context1 : Nat
  context2 : Nat
  enqueued : Nat
  deriving DecidableEq, Repr

structure DpcQueue (δ : Type) where
  dpc : δ → Dpc
  dpcq : List δ
  dpcCount : Nat
  -- `softint_issue(IRQL_DISPATCH)`
  softint : Bool

namespace DpcQueue

variable {δ : Type} [DecidableEq δ]

def setDpc (q : DpcQueue δ) (dpc : δ) (d : Dpc) : DpcQueue δ :=
  { q with dpc := Function.update q.dpc dpc d }

theorem setDpc_of_ne {q : DpcQueue δ} {dpc u : δ} {d : Dpc} (h : u ≠ dpc)
    : (q.setDpc dpc d).dpc u = q.dpc u := by
  exact Function.update_of_ne h ..

def dpcInit (cfg : Config) (q : DpcQueue δ) (dpc : δ) (function : Nat) : Except Fault (DpcQueue δ) := do
  check cfg (function != 0)
  return q.setDpc dpc ⟨function, 0, 0, 0⟩

def dpcEnqueue (q : DpcQueue δ) (dpc : δ) (context1 context2 : Nat) : DpcQueue δ :=
  if (q.dpc dpc).enqueued ≠ 0 then
    q
  else
    { q.setDpc dpc { q.dpc dpc with context1 := context1, context2 := context2, enqueued := 1 } with
      dpcCount := q.dpcCount + 1
      dpcq := q.dpcq ++ [dpc]
      softint := true }

def dpcDequeue (q : DpcQueue δ) (dpc : δ) : Except Fault (DpcQueue δ) :=
  if dpc ∈ q.dpcq then
    return { q with dpcq := q.dpcq.erase dpc }
  else
    .error .undefined

-- one iteration: the DPC whose function is called, with the contexts that it gets
def dpcRunQueue (cfg : Config) (q : DpcQueue δ)
    : Except Fault (Option (δ × Nat × Nat) × DpcQueue δ) :=
  match q.dpcq with
  | [] => return (none, q)
  | dpc :: dpcq => do
    check cfg ((q.dpc dpc).function != 0)
    let d := q.dpc dpc
    return (some (dpc, d.context1, d.context2),
      { q.setDpc dpc { d with enqueued := 0 } with dpcq := dpcq, dpcCount := q.dpcCount - 1 })

end DpcQueue

inductive DpcOp (δ : Type) where
  | init (dpc : δ) (function : Nat)
  | enqueue (dpc : δ) (context1 context2 : Nat)
  | dequeue (dpc : δ)
  | run (called : Option (δ × Nat × Nat))
  deriving DecidableEq

def DpcOp.isRun {δ : Type} : DpcOp δ → Bool
  | .run _ => true
  | _ => false

structure DpcSys (δ : Type) where
  queue : DpcQueue δ
  inited : List δ

namespace DpcSys

open DpcQueue

variable {δ : Type} [DecidableEq δ] {cfg : Config} {s s' : DpcSys δ} {q : DpcQueue δ}
  {context1 context2 n : Nat}

def Init (s : DpcSys δ) : Prop := s.queue.dpcq = [] ∧ s.queue.dpcCount = 0 ∧ s.inited = []

def Step (cfg : Config) (s : DpcSys δ) (op : DpcOp δ) (s' : DpcSys δ) : Prop :=
  match op with
  | .init dpc function => dpc ∉ s.queue.dpcq ∧
    ∃ q, dpcInit cfg s.queue dpc function = .ok q ∧ s' = ⟨q, dpc :: s.inited⟩
  | .enqueue dpc context1 context2 => dpc ∈ s.inited ∧
    s' = { s with queue := dpcEnqueue s.queue dpc context1 context2 }
  | .dequeue dpc => dpc ∈ s.queue.dpcq ∧
    ∃ q, dpcDequeue s.queue dpc = .ok q ∧ s' = { s with queue := q }
  | .run called =>
    ∃ q, dpcRunQueue cfg s.queue = .ok (called, q) ∧ s' = { s with queue := q }

def NoDequeue (_ : DpcSys δ) : DpcOp δ → Prop
  | .dequeue _ => False
  | _ => True

structure Inv (s : DpcSys δ) : Prop where
  inited : ∀ dpc ∈ s.queue.dpcq, dpc ∈ s.inited
  enqueued : ∀ dpc ∈ s.inited, (s.queue.dpc dpc).enqueued = if dpc ∈ s.queue.dpcq then 1 else 0
  nodup : s.queue.dpcq.Nodup
  count : s.queue.dpcCount = s.queue.dpcq.length

theorem Inv.init_step {dpc : δ} {function : Nat} (h : Inv s) (hnot : dpc ∉ s.queue.dpcq)
    (hq : dpcInit cfg s.queue dpc function = .ok q)
    : Inv ⟨q, dpc :: s.inited⟩ := by
  rcases Except.bind_eq_ok hq with ⟨_, _, hq⟩
  cases hq
  refine ⟨?_, ?_, h.nodup, h.count⟩
  . intro u hu
    exact List.mem_cons_of_mem _ (h.inited u hu)
  . intro u hu
    by_cases hud : u = dpc
    . subst hud
      simp [setDpc, hnot]
    . have hmem := (List.mem_cons.mp hu).resolve_left hud
      rw [setDpc_of_ne hud]
      exact h.enqueued u hmem

theorem Inv.enqueue_step {dpc : δ} (h : Inv s) (hinited : dpc ∈ s.inited)
    : Inv { s with queue := dpcEnqueue s.queue dpc context1 context2 } := by
  unfold dpcEnqueue
  have hflag := h.enqueued dpc hinited
  split
  . exact h
  . next hzero =>
    -- the flag says that the DPC is not on the queue
    have hnot : dpc ∉ s.queue.dpcq := by
      intro hmem
      rw [if_pos hmem] at hflag
      simp [hflag] at hzero
    constructor
    . intro u hu
      simp only [List.mem_append, List.mem_singleton] at hu
      rcases hu with hu | rfl
      . exact h.inited u hu
      . exact hinited
    . intro u hu
      by_cases hud : u = dpc
      . subst hud
        simp [setDpc]
      . simpa [setDpc, hud] using h.enqueued u hu
    . simp only [List.nodup_append, List.nodup_singleton, List.mem_singleton]
      refine ⟨h.nodup, trivial, ?_⟩
      intro u hu v hv huv
      subst hv huv
      exact hnot hu
    . simp [h.count]

theorem Inv.run_step {called : Option (δ × Nat × Nat)} (h : Inv s)
    (hq : dpcRunQueue cfg s.queue = .ok (called, q))
    : Inv { s with queue := q } := by
  unfold dpcRunQueue at hq
  cases hlist : s.queue.dpcq with
  | nil =>
    rw [hlist] at hq
    cases hq
    exact h
  | cons dpc dpcq =>
    rw [hlist] at hq
    rcases Except.bind_eq_ok hq with ⟨_, _, hq⟩
    cases hq
    have hnodup := h.nodup
    rw [hlist, List.nodup_cons] at hnodup
    constructor
    . intro u hu
      apply h.inited
      rw [hlist]
      exact List.mem_cons_of_mem _ hu
    . intro u hu
      by_cases hud : u = dpc
      . subst hud
        simp [setDpc, hnodup.1]
      . have := h.enqueued u hu
        rw [hlist] at this
        simpa [setDpc, hud] using this
    . exact hnodup.2
    . have := h.count
      rw [hlist] at this
      simp [this]

theorem Inv.step {op : DpcOp δ} (h : Inv s) (hstep : Guarded NoDequeue (Step cfg) s op s') : Inv s' := by
  rcases hstep with ⟨hno, hstep⟩
  cases op with
  | init dpc function =>
    rcases hstep with ⟨hnot, q, hq, rfl⟩
    exact h.init_step hnot hq
  | enqueue dpc context1 context2 =>
    rcases hstep with ⟨hinited, rfl⟩
    exact h.enqueue_step hinited
  | dequeue dpc => exact hno.elim
  | run called =>
    rcases hstep with ⟨q, hq, rfl⟩
    exact h.run_step hq

structure Waits (s : DpcSys δ) (dpc : δ) (context1 context2 n : Nat) : Prop where
  split : ∃ front back, s.queue.dpcq = front ++ dpc :: back ∧ front.length = n
  context1 : (s.queue.dpc dpc).context1 = context1
  context2 : (s.queue.dpc dpc).context2 = context2

omit [DecidableEq δ] in
theorem Waits.mem {dpc : δ} (h : Waits s dpc context1 context2 n) : dpc ∈ s.queue.dpcq := by
  rcases h.split with ⟨front, back, heq, _⟩
  rw [heq]
  simp

theorem Waits.enqueue_step {dpc u : δ} {c1 c2 : Nat} (hinv : Inv s) (h : Waits s dpc context1 context2 n)
    (hu : u ∈ s.inited)
    : Waits { s with queue := dpcEnqueue s.queue u c1 c2 } dpc context1 context2 n := by
  unfold dpcEnqueue
  split
  . exact h
  . next hzero =>
    have hne : dpc ≠ u := by
      rintro rfl
      have := hinv.enqueued dpc hu
      rw [if_pos h.mem] at this
      simp [this] at hzero
    rcases h.split with ⟨front, back, heq, hlen⟩
    refine ⟨⟨front, back ++ [u], ?_, hlen⟩, ?_, ?_⟩
    . simp [heq]
    . simpa [setDpc, hne] using h.context1
    . simpa [setDpc, hne] using h.context2

theorem Waits.run_step {dpc : δ} {called : Option (δ × Nat × Nat)} (hinv : Inv s)
    (h : Waits s dpc context1 context2 n) (hq : dpcRunQueue cfg s.queue = .ok (called, q))
    : called = some (dpc, context1, context2) ∨
        ∃ k, n = k + 1 ∧ Waits { s with queue := q } dpc context1 context2 k := by
  rcases h.split with ⟨front, back, heq, hlen⟩
  unfold dpcRunQueue at hq
  cases front with
  | nil =>
    rw [heq] at hq
    rcases Except.bind_eq_ok hq with ⟨_, _, hq⟩
    cases hq
    left
    rw [← h.context1, ← h.context2]
  | cons first front =>
    rw [heq] at hq
    rcases Except.bind_eq_ok hq with ⟨_, _, hq⟩
    cases hq
    have hne : dpc ≠ first := by
      have hnodup := hinv.nodup
      rw [heq, List.cons_append, List.nodup_cons] at hnodup
      rintro rfl
      exact hnodup.1 (by simp)
    right
    refine ⟨front.length, hlen.symm, ⟨front, back, rfl, rfl⟩, ?_, ?_⟩
    . simpa [setDpc, hne] using h.context1
    . simpa [setDpc, hne] using h.context2

theorem Waits.called {dpc : δ} {es : List (DpcOp δ × DpcSys δ)} (hinv : Inv s)
    (h : Waits s dpc context1 context2 n) (hrun : Trace (Guarded NoDequeue (Step cfg)) s es)
    (hcount : n < es.countP fun e => DpcOp.isRun e.1)
    : ∃ e ∈ es, e.1 = .run (some (dpc, context1, context2)) := by
  -- on the run: every iteration moves the DPC forward, nothing else moves it
  induction hrun generalizing n with
  | nil => simp at hcount
  | @cons s s' op es hstep _ ih =>
    have hinv' := hinv.step hstep
    rcases hstep with ⟨hno, hstep⟩
    have hlater : ∀ k, Waits s' dpc context1 context2 k → k < es.countP (fun e => DpcOp.isRun e.1) →
        ∃ e ∈ (op, s') :: es, e.1 = .run (some (dpc, context1, context2)) := by
      intro k hk hlt
      rcases ih hinv' hk hlt with ⟨e, he, hcall⟩
      exact ⟨e, List.mem_cons_of_mem _ he, hcall⟩
    cases op with
    | init u function =>
      rcases hstep with ⟨hnot, q, hq, rfl⟩
      rcases Except.bind_eq_ok hq with ⟨_, _, hq⟩
      cases hq
      have hne : dpc ≠ u := by
        rintro rfl
        exact hnot h.mem
      apply hlater n
      . refine ⟨h.split, ?_, ?_⟩
        . simpa [setDpc, hne] using h.context1
        . simpa [setDpc, hne] using h.context2
      . rwa [List.countP_cons_of_neg (by simp [DpcOp.isRun])] at hcount
    | enqueue u c1 c2 =>
      rcases hstep with ⟨hu, rfl⟩
      apply hlater n (h.enqueue_step hinv hu)
      rwa [List.countP_cons_of_neg (by simp [DpcOp.isRun])] at hcount
    | dequeue u => exact hno.elim
    | run called =>
      rcases hstep with ⟨q, hq, rfl⟩
      rcases h.run_step hinv hq with rfl | ⟨k, rfl, hk⟩
      . exact ⟨_, List.mem_cons_self, rfl⟩
      . apply hlater k hk
        rw [List.countP_cons_of_pos (by rfl)] at hcount
        omega

/--
Without `dpc_dequeue`, the flag of a DPC, the queue and its counter agree. A DPC that is enqueued is
called once the iterations have got to it.
-/
theorem dpc_queue_consistent (hr : Reach Init (Guarded NoDequeue (Step cfg)) s)
    : (∀ dpc ∈ s.inited, (s.queue.dpc dpc).enqueued = 1 ↔ dpc ∈ s.queue.dpcq) ∧
        s.queue.dpcq.Nodup ∧ s.queue.dpcCount = s.queue.dpcq.length ∧
        ∀ dpc ∈ s.inited, dpc ∉ s.queue.dpcq → ∀ context1 context2 s' es,
          Step cfg s (.enqueue dpc context1 context2) s' →
          Trace (Guarded NoDequeue (Step cfg)) s' es →
          s.queue.dpcq.length < es.countP (fun e => DpcOp.isRun e.1) →
          ∃ e ∈ es, e.1 = .run (some (dpc, context1, context2)) := by
  have hinv : Inv s := by
    refine hr.invariant ?_ ?_
    . rintro s ⟨hq, hc, hi⟩
      refine ⟨?_, ?_, ?_, ?_⟩ <;> simp [hq, hc, hi]
    . intro s op s' h hstep
      exact h.step hstep
  refine ⟨?_, hinv.nodup, hinv.count, ?_⟩
  . intro dpc hdpc
    rw [hinv.enqueued dpc hdpc]
    split <;> simp [*]
  . intro dpc hdpc hnot context1 context2 s' es hstep hrun hcount
    rcases hstep with ⟨_, rfl⟩
    refine Waits.called (hinv.enqueue_step hdpc) ?_ hrun hcount
    have hflag : (s.queue.dpc dpc).enqueued = 0 := by
      rw [hinv.enqueued dpc hdpc, if_neg hnot]
    unfold dpcEnqueue
    rw [if_neg (not_not_intro hflag)]
    refine ⟨⟨s.queue.dpcq, [], rfl, rfl⟩, ?_, ?_⟩
    . simp [setDpc]
    . simp [setDpc]

def blank : DpcSys Nat := ⟨⟨fun _ => ⟨0, 0, 0, 5⟩, [], 0, false⟩, []⟩

theorem dpc_queue_consistent_called
    : ∃ (s s' : DpcSys Nat) (es : List (DpcOp Nat × DpcSys Nat)),
        Reach Init (Guarded NoDequeue (Step ⟨false⟩)) s ∧ s.queue.dpcq = [8] ∧
        Step ⟨false⟩ s (.enqueue 7 1 2) s' ∧ Trace (Guarded NoDequeue (Step ⟨false⟩)) s' es ∧
        es.map Prod.fst = [.enqueue 7 3 4, .run (some (8, 0, 0)), .run (some (7, 1, 2))] ∧
        ∃ e ∈ es, e.1 = .run (some (7, 1, 2)) := by
  have h0 : Reach Init (Guarded NoDequeue (Step ⟨false⟩)) blank := .start ⟨rfl, rfl, rfl⟩
  have h1 := h0.next (e := DpcOp.init 7 1) ⟨trivial, by decide, _, rfl, rfl⟩
  have h2 := h1.next (e := DpcOp.init 8 1) ⟨trivial, by decide, _, rfl, rfl⟩
  have h3 := h2.next (e := DpcOp.enqueue 8 0 0) ⟨trivial, by decide, rfl⟩
  refine ⟨_, _, [(.enqueue 7 3 4, _), (.run (some (8, 0, 0)), _), (.run (some (7, 1, 2)), _)], h3, rfl,
    ⟨by decide, rfl⟩, .cons ⟨trivial, by decide, rfl⟩ (.cons ⟨trivial, _, rfl, rfl⟩
      (.cons ⟨trivial, _, rfl, rfl⟩ .nil)), rfl, ?_⟩
  refine (dpc_queue_consistent h3).2.2.2 7 (by decide) (by decide) 1 2 _ _ ⟨by decide, rfl⟩
    (.cons ⟨trivial, by decide, rfl⟩ (.cons ⟨trivial, _, rfl, rfl⟩
      (.cons ⟨trivial, _, rfl, rfl⟩ .nil))) (by decide)

theorem dequeued_dpc_stuck
    : ∃ s : DpcSys Nat, Reach Init (Step ⟨false⟩) s ∧
        (s.queue.dpc 7).enqueued = 1 ∧ s.queue.dpcq = [] ∧ s.queue.dpcCount = 1 ∧
        ∀ context1 context2, (dpcEnqueue s.queue 7 context1 context2).dpcq = [] := by
  have h0 : Reach Init (Step ⟨false⟩) blank := .start ⟨rfl, rfl, rfl⟩
  have h1 := h0.next (e := DpcOp.init 7 1) ⟨by decide, _, rfl, rfl⟩
  have h2 := h1.next (e := DpcOp.enqueue 7 0 0) ⟨by decide, rfl⟩
  have h3 := h2.next (e := DpcOp.dequeue 7) ⟨by decide, _, rfl, rfl⟩
  exact ⟨_, h3, rfl, rfl, rfl, fun _ _ => rfl⟩

end DpcSys
end Nyy
