import NyyKernel.Lib.Tailq
import NyyKernel.Sched.Priority

/-!
This module contains the scheduler with its queues as they are in memory. The run queues and the queue of
threads that are done link threads by the same field, `entry`.
-/

namespace Nyy

open Tailq

instance {θ : Type} [DecidableEq θ] : ThreadQueues (Links QueueHead θ) θ where
  insertTail := Links.insertTail
  first := Links.first
  remove := Links.remove

abbrev LinkedCpu (θ : Type) := Cpu θ (Links QueueHead θ)

abbrev Cpu.links {θ : Type} (cpu : LinkedCpu θ) : Links QueueHead θ := cpu.queues

namespace Queues

variable {θ : Type}

def of (q : QueueHead → List θ) : Queues θ := ⟨fun p => q (some p), q none⟩

theorem of_update (q : QueueHead → List θ) (p : Fin 16) (ts : List θ)
    : of (Function.update q (some p) ts) =
        { of q with runQueues := Function.update (of q).runQueues p ts } := by
  have hrun : (fun i => Function.update q (some p) ts (some i)) =
      Function.update (fun i => q (some i)) p ts := by
    funext i
    by_cases hi : i = p
    . subst hi
      simp
    . rw [Function.update_of_ne hi, Function.update_of_ne (by simpa using hi)]
  unfold of
  rw [hrun, Function.update_of_ne (by simp)]

variable [DecidableEq θ]

theorem insertTail_of (q : QueueHead → List θ) (h : QueueHead) (t : θ)
    : ThreadQueues.insertTail (of q) h t = of (Function.update q h (q h ++ [t])) := by
  cases h with
  | some p => exact (of_update q p _).symm
  | none =>
    unfold of
    simp [ThreadQueues.insertTail]

end Queues

def Cpu.view {θ : Type} (cpu : LinkedCpu θ) (q : QueueHead → List θ) : Cpu θ :=
  { cpu with queues := Queues.of q }

namespace LinkedCpu

variable {θ : Type} [DecidableEq θ]

section Refinement

variable {cpu cpu' : LinkedCpu θ} {q : QueueHead → List θ} {t : θ}

omit [DecidableEq θ] in
theorem view_checkTimer (cpu : LinkedCpu θ) (q : QueueHead → List θ) (t : θ)
    : (checkTimer cpu t).view q = checkTimer (cpu.view q) t := by
  unfold checkTimer
  by_cases h : cpu.runMask >>> (cpu.priority t).val ≠ 0
  . rw [if_pos h, if_pos (by exact h)]
    rfl
  . rw [if_neg h, if_neg (by exact h)]
    rfl

omit [DecidableEq θ] in
theorem links_checkTimer (cpu : LinkedCpu θ) (t : θ) : (checkTimer cpu t).links = cpu.links := by
  rcases Cpu.checkTimer_eq cpu t with ⟨timer, heq⟩
  rw [heq]

section

variable (hr : Rep cpu.links q)

include hr

theorem enqueue_view (ht : ∀ h, t ∉ q h)
    : ∃ q', Rep (cpu.enqueue t).links q' ∧ (cpu.enqueue t).view q' = (cpu.view q).enqueue t := by
  refine ⟨_, hr.insertTail ht (some (cpu.priority t)), ?_⟩
  unfold Cpu.enqueue Cpu.view
  dsimp only
  rw [Queues.insertTail_of]
  rfl

theorem schedInsert_view {fuel : Nat} (ht : ∀ h, t ∉ q h) (h : schedInsert fuel cpu t = .ok cpu')
    : ∃ q', Rep cpu'.links q' ∧ schedInsert fuel (cpu.view q) t = .ok (cpu'.view q') := by
  induction fuel generalizing cpu with
  | zero => cases h
  | succ fuel ih =>
    unfold schedInsert at h ⊢
    dsimp only at h ⊢
    -- every test of the two is about fields they share
    split at h
    . next hprio =>
      cases h
      rw [if_pos (by exact hprio)]
      have hr' : Rep (cpu.setState t .ready).links q := hr
      rcases enqueue_view hr' ht with ⟨q', hrep, hview⟩
      refine ⟨q', ?_, ?_⟩
      . rw [links_checkTimer]
        exact hrep
      . rw [view_checkTimer, hview]
        rfl
    . next hprio =>
      rw [if_neg (by exact hprio)]
      split at h
      . next hnext =>
        rw [if_pos (by exact hnext)]
        exact ih (by exact hr) h
      . next hnext =>
        rw [if_neg (by exact hnext)]
        cases h
        exact ⟨q, hr, rfl⟩

theorem first_view (p : Fin 16)
    : ThreadQueues.first cpu.queues (some p) = ((cpu.view q).runQueues p).head? :=
  (hr.queue (some p)).first

theorem schedNextIn_view_none {is : List (Fin 16)} (h : schedNextIn cpu is = none)
    : schedNextIn (cpu.view q) is = none := by
  induction is with
  | nil => rfl
  | cons i is ih =>
    unfold schedNextIn at h
    rw [Cpu.schedNextIn_cons]
    split at h
    . next hfirst =>
      rw [first_view hr, List.head?_eq_none_iff] at hfirst
      rw [hfirst]
      exact ih h
    . dsimp only at h
      split at h <;> cases h

theorem schedNextIn_view {is : List (Fin 16)} (h : schedNextIn cpu is = some (t, cpu'))
    : ∃ q', Rep cpu'.links q' ∧ schedNextIn (cpu.view q) is = some (t, cpu'.view q') := by
  induction is with
  | nil => cases h
  | cons i is ih =>
    unfold schedNextIn at h
    rw [Cpu.schedNextIn_cons]
    split at h
    . next hfirst =>
      rw [first_view hr, List.head?_eq_none_iff] at hfirst
      rw [hfirst]
      exact ih h
    . next tp hfirst =>
      rw [first_view hr] at hfirst
      rcases List.head?_eq_some_iff.mp hfirst with ⟨rest, hq⟩
      have hrem := hr.remove (h := some i) hq
      have hempty : ThreadQueues.first (ThreadQueues.remove cpu.queues (some i) tp) (some i) =
          rest.head? := by
        rw [← Function.update_self (some i) rest q]
        exact (hrem.queue (some i)).first
      rw [hq]
      dsimp only at h ⊢
      rw [hempty] at h
      cases rest with
      | nil =>
        cases h
        refine ⟨_, hrem, ?_⟩
        unfold Cpu.view
        rw [Queues.of_update]
        rfl
      | cons u us =>
        cases h
        refine ⟨_, hrem, ?_⟩
        unfold Cpu.view
        rw [Queues.of_update]
        rfl

theorem schedReschedule_view
    : ∃ q', Rep (schedReschedule cpu).links q' ∧
        schedReschedule (cpu.view q) = (schedReschedule cpu).view q' := by
  unfold schedReschedule
  cases h : schedNext cpu (cpu.priority cpu.threadCurrent).val with
  | none =>
    have hview := schedNextIn_view_none hr h
    refine ⟨q, hr, ?_⟩
    rw [show schedNext (cpu.view q)
      ((cpu.view q).priority (cpu.view q).threadCurrent).val = none from hview]
  | some r =>
    rcases schedNextIn_view hr h with ⟨q', hr', hview⟩
    refine ⟨q', hr', ?_⟩
    rw [show schedNext (cpu.view q)
      ((cpu.view q).priority (cpu.view q).threadCurrent).val = some _ from hview]
    rfl

theorem schedYieldInternal_view
    : ∃ q', Rep (schedYieldInternal cpu).links q' ∧
        schedYieldInternal (cpu.view q) = (schedYieldInternal cpu).view q' := by
  unfold schedYieldInternal
  cases h : schedNext cpu 0 with
  | none =>
    have hview := schedNextIn_view_none hr h
    refine ⟨q, hr, ?_⟩
    rw [show schedNext (cpu.view q) _ = none from hview]
    rfl
  | some r =>
    rcases schedNextIn_view hr h with ⟨q', hr', hview⟩
    refine ⟨q', hr', ?_⟩
    rw [show schedNext (cpu.view q) _ = some _ from hview]
    rfl

theorem schedExitDestroy_view (ht : ∀ h, cpu.threadCurrent ∉ q h)
    : ∃ q', Rep (schedExitDestroy cpu).links q' ∧
        schedExitDestroy (cpu.view q) = (schedExitDestroy cpu).view q' := by
  have hins : Rep ({ cpu with queues := cpu.links.insertTail none cpu.threadCurrent } : LinkedCpu θ).links
      (Function.update q none (q none ++ [cpu.threadCurrent])) := hr.insertTail ht none
  rcases schedYieldInternal_view hins with ⟨q', hr', hview⟩
  refine ⟨q', hr', ?_⟩
  unfold Cpu.view at hview
  rw [← Queues.insertTail_of] at hview
  exact hview

theorem schedResume_view (ht : (cpu.thread t).state = .ready ∨ ∀ h, t ∉ q h)
    (h : schedResume cpu t = .ok cpu')
    : ∃ q', Rep cpu'.links q' ∧ schedResume (cpu.view q) t = .ok (cpu'.view q') := by
  unfold schedResume at h ⊢
  split at h
  . next hready =>
    cases h
    exact ⟨q, hr, if_pos hready⟩
  . next hready =>
    rw [if_neg (by exact hready)]
    exact schedInsert_view hr (ht.resolve_left hready) h

theorem schedPreempt_view (ht : cpu.threadCurrent = cpu.idleThread ∨ ∀ h, cpu.threadCurrent ∉ q h)
    (h : schedPreempt cpu = .ok cpu')
    : ∃ q', Rep cpu'.links q' ∧ schedPreempt (cpu.view q) = .ok (cpu'.view q') := by
  unfold schedPreempt at h ⊢
  dsimp only at h ⊢
  rw [show (cpu.view q).threadNext = cpu.threadNext from rfl]
  by_cases hcur : cpu.threadCurrent = cpu.idleThread
  . rw [if_neg (not_not_intro hcur)] at h
    rw [if_neg (not_not_intro (by exact hcur))]
    cases hn : cpu.threadNext with
    | none =>
      rw [hn] at h
      cases h
    | some n =>
      rw [hn] at h
      cases h
      exact ⟨q, hr, rfl⟩
  . rw [if_pos hcur] at h
    rw [if_pos (by exact hcur)]
    rcases Except.bind_eq_ok h with ⟨cpu1, hins, hswitch⟩
    rcases schedInsert_view (by exact hr) (ht.resolve_left hcur) hins with ⟨q', hr', hview⟩
    cases hn : cpu.threadNext with
    | none =>
      rw [hn] at hswitch
      cases hswitch
    | some n =>
      rw [hn] at hswitch
      cases hswitch
      refine ⟨q', hr', ?_⟩
      exact (congrArg (· >>= fun cpu => pure (schedSwitchThread cpu n)) hview)

end

end Refinement

section Run

variable {cpu : LinkedCpu θ}

def Start (cpu : LinkedCpu θ) : Prop :=
  cpu.threadCurrent = cpu.idleThread ∧ cpu.threadNext = none ∧ cpu.links.Empty ∧ cpu.runMask = 0 ∧
  cpu.priority cpu.idleThread = 0

def exec (cpu : LinkedCpu θ) : Cpu.Call θ → Except Fault (LinkedCpu θ)
  | .resume t => schedResume cpu t
  | .reschedule => .ok (schedReschedule cpu)
  | .preempt => schedPreempt cpu
  | .yield => .ok (schedYield cpu)
  | .exit => .ok (schedExitDestroy cpu)

def Step (cpu : LinkedCpu θ) (c : Cpu.Call θ) (cpu' : LinkedCpu θ) : Prop := cpu.exec c = .ok cpu'

def Unlinked (cpu : LinkedCpu θ) (t : θ) : Prop := ∀ h, ¬ cpu.links.On h t

omit [DecidableEq θ] in
theorem Unlinked.of_rep {q : QueueHead → List θ} {t : θ} (hr : Rep cpu.links q) (ht : ∀ h, t ∉ q h)
    : cpu.Unlinked t := by
  intro h hon
  exact ht h (((hr.queue h).on_iff t).mp hon)

def InsertsUnlinked (cpu : LinkedCpu θ) : Cpu.Call θ → Prop
  | .resume t => (cpu.thread t).state = .ready ∨ cpu.Unlinked t
  | .preempt => cpu.threadCurrent = cpu.idleThread ∨ cpu.Unlinked cpu.threadCurrent
  | .exit => cpu.Unlinked cpu.threadCurrent
  | _ => True

def Ordered (cpu : LinkedCpu θ) : Prop := ∃ q, Rep cpu.links q ∧ (cpu.view q).Strict

omit [DecidableEq θ] in
theorem Ordered.start (h : Start cpu) : cpu.Ordered := by
  rcases h with ⟨hcur, hnext, hempty, hmask, hidle⟩
  refine ⟨_, Rep.of_empty hempty, ?_, hidle, ?_, ?_⟩
  . intro p t ht
    cases ht
  . intro p hp
    exact absurd rfl hp
  . intro n hn
    exact absurd (hnext.symm.trans hn) (by simp)

theorem step_view {cpu' : LinkedCpu θ} {q : QueueHead → List θ} {c : Cpu.Call θ} (hr : Rep cpu.links q)
    (hstep : Guarded InsertsUnlinked Step cpu c cpu')
    : ∃ q', Rep cpu'.links q' ∧ Cpu.Step (cpu.view q) c (cpu'.view q') := by
  have hunlinked : ∀ t, cpu.Unlinked t → ∀ h, t ∉ q h := by
    intro t ht h hmem
    exact ht h (((hr.queue h).on_iff t).mpr hmem)
  rcases hstep with ⟨hguard, hstep⟩
  cases c with
  | resume t => exact schedResume_view hr (hguard.imp_right (hunlinked t)) hstep
  | reschedule =>
    cases hstep
    exact schedReschedule_view hr
  | preempt => exact schedPreempt_view hr (hguard.imp_right (hunlinked _)) hstep
  | yield =>
    cases hstep
    exact schedYieldInternal_view hr
  | exit =>
    cases hstep
    exact schedExitDestroy_view hr (hunlinked _ hguard)

theorem Ordered.step {cpu' : LinkedCpu θ} {c : Cpu.Call θ} (h : cpu.Ordered)
    (hstep : Guarded InsertsUnlinked Step cpu c cpu')
    : cpu'.Ordered := by
  rcases h with ⟨q, hr, hstrict⟩
  rcases step_view hr hstep with ⟨q', hr', hstep'⟩
  exact ⟨q', hr', hstrict.step hstep'⟩

theorem strict_priority {cpu : LinkedCpu θ} (h : Reach Start (Guarded InsertsUnlinked Step) cpu)
    {p : Fin 16} {t : θ} (ht : cpu.links.On (some p) t)
    : cpu.priority t ≤ cpu.priority (cpu.threadNext.getD cpu.threadCurrent) := by
  have hordered : cpu.Ordered := by
    refine h.invariant ?_ ?_
    . intro cpu
      exact Ordered.start
    . intro cpu c cpu'
      exact Ordered.step
  rcases hordered with ⟨q, hr, hstrict⟩
  rw [(hr.queue (some p)).on_iff] at ht
  exact hstrict.le_bound ht

def fourThreads : LinkedCpu Nat where
  threadCurrent := 0
  threadNext := none
  idleThread := 0
  thread := fun t => ⟨.null, if t = 0 then 0 else if t = 1 then 6 else if t = 4 then 9 else 7, 30⟩
  queues := ⟨fun _ => none, .head, fun _ => none, fun _ => .head none⟩
  runMask := 0
  preemptionTimer := none
  softintPending := false

theorem fourThreads_start : Start fourThreads := ⟨rfl, rfl, fun _ => ⟨rfl, rfl⟩, rfl, rfl⟩

theorem fourThreads_unlinked (t : Nat) : fourThreads.Unlinked t := by
  intro h hon
  induction hon with
  | first ht => cases ht
  | next _ hu _ => cases hu

theorem strict_priority_queued
    : ∃ cpu : LinkedCpu Nat, Reach Start (Guarded InsertsUnlinked Step) cpu ∧
        cpu.links.On (some 6) 1 ∧
        cpu.priority 1 ≤ cpu.priority (cpu.threadNext.getD cpu.threadCurrent) := by
  have h2 : Reach Start (Guarded InsertsUnlinked Step) _ :=
    Reach.next (.start fourThreads_start) (e := .resume 2) ⟨.inr (fourThreads_unlinked 2), rfl⟩
  have h1 : Reach Start (Guarded InsertsUnlinked Step) _ :=
    h2.next (e := .resume 1) ⟨.inr (fourThreads_unlinked 1), rfl⟩
  refine ⟨_, h1, .first rfl, strict_priority h1 (p := 6) (.first rfl)⟩

def overtaken (r : Except Fault (LinkedCpu Nat)) : Bool :=
  match r with
  | .ok cpu => cpu.links.first (some 7) == some 4 &&
    cpu.priority (cpu.threadNext.getD cpu.threadCurrent) < cpu.priority 4
  | .error _ => false

theorem overtaken_eq {r : Except Fault (LinkedCpu Nat)} (h : overtaken r = true)
    : ∃ cpu, r = .ok cpu ∧ cpu.links.first (some 7) = some 4 ∧
        cpu.priority (cpu.threadNext.getD cpu.threadCurrent) < cpu.priority 4 := by
  cases r with
  | error fault => cases h
  | ok cpu =>
    simp only [overtaken, Bool.and_eq_true, beq_iff_eq, decide_eq_true_eq] at h
    exact ⟨cpu, rfl, h⟩

theorem exit_links_done_thread
    : ∃ cpu : LinkedCpu Nat, Reach Start Step cpu ∧ cpu.links.On (some 7) 4 ∧
        ¬ cpu.priority 4 ≤ cpu.priority (cpu.threadNext.getD cpu.threadCurrent) := by
  have hrun : overtaken ([.resume 1, .resume 2, .preempt, .resume 3, .reschedule, .preempt, .exit,
    .resume 4, .preempt, .exit].foldlM exec fourThreads) = true := by decide +kernel
  rcases overtaken_eq hrun with ⟨cpu, heq, hfirst, hlt⟩
  exact ⟨cpu, Reach.foldlM (fun _ _ _ _ h => h) (.start fourThreads_start) heq, .first hfirst, not_le_of_gt hlt⟩

end Run

end LinkedCpu
end Nyy
