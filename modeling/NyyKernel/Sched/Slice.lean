import NyyKernel.Sched.Linked

namespace Nyy
namespace Cpu

section Mask

variable {θ : Type} {cpu cpu' : Cpu θ}

def Masked (cpu : Cpu θ) : Prop :=
  ∀ p : Fin 16, cpu.runMask.getLsbD p.val = true ↔ cpu.runQueues p ≠ []

theorem getLsbD_bit (p i : Fin 16) : (1#16 <<< p.val).getLsbD i.val = decide (p = i) := by
  rw [← BitVec.twoPow_eq, BitVec.getLsbD_twoPow]
  simp [Fin.ext_iff]

theorem Masked.enqueue [DecidableEq θ] (h : cpu.Masked) (t : θ) : (cpu.enqueue t).Masked := by
  intro p
  unfold Cpu.enqueue
  dsimp only [runQueues, ThreadQueues.insertTail]
  rw [BitVec.getLsbD_or, getLsbD_bit]
  by_cases hp : p = cpu.priority t
  . subst hp
    simp
  . rw [Function.update_of_ne hp, ← h p]
    simp [Ne.symm hp]

theorem Masked.checkTimer (h : cpu.Masked) {t : θ} {p : Fin 16} (hp : cpu.priority t ≤ p)
    (hq : cpu.runQueues p ≠ [])
    : (Nyy.checkTimer cpu t).preemptionTimer.isSome := by
  have hshift : cpu.runMask >>> (cpu.priority t).val ≠ 0 := by
    intro hzero
    have hbit := (h p).mpr hq
    have hsum : (cpu.priority t).val + (p.val - (cpu.priority t).val) = p.val := by omega
    rw [← hsum, ← BitVec.getLsbD_ushiftRight, hzero] at hbit
    simp at hbit
  unfold Nyy.checkTimer
  rw [if_pos hshift]
  rfl

theorem schedNextIn_masked [DecidableEq θ] {t : θ} {is : List (Fin 16)} (hs : cpu.Sorted) (h : cpu.Masked)
    (he : schedNextIn cpu is = some (t, cpu'))
    : cpu'.Masked ∧ cpu'.preemptionTimer = cpu.preemptionTimer := by
  induction is with
  | nil => cases he
  | cons i is ih =>
    rw [schedNextIn_cons] at he
    split at he
    . exact ih he
    . next tp rest hi =>
      have hprio : cpu.priority tp = i := by
        apply hs
        simp [hi]
      dsimp only at he
      split at he
      . next hrest =>
        cases he
        refine ⟨?_, rfl⟩
        intro p
        dsimp only [runQueues]
        rw [BitVec.getLsbD_and, BitVec.getLsbD_not, hprio, getLsbD_bit]
        by_cases hp : p = i
        . subst hp
          simpa using hrest
        . rw [Function.update_of_ne hp, ← h p]
          simp [Ne.symm hp]
      . next hrest =>
        cases he
        refine ⟨?_, rfl⟩
        intro p
        dsimp only [runQueues]
        by_cases hp : p = i
        . subst hp
          have hbit := (h p).mpr (by simp [hi])
          simpa [hbit] using hrest
        . rw [Function.update_of_ne hp]
          exact h p

end Mask

section Insert

variable {θ : Type} [DecidableEq θ] {cpu cpu' : Cpu θ}

theorem schedInsert_timer {fuel : Nat} {t : θ} (he : schedInsert fuel cpu t = .ok cpu')
    : (cpu'.runQueues = cpu.runQueues ∧ cpu'.runMask = cpu.runMask ∧ cpu'.threadNext.isSome) ∨
        (cpu'.runQueues = (cpu.enqueue t).runQueues ∧ cpu'.runMask = (cpu.enqueue t).runMask ∧
          (cpu'.threadNext = none → cpu'.preemptionTimer =
            (Nyy.checkTimer (cpu.enqueue t) cpu.threadCurrent).preemptionTimer)) := by
  induction fuel generalizing cpu with
  | zero => cases he
  | succ fuel ih =>
    have henqueue : ∀ st : ThreadState, ((cpu.setState t st).enqueue t).runQueues =
          (cpu.enqueue t).runQueues ∧
        ((cpu.setState t st).enqueue t).runMask = (cpu.enqueue t).runMask := by
      intro st
      simp only [enqueue, priority_setState]
      exact ⟨rfl, rfl⟩
    have hslice : ∀ u, ((cpu.setState t .ready).thread u).timeslice = (cpu.thread u).timeslice := by
      intro u
      unfold setState
      by_cases hu : u = t
      . subst hu
        simp
      . simp [hu]
    unfold schedInsert at he
    dsimp only at he
    split at he
    . cases he
      right
      rcases checkTimer_eq ((cpu.setState t .ready).enqueue t)
        ((cpu.setState t .ready).threadNext.getD (cpu.setState t .ready).threadCurrent) with
        ⟨timer, heq⟩
      refine ⟨?_, ?_, ?_⟩
      . rw [heq]
        exact (henqueue .ready).1
      . rw [heq]
        exact (henqueue .ready).2
      . intro hnone
        rw [heq] at hnone
        have hnone' : (cpu.setState t .ready).threadNext = none := hnone
        have hprio : ((cpu.setState t .ready).enqueue t).priority cpu.threadCurrent =
            (cpu.enqueue t).priority cpu.threadCurrent := priority_setState cpu t _ .ready
        have hslice' : (((cpu.setState t .ready).enqueue t).thread cpu.threadCurrent).timeslice =
            ((cpu.enqueue t).thread cpu.threadCurrent).timeslice := hslice cpu.threadCurrent
        rw [hnone']
        show (Nyy.checkTimer ((cpu.setState t .ready).enqueue t) cpu.threadCurrent).preemptionTimer = _
        unfold Nyy.checkTimer
        rw [(henqueue .ready).2, hprio, hslice']
        split <;> rfl
    . split at he
      . -- the second call finds that the thread itself runs next
        have hqueues : ((cpu.elect t).enqueue t).runQueues = (cpu.enqueue t).runQueues ∧
            ((cpu.elect t).enqueue t).runMask = (cpu.enqueue t).runMask := by
          simp only [enqueue, priority_elect]
          exact ⟨rfl, rfl⟩
        cases fuel with
        | zero => cases he
        | succ fuel =>
          rcases schedInsert_elect fuel cpu t with ⟨cpu1, heq, _, hsome, _⟩
          have heq := he.symm.trans heq
          rw [Except.ok.injEq] at heq
          subst heq
          rcases ih he with ⟨hq, hm, _⟩ | ⟨hq, hm, _⟩
          . exact .inl ⟨hq, hm, by simp [hsome]⟩
          . right
            refine ⟨hq.trans hqueues.1, hm.trans hqueues.2, ?_⟩
            intro hnone
            rw [hsome] at hnone
            cases hnone
      . cases he
        exact .inl ⟨rfl, rfl, rfl⟩

end Insert

section Steps

variable {θ : Type} {cpu cpu' : Cpu θ}

def Armed (cpu : Cpu θ) : Prop :=
  cpu.threadNext = none → (∃ p, ∃ t ∈ cpu.runQueues p, cpu.priority cpu.threadCurrent ≤ cpu.priority t) →
    cpu.preemptionTimer.isSome

structure Sliced (cpu : Cpu θ) : Prop where
  sorted : cpu.Sorted
  masked : cpu.Masked
  armed : cpu.Armed

theorem Armed.of_next (h : cpu.threadNext.isSome) : cpu.Armed := by
  intro hnone
  rw [hnone] at h
  cases h

theorem Armed.of_queues (h : ∀ p, cpu.priority cpu.threadCurrent ≤ p → cpu.runQueues p = [])
    (hs : cpu.Sorted)
    : cpu.Armed := by
  rintro _ ⟨p, t, ht, hprio⟩
  rw [hs p t ht] at hprio
  rw [h p hprio] at ht
  cases ht

theorem Masked.of_eq (h : cpu.Masked) (hq : cpu'.runQueues = cpu.runQueues)
    (hm : cpu'.runMask = cpu.runMask)
    : cpu'.Masked := by
  intro p
  rw [hq, hm]
  exact h p

def Relieved (cpu : Cpu θ) : Prop :=
  cpu.threadNext.isSome ∨ cpu.preemptionTimer.isSome ∨
    ∀ p, (∀ i, p < i → cpu.runQueues i = []) → (cpu.runQueues p).length ≤ 1

theorem Sliced.schedYieldInternal [DecidableEq θ] (h : cpu.Sliced) (hguard : cpu.Relieved)
    : (Nyy.schedYieldInternal cpu).Sliced := by
  have hyield := schedYieldInternal_spec cpu
  refine ⟨hyield.sorted h.sorted, ?_, ?_⟩
  . unfold Nyy.schedYieldInternal
    split
    . exact h.masked.of_eq rfl rfl
    . next t cpu1 heq => exact (schedNextIn_masked h.sorted h.masked heq).1.of_eq rfl rfl
  . have hsorted := hyield.sorted h.sorted
    revert hsorted
    unfold Nyy.schedYieldInternal
    split
    . next heq =>
      intro hsorted
      refine Armed.of_queues ?_ hsorted
      intro p _
      exact schedNext_eq_none heq (Nat.zero_le _)
    . next t cpu1 heq =>
      intro hsorted
      rcases schedNext_highest heq with ⟨p, _, hpop, hhigh⟩
      have htimer := (schedNextIn_masked h.sorted h.masked heq).2
      rcases hguard with hnext | htimer' | hsingle
      . refine Armed.of_next ?_
        show cpu1.threadNext.isSome
        rw [hpop.next]
        exact hnext
      . intro _ _
        show cpu1.preemptionTimer.isSome
        rw [htimer]
        exact htimer'
      . refine Armed.of_queues ?_ hsorted
        intro i hi
        have hprio : (schedSwitchThread cpu1 t).priority t = p :=
          (hpop.same.priority t).trans (hpop.priority h.sorted)
        have hpi : p ≤ i := hprio ▸ hi
        rcases hpop.queue with ⟨rest, hq, hq'⟩
        have hrest : rest = [] := by
          have hlen := hsingle p hhigh
          rw [hq, List.length_cons] at hlen
          exact List.eq_nil_of_length_eq_zero (by omega)
        show cpu1.runQueues i = []
        rw [hq']
        rcases hpi.eq_or_lt with rfl | hlt
        . rw [Function.update_self, hrest]
        . rw [Function.update_of_ne (ne_of_gt hlt)]
          exact hhigh i hlt

end Steps

section Steps

variable {θ : Type} [DecidableEq θ] {cpu cpu' : Cpu θ}

theorem Sliced.schedInsert {fuel : Nat} {t : θ} (hs : cpu'.Sorted) (hm : cpu.Masked)
    (hcur : cpu'.threadCurrent = cpu.threadCurrent) (hsame : Same cpu cpu')
    (he : Nyy.schedInsert fuel cpu t = .ok cpu')
    : cpu'.Sliced := by
  rcases schedInsert_timer he with ⟨hq, hmask, hnext⟩ | ⟨hq, hmask, htimer⟩
  . exact ⟨hs, hm.of_eq hq hmask, .of_next hnext⟩
  . refine ⟨hs, (hm.enqueue t).of_eq hq hmask, ?_⟩
    rintro hnone ⟨p, u, hu, hprio⟩
    rw [htimer hnone]
    rw [hs p u hu, hcur, hsame.priority] at hprio
    apply (hm.enqueue t).checkTimer (p := p)
    . exact hprio
    . rw [← hq]
      exact List.ne_nil_of_mem hu

theorem Sliced.schedResume {t : θ} (h : cpu.Sliced) (he : Nyy.schedResume cpu t = .ok cpu')
    : cpu'.Sliced := by
  unfold Nyy.schedResume at he
  split at he
  . cases he
    exact h
  . rcases schedInsert_spec cpu t with ⟨cpu1, heq, hframe, hcase⟩
    rw [heq, Except.ok.injEq] at he
    subst he
    exact .schedInsert (hcase.sorted hframe h.sorted) h.masked hframe.current hframe.same heq

def LeavesIdle {θ : Type} (cpu : Cpu θ) : Prop :=
  cpu.threadCurrent ≠ cpu.idleThread ∨ cpu.preemptionTimer.isSome ∨
    ∀ n, cpu.threadNext = some n → ∀ p, cpu.priority n ≤ p → cpu.runQueues p = []

theorem Sliced.schedPreempt (h : cpu.Sliced) (hguard : cpu.LeavesIdle)
    (he : Nyy.schedPreempt cpu = .ok cpu')
    : cpu'.Sliced := by
  rcases schedPreempt_eq_ok he with ⟨n, cpu1, hn, hcase, rfl⟩
  rcases hcase with ⟨hidle, rfl⟩ | ⟨_, hins⟩
  . refine ⟨h.sorted, h.masked, ?_⟩
    rcases hguard with hcur | htimer | hqueues
    . exact absurd hidle hcur
    . exact fun _ _ => htimer
    . exact Armed.of_queues (hqueues n hn) h.sorted
  . -- the current thread goes to its queue, and the timer is installed for it
    rcases schedInsert_spec { cpu with threadNext := none } cpu.threadCurrent with
      ⟨cpu2, heq, hframe, hcase⟩
    rw [hins, Except.ok.injEq] at heq
    subst heq
    have hmasked : Masked { cpu with threadNext := none } := h.masked
    have hsliced : cpu1.Sliced :=
      .schedInsert (hcase.sorted hframe h.sorted) hmasked hframe.current hframe.same hins
    cases hcase with
    | queued _ hnext hqueues =>
      refine ⟨hsliced.sorted, hsliced.masked, ?_⟩
      intro _ _
      apply hsliced.armed hnext
      refine ⟨cpu.priority cpu.threadCurrent, cpu.threadCurrent, ?_, ?_⟩
      . rw [hqueues]
        show cpu.threadCurrent ∈ Function.update cpu.runQueues (cpu.priority cpu.threadCurrent)
          (cpu.runQueues (cpu.priority cpu.threadCurrent) ++ [cpu.threadCurrent])
            (cpu.priority cpu.threadCurrent)
        simp
      . rw [hframe.current]
    | next _ hprio _ _ => exact absurd hprio (lt_irrefl _)
    | both m hsome _ _ _ => cases hsome

end Steps

section Run

inductive SliceOp (θ : Type) where
  | resume (thread : θ)
  | yield
  | preempt
  | exit
  | expire

variable {θ : Type} [DecidableEq θ]

def expireTimer {Q : Type} [ThreadQueues Q θ] (cpu : Cpu θ Q) : Cpu θ Q :=
  schedReschedule { cpu with preemptionTimer := none }

def SliceStep {Q : Type} [ThreadQueues Q θ] (cpu : Cpu θ Q) : SliceOp θ → Cpu θ Q → Prop
  | .resume t, cpu' => schedResume cpu t = .ok cpu'
  | .yield, cpu' => schedYield cpu = cpu'
  | .preempt, cpu' => schedPreempt cpu = .ok cpu'
  | .exit, cpu' => schedExitDestroy cpu = cpu'
  | .expire, cpu' => cpu.preemptionTimer.isSome ∧ cpu.expireTimer = cpu'

omit [DecidableEq θ] in
def Covered (cpu : Cpu θ) : SliceOp θ → Prop
  | .yield => cpu.Relieved
  | .exit => cpu.Relieved
  | .preempt => cpu.LeavesIdle
  | _ => True

variable {cpu cpu' : Cpu θ} {op : SliceOp θ}

theorem Sliced.expireTimer (h : cpu.Sliced) : cpu.expireTimer.Sliced := by
  unfold Cpu.expireTimer schedReschedule
  split
  . next heq =>
    refine ⟨h.sorted, h.masked, Armed.of_queues ?_ h.sorted⟩
    intro p hp
    exact schedNext_eq_none heq hp
  . next t cpu1 heq =>
    rcases schedNext_eq_some heq with ⟨p, _, hpop⟩
    have hsorted : Sorted { cpu with preemptionTimer := none } := h.sorted
    have hsorted1 := hsorted.popped hpop
    have hmasked := (schedNextIn_masked hsorted h.masked heq).1
    exact ⟨hsorted1, hmasked.of_eq rfl rfl, .of_next rfl⟩

omit [DecidableEq θ] in
theorem Sliced.done (h : cpu.Sliced) (ts : List θ) : Sliced { cpu with queues.doneQueue := ts } :=
  ⟨h.sorted, h.masked, h.armed⟩

theorem Sliced.step (h : cpu.Sliced) (hguard : Covered cpu op) (hstep : SliceStep cpu op cpu')
    : cpu'.Sliced := by
  cases op with
  | resume t => exact h.schedResume hstep
  | yield =>
    rcases hstep with rfl
    exact h.schedYieldInternal hguard
  | preempt => exact h.schedPreempt hguard hstep
  | exit =>
    rcases hstep with rfl
    exact (h.done _).schedYieldInternal hguard
  | expire =>
    rcases hstep with ⟨_, rfl⟩
    exact h.expireTimer

theorem Sliced.not_relieved (h : cpu.Sliced) (hguard : ¬ cpu.Relieved)
    : ¬ (Nyy.schedYieldInternal cpu).Armed := by
  unfold Relieved at hguard
  push Not at hguard
  rcases hguard with ⟨hnext, htimer, p, habove, hlen⟩
  unfold Nyy.schedYieldInternal
  split
  . next heq =>
    rw [schedNext_eq_none heq (Nat.zero_le _)] at hlen
    cases hlen
  . next t cpu1 heq =>
    rcases schedNext_highest heq with ⟨p1, _, hpop, hhigh⟩
    have htimer1 := (schedNextIn_masked h.sorted h.masked heq).2
    rcases hpop.queue with ⟨rest, hq, hq'⟩
    -- both are the highest queue that is not empty
    have hp : p1 = p := by
      rcases lt_trichotomy p1 p with hlt | heq | hlt
      . rw [hhigh p hlt] at hlen
        cases hlen
      . exact heq
      . rw [habove p1 hlt] at hq
        cases hq
    subst hp
    rw [hq, List.length_cons] at hlen
    rcases List.exists_mem_of_length_pos (show 0 < rest.length by omega) with ⟨u, hu⟩
    have hprio : cpu1.priority u = cpu1.priority t := by
      rw [hpop.same.priority, hpop.same.priority, hpop.priority h.sorted]
      apply h.sorted
      rw [hq]
      exact List.mem_cons_of_mem _ hu
    intro harmed
    have hsome : cpu1.preemptionTimer.isSome := by
      refine harmed (hpop.next.trans (by simpa using hnext)) ⟨p1, u, ?_, hprio.ge⟩
      show u ∈ cpu1.runQueues p1
      rw [hq', Function.update_self]
      exact hu
    rw [htimer1] at hsome
    exact htimer hsome

theorem Sliced.not_covered (h : cpu.Sliced) (hguard : ¬ Covered cpu op) (hstep : SliceStep cpu op cpu')
    : ¬ cpu'.Armed := by
  cases op with
  | resume t => exact absurd trivial hguard
  | expire => exact absurd trivial hguard
  | yield =>
    rcases hstep with rfl
    exact h.not_relieved hguard
  | exit =>
    rcases hstep with rfl
    exact (h.done _).not_relieved hguard
  | preempt =>
    unfold Covered LeavesIdle at hguard
    push Not at hguard
    rcases hguard with ⟨hidle, htimer, n, hn, p, hp, hq⟩
    rcases schedPreempt_eq_ok hstep with ⟨n1, cpu1, hn1, hcase, rfl⟩
    rw [hn] at hn1
    cases hn1
    rcases hcase with ⟨_, rfl⟩ | ⟨hcur, _⟩
    . rcases List.exists_mem_of_ne_nil _ hq with ⟨u, hu⟩
      intro harmed
      have hprio : cpu.priority n ≤ cpu.priority u := by
        rw [h.sorted p u hu]
        exact hp
      exact htimer (harmed rfl ⟨p, u, hu, hprio⟩)
    . exact absurd hidle hcur

end Run

end Cpu

namespace LinkedCpu

open Tailq Cpu

section Run

variable {θ : Type} {cpu cpu' : LinkedCpu θ} {q : QueueHead → List θ} {op : SliceOp θ}

def SliceInit (cpu : LinkedCpu θ) : Prop :=
  cpu.threadCurrent = cpu.idleThread ∧ cpu.threadNext = none ∧ cpu.links.Empty ∧ cpu.runMask = 0 ∧
    cpu.preemptionTimer = none

def Separate (cpu : LinkedCpu θ) : SliceOp θ → Prop
  | .resume t => cpu.InsertsUnlinked (.resume t)
  | .preempt => cpu.InsertsUnlinked .preempt
  | .exit => cpu.InsertsUnlinked .exit
  | _ => True

-- for the threads that the links of the queues lead to
def Covered (cpu : LinkedCpu θ) (op : SliceOp θ) : Prop :=
  ∀ q, Rep cpu.links q → (cpu.view q).Covered op

def SliceGuard (cpu : LinkedCpu θ) (op : SliceOp θ) : Prop := cpu.Separate op ∧ cpu.Covered op

def Armed (cpu : LinkedCpu θ) : Prop :=
  cpu.threadNext = none →
    (∃ p t, cpu.links.On (some p) t ∧ cpu.priority cpu.threadCurrent ≤ cpu.priority t) →
    cpu.preemptionTimer.isSome

def Sliced (cpu : LinkedCpu θ) : Prop := ∃ q, Rep cpu.links q ∧ (cpu.view q).Sliced

theorem armed_view (hr : Rep cpu.links q) : (cpu.view q).Armed ↔ cpu.Armed := by
  have hon : ∀ p t, cpu.links.On (some p) t ↔ t ∈ (cpu.view q).runQueues p := by
    intro p
    exact (hr.queue (some p)).on_iff
  unfold Armed Cpu.Armed
  simp only [hon]
  rfl

theorem Sliced.init (h : SliceInit cpu) : cpu.Sliced := by
  rcases h with ⟨_, _, hempty, hmask, _⟩
  have hsorted : (cpu.view fun _ => []).Sorted := by
    intro p t ht
    cases ht
  refine ⟨_, Rep.of_empty hempty, hsorted, ?_, .of_queues (fun _ _ => rfl) hsorted⟩
  intro p
  simp [Cpu.view, Queues.of, hmask]

variable [DecidableEq θ]

theorem sliceStep_view (hr : Rep cpu.links q) (hguard : cpu.Separate op) (hstep : SliceStep cpu op cpu')
    : ∃ q', Rep cpu'.links q' ∧ SliceStep (cpu.view q) op (cpu'.view q') := by
  have hunlinked : ∀ t, cpu.Unlinked t → ∀ h, t ∉ q h := by
    intro t ht h hmem
    exact ht h (((hr.queue h).on_iff t).mpr hmem)
  cases op with
  | resume t => exact schedResume_view hr (hguard.imp_right (hunlinked t)) hstep
  | preempt => exact schedPreempt_view hr (hguard.imp_right (hunlinked _)) hstep
  | yield =>
    rcases hstep with rfl
    exact schedYieldInternal_view hr
  | exit =>
    rcases hstep with rfl
    exact schedExitDestroy_view hr (hunlinked _ hguard)
  | expire =>
    rcases hstep with ⟨hon, rfl⟩
    have hr1 : Rep ({ cpu with preemptionTimer := none } : LinkedCpu θ).links q := hr
    rcases schedReschedule_view hr1 with ⟨q', hr', hview⟩
    exact ⟨q', hr', hon, hview⟩

theorem Sliced.step (h : cpu.Sliced) (hstep : Guarded SliceGuard SliceStep cpu op cpu')
    : cpu'.Sliced := by
  rcases h with ⟨q, hr, hsliced⟩
  rcases hstep with ⟨⟨hsep, hcov⟩, hstep⟩
  rcases sliceStep_view hr hsep hstep with ⟨q', hr', hview⟩
  exact ⟨q', hr', hsliced.step (hcov q hr) hview⟩

theorem Sliced.of_reach (hr : Reach SliceInit (Guarded SliceGuard SliceStep) cpu) : cpu.Sliced :=
  hr.invariant (fun _ h => .init h) (fun _ _ _ h hstep => h.step hstep)

/--
As long as the timer was always installed when it is needed, a call keeps it so exactly if it is covered.
-/
theorem step_keeps_timer_iff (hr : Reach SliceInit (Guarded SliceGuard SliceStep) cpu)
    (hsep : cpu.Separate op) (hstep : SliceStep cpu op cpu')
    : cpu'.Armed ↔ cpu.Covered op := by
  rcases Sliced.of_reach hr with ⟨q, hrep, hsliced⟩
  rcases sliceStep_view hrep hsep hstep with ⟨q', hrep', hview⟩
  rw [← armed_view hrep']
  constructor
  . intro harmed q1 hrep1
    rw [hrep1.unique hrep]
    by_contra hguard
    exact hsliced.not_covered hguard hview harmed
  . intro hguard
    exact (hsliced.step (hguard q hrep) hview).armed

/--
In every run in which no linked thread is inserted, and no switch relies on a timer that is not
installed, the timer is installed whenever a queued thread has a claim to the CPU.
-/
theorem timer_armed {cpu : LinkedCpu θ} (hr : Reach SliceInit (Guarded SliceGuard SliceStep) cpu)
    : cpu.threadNext = none →
        (∃ p t, cpu.links.On (some p) t ∧ cpu.priority cpu.threadCurrent ≤ cpu.priority t) →
        cpu.preemptionTimer.isSome := by
  rcases Sliced.of_reach hr with ⟨q, hrep, hsliced⟩
  exact (armed_view hrep).mp hsliced.armed

end Run

theorem fourThreads_sliceInit : SliceInit fourThreads :=
  ⟨rfl, rfl, fun _ => ⟨rfl, rfl⟩, rfl, rfl⟩

-- a thread is resumed and replaces the idle thread
def started (t : Nat) : LinkedCpu Nat :=
  { fourThreads.setState t .ready |>.setState t .standby with threadCurrent := t, softintPending := true }

theorem started_reach {t : Nat}
    (h : schedResume fourThreads t = .ok { started t with threadCurrent := 0, threadNext := some t })
    : Reach SliceInit (Guarded SliceGuard SliceStep) (started t) := by
  have h1 : Reach SliceInit (Guarded SliceGuard SliceStep) _ :=
    Reach.next (.start fourThreads_sliceInit) (e := .resume t)
      ⟨⟨.inr (fourThreads_unlinked t), fun _ _ => trivial⟩, h⟩
  refine h1.next (e := .preempt) ⟨⟨.inl rfl, ?_⟩, rfl⟩
  intro q hrep
  rw [hrep.unique (Rep.of_empty fun _ => ⟨rfl, rfl⟩)]
  exact .inr (.inr fun _ _ _ _ => rfl)

-- two threads of one priority are queued below the current thread
theorem queued_reach
    : ∃ cpu : LinkedCpu Nat, Reach SliceInit (Guarded SliceGuard SliceStep) cpu ∧
        cpu.Unlinked cpu.threadCurrent ∧ ¬ Armed (schedExitDestroy cpu) := by
  have hrep : Rep (started 4).links fun _ => [] := Rep.of_empty fun _ => ⟨rfl, rfl⟩
  have hrep2 := hrep.insertTail (t := 2) (fun _ => List.not_mem_nil) (some 7)
  have hout3 : ∀ h : QueueHead, 3 ∉ Function.update (fun _ => []) (some 7) ([] ++ [2]) h := by
    intro h
    by_cases hh : h = some 7 <;> simp [hh]
  have hrep3 := hrep2.insertTail (t := 3) hout3 (some 7)
  have h2 : Reach SliceInit (Guarded SliceGuard SliceStep) _ :=
    (started_reach (t := 4) rfl).next (e := .resume 2)
      ⟨⟨.inr (fourThreads_unlinked 2), fun _ _ => trivial⟩, rfl⟩
  have h3 : Reach SliceInit (Guarded SliceGuard SliceStep) _ :=
    h2.next (e := .resume 3) ⟨⟨.inr (.of_rep hrep2 hout3), fun _ _ => trivial⟩, rfl⟩
  refine ⟨_, h3, .of_rep hrep3 ?_, ?_⟩
  . intro h
    show 4 ∉ _
    by_cases hh : h = some 7 <;> simp [hh]
  . intro harmed
    cases harmed rfl ⟨7, 3, .first rfl, by decide⟩

theorem step_keeps_timer_iff_exit
    : ∃ cpu : LinkedCpu Nat, Reach SliceInit (Guarded SliceGuard SliceStep) cpu ∧
        ¬ Armed (schedExitDestroy cpu) ∧ ¬ cpu.Covered .exit := by
  rcases queued_reach with ⟨cpu, hreach, hunlinked, hoff⟩
  refine ⟨cpu, hreach, hoff, ?_⟩
  have hiff : Armed (schedExitDestroy cpu) ↔ cpu.Covered .exit := step_keeps_timer_iff hreach hunlinked rfl
  rwa [← hiff]

theorem timer_armed_equal
    : ∃ cpu : LinkedCpu Nat, Reach SliceInit (Guarded SliceGuard SliceStep) cpu ∧
        cpu.threadCurrent = 2 ∧ cpu.links.On (some 7) 3 ∧ cpu.preemptionTimer.isSome := by
  have h1 : Reach SliceInit (Guarded SliceGuard SliceStep) _ :=
    (started_reach (t := 2) rfl).next (e := .resume 3)
      ⟨⟨.inr (fourThreads_unlinked 3), fun _ _ => trivial⟩, rfl⟩
  exact ⟨_, h1, rfl, .first rfl, timer_armed h1 rfl ⟨7, 3, .first rfl, by decide⟩⟩

theorem exit_leaves_timer_off
    : ∃ cpu : LinkedCpu Nat, Reach SliceInit SliceStep cpu ∧
        ¬ (cpu.threadNext = none →
          (∃ p t, cpu.links.On (some p) t ∧ cpu.priority cpu.threadCurrent ≤ cpu.priority t) →
          cpu.preemptionTimer.isSome) := by
  rcases queued_reach with ⟨cpu, hreach, _, hoff⟩
  exact ⟨_, hreach.unguarded.next (e := .exit) rfl, hoff⟩

end LinkedCpu
end Nyy
