import NyyKernel.Lib.Run
import NyyKernel.Sched.Lemmas

namespace Nyy
namespace Cpu

section Bound

variable {θ : Type} {cpu cpu' : Cpu θ} {p : Fin 16} {t : θ}

def bound (cpu : Cpu θ) : θ := cpu.threadNext.getD cpu.threadCurrent

structure Strict (cpu : Cpu θ) : Prop where
  sorted : cpu.Sorted
  idle : cpu.priority cpu.idleThread = 0
  queued : ∀ p, cpu.runQueues p ≠ [] → p ≤ cpu.priority cpu.bound
  next : ∀ n, cpu.threadNext = some n → cpu.priority cpu.threadCurrent ≤ cpu.priority n

theorem Strict.le_bound (h : cpu.Strict) (ht : t ∈ cpu.runQueues p)
    : cpu.priority t ≤ cpu.priority cpu.bound := by
  rw [h.sorted p t ht]
  exact h.queued p (List.ne_nil_of_mem ht)

theorem Popped.nonempty (h : Popped cpu cpu' t p)
    : cpu.runQueues p ≠ [] ∧ ∀ i, cpu'.runQueues i ≠ [] → cpu.runQueues i ≠ [] := by
  rcases h.queue with ⟨rest, hq, hq'⟩
  constructor
  . simp [hq]
  . intro i hi
    by_cases hip : i = p
    . subst hip
      simp [hq]
    . rwa [hq', Function.update_of_ne hip] at hi

theorem Popped.le_of_highest (h : Popped cpu cpu' t p) (hhigh : ∀ i, p < i → cpu.runQueues i = [])
    {i : Fin 16} (hi : cpu'.runQueues i ≠ [])
    : i ≤ p := by
  by_contra hlt
  exact h.nonempty.2 i hi (hhigh i (lt_of_not_ge hlt))

theorem nonempty_of_push {q : Fin 16}
    (hq : cpu'.runQueues = Function.update cpu.runQueues q (cpu.runQueues q ++ [t]))
    (hp : cpu'.runQueues p ≠ [])
    : cpu.runQueues p ≠ [] ∨ p = q := by
  by_cases hpq : p = q
  . exact .inr hpq
  . rw [hq, Function.update_of_ne hpq] at hp
    exact .inl hp

theorem bound_eq_next {n : θ} (h : cpu.threadNext = some n) : cpu.bound = n := by
  unfold bound
  rw [h]
  rfl

theorem Popped.priority (h : Popped cpu cpu' t p) (hs : cpu.Sorted) : cpu.priority t = p := by
  rcases h.queue with ⟨rest, hq, -⟩
  apply hs p
  simp [hq]

end Bound

section Steps

variable {θ : Type} [DecidableEq θ] {cpu cpu' : Cpu θ}

theorem schedPreempt_eq_ok (h : schedPreempt cpu = .ok cpu')
    : ∃ n cpu1, cpu.threadNext = some n ∧
        (cpu.threadCurrent = cpu.idleThread ∧ cpu1 = { cpu with threadNext := none } ∨
          cpu.threadCurrent ≠ cpu.idleThread ∧
            schedInsert 2 { cpu with threadNext := none } cpu.threadCurrent = .ok cpu1) ∧
        cpu' = schedSwitchThread cpu1 n := by
  unfold schedPreempt at h
  dsimp only at h
  cases hn : cpu.threadNext with
  | none =>
    rw [hn] at h
    split at h
    . rcases Except.bind_eq_ok h with ⟨cpu1, hins, h1⟩
      cases h1
    . cases h
  | some n =>
    rw [hn] at h
    by_cases hcur : cpu.threadCurrent = cpu.idleThread
    . rw [if_neg (by simpa using hcur)] at h
      cases h
      exact ⟨n, _, rfl, .inl ⟨hcur, rfl⟩, rfl⟩
    . rw [if_pos hcur] at h
      rcases Except.bind_eq_ok h with ⟨cpu1, hins, h1⟩
      cases h1
      exact ⟨n, cpu1, rfl, .inr ⟨hcur, hins⟩, rfl⟩

namespace Strict

omit [DecidableEq θ] in
theorem insert {t : θ} (h : cpu.Strict) (hframe : InsertFrame cpu cpu' t) (hcase : InsertCase cpu cpu' t)
    : cpu'.Strict := by
  have hsorted := hcase.sorted hframe h.sorted
  have hidle : cpu'.priority cpu'.idleThread = 0 := by
    rw [hframe.same.priority, hframe.same.idle]
    exact h.idle
  cases hcase with
  | queued hprio hnext hqueues =>
    have hbound : cpu'.bound = cpu.bound := by
      unfold bound
      rw [hnext, hframe.current]
    refine ⟨hsorted, hidle, ?_, ?_⟩
    . intro p hp
      rw [hframe.same.priority, hbound]
      rcases nonempty_of_push hqueues hp with hp | rfl
      . exact h.queued p hp
      . exact hprio
    . intro n hn
      rw [hframe.same.priority, hframe.same.priority, hframe.current]
      exact h.next n (hnext.symm.trans hn)
  | next hnone hprio hnext hqueues =>
    have hold : cpu.bound = cpu.threadCurrent := by
      unfold bound
      rw [hnone]
      rfl
    refine ⟨hsorted, hidle, ?_, ?_⟩
    . intro p hp
      rw [hqueues] at hp
      have hle := h.queued p hp
      rw [hframe.same.priority, bound_eq_next hnext]
      rw [hold] at hle
      exact hle.trans hprio.le
    . intro n hn
      rw [hnext, Option.some.injEq] at hn
      rw [hframe.same.priority, hframe.same.priority, hframe.current, ← hn]
      exact hprio.le
  | both m hsome hprio hnext hqueues =>
    refine ⟨hsorted, hidle, ?_, ?_⟩
    . intro p hp
      rw [hframe.same.priority, bound_eq_next hnext]
      rcases nonempty_of_push hqueues hp with hp | rfl
      . have hle := h.queued p hp
        rw [bound_eq_next hsome] at hle
        exact hle.trans hprio.le
      . exact le_refl _
    . intro n hn
      rw [hnext, Option.some.injEq] at hn
      rw [hframe.same.priority, hframe.same.priority, hframe.current, ← hn]
      exact (h.next m hsome).trans hprio.le

theorem schedResume {t : θ} (h : cpu.Strict) (hstep : Nyy.schedResume cpu t = .ok cpu') : cpu'.Strict := by
  unfold Nyy.schedResume at hstep
  split at hstep
  . cases hstep
    exact h
  . rcases schedInsert_spec cpu t with ⟨cpu1, heq, hframe, hcase⟩
    rw [heq] at hstep
    cases hstep
    exact h.insert hframe hcase

theorem schedReschedule (h : cpu.Strict) : (Nyy.schedReschedule cpu).Strict := by
  unfold Nyy.schedReschedule
  split
  . exact h
  . next n cpu1 heq =>
    rcases schedNext_highest heq with ⟨p, hp, hpop, hhigh⟩
    have hsorted := h.sorted.popped hpop
    refine ⟨hsorted, ?_, ?_, ?_⟩
    . exact (hpop.same.priority _).trans ((congrArg cpu.priority hpop.same.idle).trans h.idle)
    . intro i hi
      have hle : i ≤ p := hpop.le_of_highest hhigh hi
      exact hle.trans ((hpop.same.priority n).trans (hpop.priority h.sorted)).ge
    . intro m hm
      cases hm
      show cpu1.priority cpu1.threadCurrent ≤ cpu1.priority n
      rw [hpop.same.priority, hpop.same.priority, hpop.current, hpop.priority h.sorted]
      exact hp

theorem schedYieldInternal (h : cpu.Strict) : (Nyy.schedYieldInternal cpu).Strict := by
  unfold Nyy.schedYieldInternal
  split
  . next heq =>
    refine ⟨h.sorted, h.idle, ?_, ?_⟩
    . intro p hp
      exact absurd (schedNext_eq_none heq (Nat.zero_le _)) hp
    . intro n _
      exact h.idle.trans_le (Fin.zero_le _)
  . next t cpu1 heq =>
    rcases schedNext_highest heq with ⟨p, _, hpop, hhigh⟩
    have ht : cpu1.priority t = p := (hpop.same.priority t).trans (hpop.priority h.sorted)
    have hsorted := h.sorted.popped hpop
    refine ⟨hsorted, ?_, ?_, ?_⟩
    . exact (hpop.same.priority _).trans ((congrArg cpu.priority hpop.same.idle).trans h.idle)
    . intro i hi
      show i ≤ cpu1.priority (cpu1.threadNext.getD t)
      cases hn : cpu1.threadNext with
      | none => exact (hpop.le_of_highest hhigh hi).trans ht.ge
      | some n =>
        have hle := h.queued i (hpop.nonempty.2 i hi)
        rw [bound_eq_next (hpop.next.symm.trans hn)] at hle
        exact hle.trans (hpop.same.priority n).ge
    . intro n hn
      have hle := h.queued p hpop.nonempty.1
      rw [bound_eq_next (hpop.next.symm.trans hn)] at hle
      exact ht.le.trans (hle.trans (hpop.same.priority n).ge)

theorem schedExitDestroy (h : cpu.Strict) : (Nyy.schedExitDestroy cpu).Strict := by
  apply schedYieldInternal
  exact ⟨h.sorted, h.idle, h.queued, h.next⟩

theorem schedPreempt (h : cpu.Strict) (hstep : Nyy.schedPreempt cpu = .ok cpu') : cpu'.Strict := by
  rcases schedPreempt_eq_ok hstep with ⟨n, cpu1, hn, hcase, rfl⟩
  have hqueued : ∀ p, cpu.runQueues p ≠ [] → p ≤ cpu.priority n := by
    intro p hp
    have hle := h.queued p hp
    rwa [bound_eq_next hn] at hle
  rcases hcase with ⟨hcur, rfl⟩ | ⟨hcur, hins⟩
  . exact ⟨h.sorted, h.idle, hqueued, by simp [schedSwitchThread]⟩
  . rcases schedInsert_spec { cpu with threadNext := none } cpu.threadCurrent with
      ⟨cpu2, heq, hframe, hcase⟩
    rw [heq] at hins
    cases hins
    have hsorted := hcase.sorted hframe h.sorted
    cases hcase with
    | queued _ hnext hqueues =>
      refine ⟨hsorted, ?_, ?_, ?_⟩
      . exact (hframe.same.priority _).trans ((congrArg cpu.priority hframe.same.idle).trans h.idle)
      . intro p hp
        have hbound : (schedSwitchThread cpu1 n).bound = n := by
          unfold bound schedSwitchThread
          rw [hnext]
          rfl
        rw [hbound]
        refine le_trans ?_ (hframe.same.priority n).ge
        rcases nonempty_of_push hqueues hp with hp | rfl
        . exact hqueued p hp
        . exact h.next n hn
      . intro m hm
        exact absurd (hnext.symm.trans hm) (by simp)
    -- the current thread does not have a higher priority than itself
    | next _ hprio _ _ => exact absurd hprio (lt_irrefl _)
    | both m hsome _ _ _ => cases hsome

end Strict
end Steps

section Run

variable {θ : Type} [DecidableEq θ]

inductive Call (θ : Type) where
  | resume (thread : θ)
  | reschedule
  | preempt
  | yield
  | exit

def Step (cpu : Cpu θ) : Call θ → Cpu θ → Prop
  | .resume t, cpu' => schedResume cpu t = .ok cpu'
  | .reschedule, cpu' => schedReschedule cpu = cpu'
  | .preempt, cpu' => schedPreempt cpu = .ok cpu'
  | .yield, cpu' => schedYield cpu = cpu'
  | .exit, cpu' => schedExitDestroy cpu = cpu'

theorem Strict.step {cpu cpu' : Cpu θ} {c : Call θ} (h : cpu.Strict) (hstep : Step cpu c cpu')
    : cpu'.Strict := by
  cases c with
  | resume t => exact h.schedResume hstep
  | reschedule =>
    rcases hstep with rfl
    exact h.schedReschedule
  | preempt => exact h.schedPreempt hstep
  | yield =>
    rcases hstep with rfl
    exact h.schedYieldInternal
  | exit =>
    rcases hstep with rfl
    exact h.schedExitDestroy

end Run

end Cpu
end Nyy
