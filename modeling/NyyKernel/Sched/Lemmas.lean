import NyyKernel.Sched.Impl

namespace Nyy
namespace Cpu

section Places

variable {θ : Type}

def ready (cpu : Cpu θ) : List θ := cpu.threadNext.toList ++ Buckets.all cpu.runQueues

def places (cpu : Cpu θ) : List θ := cpu.threadCurrent :: cpu.ready

def Sorted (cpu : Cpu θ) : Prop := ∀ p, ∀ t ∈ cpu.runQueues p, cpu.priority t = p

structure Same (cpu cpu' : Cpu θ) : Prop where
  idle : cpu'.idleThread = cpu.idleThread
  priority : ∀ t, cpu'.priority t = cpu.priority t

theorem checkTimer_eq {Q : Type} (cpu : Cpu θ Q) (t : θ)
    : ∃ timer, checkTimer cpu t = { cpu with preemptionTimer := timer } := by
  unfold checkTimer
  split
  . exact ⟨_, rfl⟩
  . exact ⟨_, rfl⟩

end Places

section Insert

variable {θ : Type} [DecidableEq θ]

@[simp]
theorem priority_setState (cpu : Cpu θ) (t u : θ) (st : ThreadState)
    : (cpu.setState t st).priority u = cpu.priority u := by
  unfold priority setState
  dsimp only
  by_cases h : u = t
  . subst h
    rw [Function.update_self]
  . rw [Function.update_of_ne h]

theorem state_setState_self (cpu : Cpu θ) (t : θ) (st : ThreadState)
    : ((cpu.setState t st).thread t).state = st := by
  simp [setState]

theorem state_setState_of_ne (cpu : Cpu θ) {t u : θ} (st : ThreadState) (h : u ≠ t)
    : ((cpu.setState t st).thread u).state = (cpu.thread u).state := by
  simp [setState, h]

structure InsertFrame (cpu cpu' : Cpu θ) (t : θ) : Prop where
  same : Same cpu cpu'
  current : cpu'.threadCurrent = cpu.threadCurrent
  done : cpu'.doneQueue = cpu.doneQueue
  state : ∀ u, u ≠ t → (cpu'.thread u).state = (cpu.thread u).state

inductive InsertCase (cpu cpu' : Cpu θ) (t : θ) : Prop where
  | queued (hprio : cpu.priority t ≤ cpu.priority (cpu.threadNext.getD cpu.threadCurrent))
      (hnext : cpu'.threadNext = cpu.threadNext)
      (hqueues : cpu'.runQueues = Function.update cpu.runQueues (cpu.priority t)
        (cpu.runQueues (cpu.priority t) ++ [t]))
  | next (hnone : cpu.threadNext = none) (hprio : cpu.priority cpu.threadCurrent < cpu.priority t)
      (hnext : cpu'.threadNext = some t) (hqueues : cpu'.runQueues = cpu.runQueues)
  | both (n : θ) (hsome : cpu.threadNext = some n) (hprio : cpu.priority n < cpu.priority t)
      (hnext : cpu'.threadNext = some t)
      (hqueues : cpu'.runQueues = Function.update cpu.runQueues (cpu.priority t)
        (cpu.runQueues (cpu.priority t) ++ [t]))

theorem schedInsert_of_le (fuel : Nat) {cpu : Cpu θ} {t : θ}
    (h : cpu.priority t ≤ cpu.priority (cpu.threadNext.getD cpu.threadCurrent))
    : ∃ cpu', schedInsert (fuel + 1) cpu t = .ok cpu' ∧ InsertFrame cpu cpu' t ∧
        cpu'.threadNext = cpu.threadNext ∧
        cpu'.runQueues = Function.update cpu.runQueues (cpu.priority t)
          (cpu.runQueues (cpu.priority t) ++ [t]) := by
  unfold schedInsert
  dsimp only
  rw [priority_setState, priority_setState]
  rw [if_pos (by exact h)]
  rcases checkTimer_eq ((cpu.setState t .ready).enqueue t)
    ((cpu.setState t .ready).threadNext.getD (cpu.setState t .ready).threadCurrent) with ⟨timer, heq⟩
  rw [heq]
  refine ⟨_, rfl, ⟨⟨rfl, ?_⟩, rfl, rfl, ?_⟩, rfl, ?_⟩
  . intro u
    exact priority_setState cpu t u .ready
  . intro u hu
    exact state_setState_of_ne cpu .ready hu
  . simp only [enqueue, priority_setState]
    rfl

def elect (cpu : Cpu θ) (t : θ) : Cpu θ :=
  { (cpu.setState t .ready).setState t .standby with threadNext := some t }

theorem priority_elect (cpu : Cpu θ) (t u : θ) : (cpu.elect t).priority u = cpu.priority u := by
  exact (priority_setState _ t u _).trans (priority_setState cpu t u _)

theorem schedInsert_elect (fuel : Nat) (cpu : Cpu θ) (t : θ)
    : ∃ cpu', schedInsert (fuel + 1) (cpu.elect t) t = .ok cpu' ∧ InsertFrame (cpu.elect t) cpu' t ∧
        cpu'.threadNext = some t ∧
        cpu'.runQueues = Function.update cpu.runQueues (cpu.priority t)
          (cpu.runQueues (cpu.priority t) ++ [t]) := by
  -- the call compares `t` with itself
  have h := @schedInsert_of_le θ _ fuel (cpu.elect t) t (le_refl _)
  rwa [priority_elect] at h

theorem schedInsert_spec (cpu : Cpu θ) (t : θ)
    : ∃ cpu', schedInsert 2 cpu t = .ok cpu' ∧ InsertFrame cpu cpu' t ∧ InsertCase cpu cpu' t := by
  by_cases hprio : cpu.priority t ≤ cpu.priority (cpu.threadNext.getD cpu.threadCurrent)
  . rcases schedInsert_of_le 1 hprio with ⟨cpu', heq, hframe, hnext, hqueues⟩
    exact ⟨cpu', heq, hframe, .queued hprio hnext hqueues⟩
  . rw [not_le] at hprio
    unfold schedInsert
    dsimp only
    rw [priority_setState, priority_setState, if_neg (by exact not_le_of_gt hprio)]
    cases hnext : cpu.threadNext with
    | none =>
      rw [hnext] at hprio
      refine ⟨_, if_neg ?_, ⟨⟨rfl, ?_⟩, rfl, rfl, ?_⟩, .next hnext hprio rfl rfl⟩
      . simp [setState, hnext]
      . exact priority_elect cpu t
      . intro u hu
        exact (state_setState_of_ne _ _ hu).trans (state_setState_of_ne cpu _ hu)
    | some n =>
      rw [hnext] at hprio
      rcases schedInsert_elect 0 cpu t with ⟨cpu', heq, hframe, hnext', hqueues⟩
      refine ⟨cpu', ?_, ⟨⟨hframe.same.idle, ?_⟩, hframe.current, hframe.done, ?_⟩,
        .both n hnext hprio hnext' hqueues⟩
      . rw [if_pos (by simp [setState, hnext])]
        exact heq
      . intro u
        rw [hframe.same.priority, priority_elect]
      . intro u hu
        rw [hframe.state u hu]
        exact (state_setState_of_ne _ _ hu).trans (state_setState_of_ne cpu _ hu)

end Insert

section Next

variable {θ : Type} [DecidableEq θ] {cpu cpu' : Cpu θ} {t : θ} {b : Nat} {p : Fin 16}

theorem schedNextIn_cons (cpu : Cpu θ) (i : Fin 16) (is : List (Fin 16))
    : schedNextIn cpu (i :: is) = match cpu.runQueues i with
        | [] => schedNextIn cpu is
        | tp :: rest =>
          let cpu' := { cpu with queues.runQueues := Function.update cpu.runQueues i rest }
          if rest.isEmpty then
            some (tp, { cpu' with runMask := cpu.runMask &&& ~~~ (1#16 <<< (cpu.priority tp).val) })
          else
            some (tp, cpu') := by
  conv =>
    lhs
    unfold schedNextIn
  cases h : cpu.runQueues i with
  | nil => simp [ThreadQueues.first, h]
  | cons tp rest => cases rest <;> simp [ThreadQueues.first, ThreadQueues.remove, h]

structure Popped (cpu cpu' : Cpu θ) (t : θ) (p : Fin 16) : Prop where
  same : Same cpu cpu'
  current : cpu'.threadCurrent = cpu.threadCurrent
  next : cpu'.threadNext = cpu.threadNext
  done : cpu'.doneQueue = cpu.doneQueue
  thread : cpu'.thread = cpu.thread
  queue : ∃ rest, cpu.runQueues p = t :: rest ∧
    cpu'.runQueues = Function.update cpu.runQueues p rest

theorem schedNextIn_eq_none {is : List (Fin 16)} (h : schedNextIn cpu is = none)
    : ∀ p ∈ is, cpu.runQueues p = [] := by
  induction is with
  | nil => simp
  | cons i is ih =>
    rw [schedNextIn_cons] at h
    split at h
    . next hi =>
      intro p hp
      rcases List.mem_cons.mp hp with rfl | hp
      . exact hi
      . exact ih h p hp
    . dsimp only at h
      split at h <;> cases h

theorem schedNextIn_eq_some {is : List (Fin 16)} (h : schedNextIn cpu is = some (t, cpu'))
    : ∃ before p after, is = before ++ p :: after ∧ (∀ i ∈ before, cpu.runQueues i = []) ∧
        Popped cpu cpu' t p := by
  induction is with
  | nil => cases h
  | cons i is ih =>
    rw [schedNextIn_cons] at h
    split at h
    . next hi =>
      rcases ih h with ⟨before, p, after, heq, hempty, hpop⟩
      refine ⟨i :: before, p, after, by rw [heq]; rfl, ?_, hpop⟩
      intro j hj
      rcases List.mem_cons.mp hj with rfl | hj
      . exact hi
      . exact hempty j hj
    . next tp rest hi =>
      refine ⟨[], i, is, rfl, by simp, ?_⟩
      dsimp only at h
      split at h
      . cases h
        exact ⟨⟨rfl, fun _ => rfl⟩, rfl, rfl, rfl, rfl, rest, hi, rfl⟩
      . cases h
        exact ⟨⟨rfl, fun _ => rfl⟩, rfl, rfl, rfl, rfl, rest, hi, rfl⟩

theorem schedNext_eq_none (h : schedNext cpu b = none) {p : Fin 16} (hp : b ≤ p.val)
    : cpu.runQueues p = [] := by
  apply schedNextIn_eq_none h
  simp [hp]

theorem schedNext_highest (h : schedNext cpu b = some (t, cpu'))
    : ∃ p : Fin 16, b ≤ p.val ∧ Popped cpu cpu' t p ∧ ∀ i, p < i → cpu.runQueues i = [] := by
  rcases schedNextIn_eq_some h with ⟨before, p, after, heq, hempty, hpop⟩
  have hmem : ∀ i : Fin 16, i ∈ before ++ p :: after ↔ b ≤ i.val := by
    intro i
    rw [← heq]
    simp
  have hsorted : (before ++ p :: after).Pairwise (· > ·) := by
    rw [← heq]
    exact List.Pairwise.filter _ (by decide)
  have hbp : b ≤ p.val := (hmem p).mp (by simp)
  refine ⟨p, hbp, hpop, ?_⟩
  intro i hi
  have hin : i ∈ before ++ p :: after := (hmem i).mpr (by omega)
  rw [List.pairwise_append, List.pairwise_cons] at hsorted
  rcases List.mem_append.mp hin with hin | hin
  . exact hempty i hin
  . rcases List.mem_cons.mp hin with rfl | hin
    . exact absurd hi (lt_irrefl i)
    . exact absurd hi (not_lt_of_gt (hsorted.2.1.1 i hin))

theorem schedNext_eq_some (h : schedNext cpu b = some (t, cpu'))
    : ∃ p : Fin 16, b ≤ p.val ∧ Popped cpu cpu' t p := by
  rcases schedNext_highest h with ⟨p, hp, hpop, -⟩
  exact ⟨p, hp, hpop⟩

end Next

section Effect

variable {θ : Type} {cpu cpu' : Cpu θ} {t : θ} {p : Fin 16}

theorem Popped.perm (h : Popped cpu cpu' t p)
    : (t :: Buckets.all cpu'.runQueues).Perm (Buckets.all cpu.runQueues) := by
  rcases h.queue with ⟨rest, hq, hq'⟩
  rw [hq']
  exact Buckets.all_pop hq

theorem Sorted.popped (hs : Sorted cpu) (h : Popped cpu cpu' t p) : Sorted cpu' := by
  rcases h.queue with ⟨rest, hq, hq'⟩
  intro i u hu
  rw [h.same.priority]
  apply hs
  rw [hq'] at hu
  by_cases hi : i = p
  . subst hi
    rw [Function.update_self] at hu
    rw [hq]
    exact List.mem_cons_of_mem _ hu
  . rwa [Function.update_of_ne hi] at hu

theorem Sorted.pushed (hs : Sorted cpu) (hsame : Same cpu cpu')
    (hq : cpu'.runQueues = Function.update cpu.runQueues (cpu.priority t)
      (cpu.runQueues (cpu.priority t) ++ [t]))
    : Sorted cpu' := by
  intro i u hu
  rw [hsame.priority]
  rw [hq] at hu
  by_cases hi : i = cpu.priority t
  . subst hi
    rw [Function.update_self, List.mem_append, List.mem_singleton] at hu
    rcases hu with hu | rfl
    . exact hs _ u hu
    . rfl
  . rw [Function.update_of_ne hi] at hu
    exact hs i u hu

theorem Sorted.kept (hs : Sorted cpu) (hsame : Same cpu cpu') (hq : cpu'.runQueues = cpu.runQueues)
    : Sorted cpu' := by
  intro i u hu
  rw [hsame.priority]
  rw [hq] at hu
  exact hs i u hu

theorem InsertCase.perm {cpu cpu' : Cpu θ} {t : θ} (hcase : InsertCase cpu cpu' t)
    (hguard : ∀ n, cpu.threadNext = some n → cpu.priority t ≤ cpu.priority n)
    : cpu'.ready.Perm (t :: cpu.ready) := by
  unfold ready
  cases hcase with
  | queued _ hnext hqueues =>
    rw [hnext, hqueues]
    exact ((Buckets.all_push _ _ t).append_left _).trans List.perm_middle
  | next hnone _ hnext hqueues =>
    rw [hnext, hqueues, hnone]
    exact .refl _
  | both n hsome hprio _ _ => exact absurd (hguard n hsome) (not_le_of_gt hprio)

theorem InsertCase.sorted {cpu cpu' : Cpu θ} {t : θ} (hcase : InsertCase cpu cpu' t)
    (hframe : InsertFrame cpu cpu' t) (hs : Sorted cpu)
    : Sorted cpu' := by
  cases hcase with
  | queued _ _ hqueues => exact hs.pushed hframe.same hqueues
  | next _ _ _ hqueues => exact hs.kept hframe.same hqueues
  | both _ _ _ _ hqueues => exact hs.pushed hframe.same hqueues

structure Yielded (cpu cpu' : Cpu θ) : Prop where
  same : Same cpu cpu'
  done : cpu'.doneQueue = cpu.doneQueue
  thread : cpu'.thread = cpu.thread
  sorted : Sorted cpu → Sorted cpu'
  places : (cpu'.threadCurrent = cpu.idleThread ∧ cpu'.ready = cpu.ready) ∨
    cpu'.places.Perm cpu.ready

theorem schedYieldInternal_spec [DecidableEq θ] (cpu : Cpu θ) : Yielded cpu (schedYieldInternal cpu) := by
  unfold schedYieldInternal
  split
  . exact ⟨⟨rfl, fun _ => rfl⟩, rfl, rfl, fun hs => hs, .inl ⟨rfl, rfl⟩⟩
  . next t cpu1 heq =>
    rcases schedNext_eq_some heq with ⟨p, _, hpop⟩
    refine ⟨⟨hpop.same.idle, hpop.same.priority⟩, hpop.done, hpop.thread, ?_, .inr ?_⟩
    . intro hs
      have hsorted := hs.popped hpop
      exact hsorted
    . unfold Cpu.places ready schedSwitchThread
      dsimp only
      rw [hpop.next]
      exact List.perm_middle.symm.trans (hpop.perm.append_left _)

end Effect

section Preempt

variable {θ : Type} [DecidableEq θ]

structure Preempted (cpu cpu' : Cpu θ) : Prop where
  same : Same cpu cpu'
  done : cpu'.doneQueue = cpu.doneQueue
  state : ∀ u, u ≠ cpu.threadCurrent ∨ u = cpu.idleThread →
    (cpu'.thread u).state = (cpu.thread u).state
  sorted : Sorted cpu → Sorted cpu'
  places : cpu'.places.Perm
    (if cpu.threadCurrent = cpu.idleThread then cpu.ready else cpu.places)

theorem schedPreempt_spec {cpu : Cpu θ} {n : θ} (hn : cpu.threadNext = some n)
    : ∃ cpu', schedPreempt cpu = .ok cpu' ∧ Preempted cpu cpu' := by
  have hready : cpu.ready = n :: Buckets.all cpu.runQueues := by
    unfold ready
    rw [hn]
    rfl
  unfold schedPreempt
  rw [hn]
  dsimp only
  by_cases hcur : cpu.threadCurrent = cpu.idleThread
  . rw [if_neg (by simpa using hcur)]
    refine ⟨_, rfl, ⟨rfl, fun _ => rfl⟩, rfl, fun _ _ => rfl, fun hs => hs, ?_⟩
    rw [if_pos hcur, hready]
    exact .refl _
  . rw [if_pos hcur]
    -- the current thread is compared with itself, so it goes to its queue
    rcases schedInsert_spec { cpu with threadNext := none } cpu.threadCurrent with
      ⟨cpu', heq, hframe, hcase⟩
    rw [heq]
    refine ⟨_, rfl, ⟨hframe.same.idle, hframe.same.priority⟩, hframe.done, ?_, ?_, ?_⟩
    . intro u hu
      apply hframe.state
      rintro rfl
      exact hu.elim (fun h => h rfl) hcur
    . intro hs
      have hsorted := hcase.sorted hframe hs
      exact hsorted
    . have hperm := (hcase.perm (by simp)).cons n
      rw [if_neg hcur]
      apply hperm.trans
      unfold places
      rw [hready]
      exact .swap _ _ _

end Preempt

end Cpu
end Nyy
