import NyyKernel.Lib.Run
import NyyKernel.Lock.Discipline

namespace Nyy

namespace Locked

variable {ε τ θ : Type} [DecidableEq ε] [DecidableEq τ] [DecidableEq θ]

def call (p : Platform τ θ) (cpu : Nat) : LockCall ε τ θ → KernelM ε τ θ Unit
  | .eventSignal e => do
    let _ ← eventSignal p cpu e
    return ()
  | .eventReset e => do
    let _ ← eventReset e
    return ()
  | .mutexAcquireCheck e => do
    let _ ← mutexAcquireCheck p cpu e
    return ()
  | .mutexRelease e => mutexRelease p cpu e
  | .timerSet tp deadline dpc => timerSet cpu tp deadline dpc
  | .timerInstall tp context1 context2 => timerInstall p cpu tp context1 context2
  | .timerUninstall tp => timerUninstall cpu tp
  | .timeEngineProgress nows => timeEngineProgress p cpu nows
  | .waitTimerExp t => waitTimerExp p cpu t
  | .schedResume t => schedResume p cpu t
  | .irqlLower rounds => irqlLower p cpu rounds
  | .schedWaitSingle o => do
    let _ ← schedWaitSingle p cpu o
    return ()
  | .waitReturn o t => waitReturn o t

def Init (s : LockState (Lock ε τ θ) (Kernel ε τ θ)) : Prop := s.held = [] ∧ s.nested = []

def Step (p : Platform τ θ) (s : LockState (Lock ε τ θ) (Kernel ε τ θ)) (c : Nat × LockCall ε τ θ)
    (s' : LockState (Lock ε τ θ) (Kernel ε τ θ)) : Prop :=
  call p c.1 c.2 s = .ok ((), s')

def QuietCall (p : Platform τ θ) (s : LockState (Lock ε τ θ) (Kernel ε τ θ)) (c : Nat × LockCall ε τ θ)
    : Prop :=
  Quiet p s.data c.1 c.2

variable {p : Platform τ θ} {s s' : LockState (Lock ε τ θ) (Kernel ε τ θ)}

theorem call_keeps {cpu : Nat} {c : LockCall ε τ θ}
    : Keeps Lock.rank 0 (fun k => Quiet p k cpu c) (call p cpu c) fun _ _ => True := by
  have hzero : ∀ n, 0 ≤ n := Nat.zero_le
  cases c with
  | eventSignal e => exact Keeps.bind (eventSignal_keeps.mono (hzero 3)) fun _ => Keeps.pure fun _ h => h
  | eventReset e => exact Keeps.bind (eventReset_keeps.mono (hzero 3)) fun _ => Keeps.pure fun _ h => h
  | mutexAcquireCheck e =>
    exact Keeps.bind (mutexAcquireCheck_keeps.mono (hzero 3)) fun _ => Keeps.pure fun _ h => h
  | mutexRelease e => exact mutexRelease_keeps.mono (hzero 3)
  | timerSet tp deadline dpc => exact timerSet_keeps.mono (hzero 3)
  | timerInstall tp context1 context2 => exact timerInstall_keeps.mono (hzero 2)
  | timerUninstall tp =>
    exact ((timerUninstall_keeps (fun _ _ _ _ => trivial) tp).mono (hzero 2)).imp (fun _ h => h)
      fun _ _ h => h.1
  | timeEngineProgress nows =>
    exact (timeEngineProgress_keeps fun _ _ _ _ => trivial).imp (fun _ h => ⟨trivial, h⟩) fun _ _ h => h
  | waitTimerExp t => exact (waitTimerExp_keeps fun _ => True).imp (fun _ h => ⟨trivial, h⟩) fun _ _ h => h
  | schedResume t => exact schedResume_keeps
  | irqlLower rounds => exact irqlLower_keeps
  | schedWaitSingle o =>
    exact Keeps.bind (schedWaitSingle_keeps.mono (hzero 3)) fun _ => Keeps.pure fun _ h => h
  | waitReturn o t => exact waitReturn_keeps.mono (hzero 3)

theorem call_runs {cpu : Nat} {c : LockCall ε τ θ} (hs : Ordered Lock.rank s) (hheld : s.held = [])
    (hquiet : Quiet p s.data cpu c)
    : Runs (call p cpu c) s fun _ s' => s'.held = [] ∧ Ordered Lock.rank s' := by
  refine (call_keeps s hs (by simp [hheld]) hquiet).mono ?_
  rintro _ s' ⟨h, ho, _⟩
  exact ⟨h.trans hheld, ho⟩

/--
In a run of calls that neither wake up nor block a thread, preempt no thread but the idle one and set
no queued timer, spinlocks are taken in the order of their ranks.
-/
theorem spinlock_discipline (hr : Reach Init (Guarded (QuietCall p) (Step p)) s)
    : s.held = [] ∧ Ordered Lock.rank s ∧
        ∀ c, QuietCall p s c → call p c.1 c.2 s ≠ .error .deadlock := by
  have hinv : s.held = [] ∧ Ordered Lock.rank s := by
    induction hr with
    | start h =>
      refine ⟨h.1, ?_⟩
      intro q hq
      rw [h.2] at hq
      cases hq
    | next _ h ih =>
      have hruns := call_runs ih.2 ih.1 h.1
      unfold Runs at hruns
      rwa [h.2] at hruns
  refine ⟨hinv.1, hinv.2, ?_⟩
  intro c hquiet herr
  have hruns := call_runs hinv.2 hinv.1 hquiet
  unfold Runs at hruns
  rw [herr] at hruns
  exact hruns rfl

def duo : Platform (Fin 5) (Fin 3) where
  cfg := ⟨false⟩
  priority t := (if t = 1 then 5#4 else if t = 2 then 7#4 else 0#4).toFin
  timeslice _ := 10
  waitTimer t := t.succ.castSucc
  preemptionTimer _ := 0
  preemptionDpc _ := 0
  dpcFn _ := .preemption

def duoKernel (current : Fin 3)
    : LockState (Lock Unit (Fin 5) (Fin 3)) (Kernel Unit (Fin 5) (Fin 3)) where
  held := []
  nested := []
  data := {
    event := fun _ => objInit .event
    owner := fun _ => none
    machine := {
      timer := fun _ => ⟨objInit .timer, none, 0, .unused, none⟩
      wait := fun t => ⟨if t = 2 then .null else .running, 0, 0, false, false⟩
      engine := fun _ => ⟨[], 0, 0, false⟩
      context := fun _ => (0, 0) }
    scheduler := fun _ => ⟨current, none, 0, fun _ => [], 0, false⟩
    clock := 0 }

def duoAfter (current : Fin 3) : List (LockCall Unit (Fin 5) (Fin 3)) →
    LockState (Lock Unit (Fin 5) (Fin 3)) (Kernel Unit (Fin 5) (Fin 3))
  | [] => duoKernel current
  | c :: cs =>
    match call duo 0 c (duoAfter current cs) with
    | .ok (_, s) => s
    | .error _ => duoAfter current cs

theorem step_duo {current : Fin 3} {cs : List (LockCall Unit (Fin 5) (Fin 3))}
    {c : LockCall Unit (Fin 5) (Fin 3)} (h : (call duo 0 c (duoAfter current cs)).map Prod.fst = .ok ())
    : Step duo (duoAfter current cs) (0, c) (duoAfter current (c :: cs)) := by
  rcases Except.map_eq_ok h with ⟨r, hr, _⟩
  have hafter : duoAfter current (c :: cs) = r.2 := by rw [duoAfter, hr]
  rw [hafter]
  exact hr

theorem spinlock_discipline_duo
    : ((duoAfter 0 [.irqlLower [[[]], []], .schedResume 2]).data.scheduler 0).threadCurrent = 2 ∧
        Ordered Lock.rank (duoAfter 0 [.irqlLower [[[]], []], .schedResume 2]) := by
  have h0 : Reach Init (Guarded (QuietCall duo) (Step duo)) (duoAfter 0 []) := Reach.start ⟨rfl, rfl⟩
  have h1 : Reach Init (Guarded (QuietCall duo) (Step duo)) (duoAfter 0 [.schedResume 2]) :=
    h0.next (e := (0, .schedResume 2)) ⟨trivial, step_duo (by decide +kernel)⟩
  have hquiet : QuietCall duo (duoAfter 0 [.schedResume 2]) (0, .irqlLower [[[]], []]) := by
    have hheap : (duoAfter 0 [.schedResume 2]).data.machine.heap 0 = [] := by decide +kernel
    have hidle : ((duoAfter 0 [.schedResume 2]).data.scheduler 0).threadCurrent =
        ((duoAfter 0 [.schedResume 2]).data.scheduler 0).idleThread := by decide +kernel
    refine fun _ => ⟨?_, .inl hidle⟩
    intro tp htp
    rw [hheap] at htp
    cases htp
  have h2 := h1.next (e := (0, .irqlLower [[[]], []])) ⟨hquiet, step_duo (by decide +kernel)⟩
  exact ⟨by decide +kernel, (spinlock_discipline h2).2.1⟩

-- the timer is due much later, and thread 2 preempts thread 1
def preempted : List (LockCall Unit (Fin 5) (Fin 3)) :=
  [.irqlLower [[[]], [[1], []], []], .schedResume 2, .irqlLower [[[1], []], []], .timerInstall 4 0 0,
    .timerSet 4 100 none]

def blocked : List (LockCall Unit (Fin 5) (Fin 3)) := .schedWaitSingle (.event ()) :: preempted

theorem deadlock_duo {c : LockCall Unit (Fin 5) (Fin 3)}
    (h : (call duo 0 c (duoAfter 1 blocked)).map Prod.fst = .error .deadlock)
    : call duo 0 c (duoAfter 1 blocked) = .error .deadlock := by
  cases hc : call duo 0 c (duoAfter 1 blocked) with
  | error e =>
    rw [hc] at h
    cases h
    rfl
  | ok r =>
    rw [hc] at h
    cases h

theorem wakeup_takes_lock_twice
    : Reach Init (Step duo) (duoAfter 1 preempted) ∧ Reach Init (Step duo) (duoAfter 1 blocked) ∧
        (∀ order : Nat → Nat, ¬ Ordered (fun l => order l.rank) (duoAfter 1 preempted)) ∧
        call duo 0 (.eventSignal ()) (duoAfter 1 blocked) = .error .deadlock ∧
        call duo 0 (.timerSet 4 7 none) (duoAfter 1 blocked) = .error .deadlock ∧
        call duo 0 (.waitTimerExp 2) (duoAfter 1 blocked) = .error .deadlock := by
  have h0 : Reach Init (Step duo) (duoAfter 1 []) := Reach.start ⟨rfl, rfl⟩
  have h1 := h0.next (e := (0, .timerSet 4 100 none)) (step_duo (by decide +kernel))
  have h2 := h1.next (e := (0, .timerInstall 4 0 0)) (step_duo (by decide +kernel))
  have h3 := h2.next (e := (0, .irqlLower [[[1], []], []])) (step_duo (by decide +kernel))
  have h4 := h3.next (e := (0, .schedResume 2)) (step_duo (by decide +kernel))
  have h5 : Reach Init (Step duo) (duoAfter 1 preempted) :=
    h4.next (e := (0, .irqlLower [[[]], [[1], []], []])) (step_duo (by decide +kernel))
  have h6 : Reach Init (Step duo) (duoAfter 1 blocked) :=
    h5.next (e := (0, .schedWaitSingle (.event ()))) (step_duo (by decide +kernel))
  refine ⟨h5, h6, ?_, deadlock_duo (by decide +kernel), deadlock_duo (by decide +kernel),
    deadlock_duo (by decide +kernel)⟩
  intro order h
  have hresume := h (.sched 0, .thread 2) (by decide +kernel)
  have hpreempt := h (.thread 1, .sched 0) (by decide +kernel)
  exact Nat.lt_asymm hresume hpreempt

end Locked
end Nyy
