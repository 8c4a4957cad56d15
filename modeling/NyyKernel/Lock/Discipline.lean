import NyyKernel.Dispatch.Lemmas
import NyyKernel.Lock.Impl

namespace Nyy

namespace Lock

variable {ε τ θ : Type}

def rank : Lock ε τ θ → Nat
  | .sched _ => 0
  | .thread _ => 1
  | .engine _ => 2
  | .object _ => 3
  | .dpc _ => 4

end Lock

inductive LockCall (ε τ θ : Type) where
  | eventSignal (e : ε)
  | eventReset (e : ε)
  | mutexAcquireCheck (e : ε)
  | mutexRelease (e : ε)
  | timerSet (tp : τ) (deadline : Nat) (dpc : Option Nat)
  | timerInstall (tp : τ) (context1 context2 : Nat)
  | timerUninstall (tp : τ)
  | timeEngineProgress (nows : List Nat)
  | waitTimerExp (t : θ)
  | schedResume (t : θ)
  | irqlLower (rounds : List (List (List Nat)))
  | schedWaitSingle (o : ObjRef ε τ)
  | waitReturn (o : ObjRef ε τ) (t : θ)

namespace Locked

open LockM

variable {ε τ θ : Type}

-- the timer wakes up no thread and reschedules none
def Harmless (p : Platform τ θ) (k : Kernel ε τ θ) (tp : τ) : Prop :=
  (k.machine.timer tp).hdr.waitercount ≤ 0 ∧
    ∀ dpc, (k.machine.timer tp).dpc = some dpc →
      ∃ t, p.dpcFn dpc = .waitTimerExp t ∧ (k.machine.wait t).state ≠ .waiting

def Calm (p : Platform τ θ) (k : Kernel ε τ θ) (cpu : Nat) (nows : List Nat) : Prop :=
  ∀ tp ∈ k.machine.heap cpu, (∃ now ∈ nows, (k.machine.timer tp).deadline ≤ now) → Harmless p k tp

def Quiet (p : Platform τ θ) (k : Kernel ε τ θ) (cpu : Nat) : LockCall ε τ θ → Prop
  | .eventSignal e => (k.event e).signalcount ≠ 0 ∨ (k.event e).waitercount = 0
  | .timerSet tp _ _ => (k.machine.timer tp).timerState ≠ .queued
  | .timeEngineProgress nows => Calm p k cpu nows
  | .waitTimerExp t => (k.machine.wait t).state ≠ .waiting
  | .irqlLower rounds => k.pending cpu = true →
    Calm p k cpu rounds.flatten.flatten ∧
      ((k.scheduler cpu).threadCurrent = (k.scheduler cpu).idleThread ∨
        (k.scheduler cpu).threadNext = none)
  | .schedWaitSingle o => (k.hdr o).signalcount ≠ 0
  | _ => True

section Machine

variable [DecidableEq τ] {m m' : Machine τ θ} {cpu : Nat}

structure Settled (m m' : Machine τ θ) : Prop where
  wait : m'.wait = m.wait
  heap : ∀ cpu, ∀ tp ∈ m'.heap cpu, tp ∈ m.heap cpu
  hdr : ∀ tp, (m'.timer tp).hdr = (m.timer tp).hdr
  dpc : ∀ tp, (m'.timer tp).dpc = (m.timer tp).dpc
  deadline : ∀ tp, (m'.timer tp).deadline = (m.timer tp).deadline

omit [DecidableEq τ] in
theorem Settled.refl (m : Machine τ θ) : Settled m m :=
  ⟨rfl, fun _ _ h => h, fun _ => rfl, fun _ => rfl, fun _ => rfl⟩

omit [DecidableEq τ] in
theorem Settled.trans {m'' : Machine τ θ} (h : Settled m m') (h' : Settled m' m'') : Settled m m'' :=
  ⟨h'.wait.trans h.wait, fun cpu tp htp => h.heap cpu tp (h'.heap cpu tp htp),
    fun tp => (h'.hdr tp).trans (h.hdr tp), fun tp => (h'.dpc tp).trans (h.dpc tp),
    fun tp => (h'.deadline tp).trans (h.deadline tp)⟩

omit [DecidableEq τ] in
theorem Settled.setEngine (ep : Nat) {engine : TimerEngine τ} (h : ∀ tp ∈ engine.timerlist, tp ∈ m.heap ep)
    : Settled m (m.setEngine ep engine) := by
  refine ⟨rfl, ?_, fun _ => rfl, fun _ => rfl, fun _ => rfl⟩
  intro cpu tp htp
  simp only [Machine.heap, Machine.setEngine] at htp
  rcases eq_or_ne cpu ep with rfl | hne
  . rw [Function.update_self] at htp
    exact h tp htp
  . rwa [Function.update_of_ne hne] at htp

theorem Settled.setTimer (tp : τ) (engine : Option Nat) (state : TimerState)
    : Settled m (m.setTimer tp { m.timer tp with engine := engine, timerState := state }) := by
  refine ⟨rfl, fun _ _ h => h, ?_, ?_, ?_⟩
  all_goals
    intro tp'
    rcases eq_or_ne tp' tp with rfl | hne
    . simp [Machine.setTimer]
    . simp [Machine.setTimer, hne]

theorem heapRemove_settled {ep : Nat} {tp : τ} (h : m.heapRemove ep tp = .ok m') : Settled m m' := by
  unfold Machine.heapRemove at h
  split at h
  . cases h
    exact .setEngine ep fun _ htp => List.mem_of_mem_erase htp
  . cases h

theorem timerUninstallSection_settled {tp : τ} {ep : Option Nat}
    (h : Machine.timerUninstallSection cpu m tp ep = .ok m')
    : Settled m m' ∧ (m'.timer tp).timerState = .canceled := by
  unfold Machine.timerUninstallSection at h
  cases ep with
  | none =>
    cases h
    exact ⟨.setTimer tp _ _, by simp [Machine.setTimer]⟩
  | some ep =>
    rcases Except.bind_eq_ok h with ⟨m1, hm1, h⟩
    cases h
    refine ⟨(heapRemove_settled hm1).trans ?_, by simp [Machine.setTimer, Machine.dpcEnqueue, Machine.setEngine]⟩
    exact (Settled.setTimer tp none .canceled).trans (.setEngine cpu fun _ htp => htp)

theorem timeEngineProgressPop_settled {now : Nat} {root r : Option τ}
    (h : Machine.timeEngineProgressPop cpu m now root = .ok (r, m'))
    : Settled m m' := by
  unfold Machine.timeEngineProgressPop at h
  cases root with
  | none =>
    cases h
    exact .setEngine cpu fun _ htp => htp
  | some root =>
    dsimp only at h
    split at h
    . cases h
      exact .setEngine cpu fun _ htp => htp
    . rcases Except.bind_eq_ok h with ⟨m1, hm1, h⟩
      cases h
      exact (heapRemove_settled hm1).trans (.setTimer root none .fired)

end Machine

section Calls

variable [DecidableEq ε] [DecidableEq τ] [DecidableEq θ] {p : Platform τ θ} {cpu now n : Nat} {thread : θ}
  {e : ε} {tp : τ} {nows nows' : List Nat} {o : ObjRef ε τ} {k k' : Kernel ε τ θ} {P : Kernel ε τ θ → Prop}

-- nothing that a dispatch depends on has changed
structure Rest (k k' : Kernel ε τ θ) : Prop where
  settled : Settled k.machine k'.machine
  scheduler : k'.scheduler = k.scheduler

def Stable (P : Kernel ε τ θ → Prop) : Prop := ∀ k k', Rest k k' → P k → P k'

omit [DecidableEq ε] [DecidableEq τ] [DecidableEq θ] in
theorem Rest.harmless (h : Rest k k') (htp : Harmless p k tp) : Harmless p k' tp := by
  unfold Harmless
  rw [h.settled.hdr, h.settled.dpc, h.settled.wait]
  exact htp

omit [DecidableEq ε] [DecidableEq τ] [DecidableEq θ] in
theorem Rest.calm (h : Rest k k') (hcalm : Calm p k cpu nows) : Calm p k' cpu nows := by
  rintro tp htp ⟨now, hnow, hdue⟩
  rw [h.settled.deadline] at hdue
  exact h.harmless (hcalm tp (h.settled.heap cpu tp htp) ⟨now, hnow, hdue⟩)

omit [DecidableEq ε] [DecidableEq τ] [DecidableEq θ] in
theorem Calm.sublist (hcalm : Calm p k cpu nows) (hsub : nows' ⊆ nows) : Calm p k cpu nows' := by
  rintro tp htp ⟨now, hnow, hdue⟩
  exact hcalm tp htp ⟨now, hsub hnow, hdue⟩

omit [DecidableEq ε] [DecidableEq τ] [DecidableEq θ] in
theorem Stable.and_calm (hP : Stable P) (nows : List Nat) : Stable fun k => P k ∧ Calm p k cpu nows := by
  rintro k k' hrest ⟨hk, hcalm⟩
  exact ⟨hP k k' hrest hk, hrest.calm hcalm⟩

theorem dpcEnqueue_keeps (P : Kernel ε τ θ → Prop)
    : Keeps Lock.rank 4 P (dpcEnqueue cpu) fun _ => P :=
  Keeps.withLock (Keeps.pure fun _ h => h) (Nat.le_refl 4)

omit [DecidableEq ε] [DecidableEq θ] in
theorem timerUninstallSection_keeps (hP : Stable P) (tp : τ) (ep : Option Nat)
    : Keeps Lock.rank n P (timerUninstallSection cpu tp ep) fun _ k =>
        P k ∧ (k.machine.timer tp).timerState = .canceled := by
  refine Keeps.update ?_
  intro k k' hk h
  rcases Except.bind_eq_ok h with ⟨m, hm, h⟩
  cases h
  rcases timerUninstallSection_settled hm with ⟨hsettled, hcanceled⟩
  exact ⟨hP k _ ⟨hsettled, rfl⟩ hk, hcanceled⟩

theorem timerUninstall_keeps (hP : Stable P) (tp : τ)
    : Keeps Lock.rank 2 P (timerUninstall cpu tp) fun _ k =>
        P k ∧ (k.machine.timer tp).timerState = .canceled := by
  unfold timerUninstall
  refine Keeps.read_any ?_
  intro k
  cases (k.machine.timer tp).engine with
  | none => exact Keeps.withLock (timerUninstallSection_keeps hP tp none) (show 2 ≤ 3 by decide)
  | some ep =>
    refine Keeps.withLock (Keeps.withLock ?_ (Nat.le_refl 3)) (Nat.le_refl 2)
    exact Keeps.bind (timerUninstallSection_keeps hP tp (some ep)) fun _ => dpcEnqueue_keeps _

theorem timerSet_keeps {deadline : Nat} {dpc : Option Nat}
    : Keeps Lock.rank 3 (fun k : Kernel ε τ θ => (k.machine.timer tp).timerState ≠ .queued)
        (timerSet cpu tp deadline dpc) fun _ _ => True := by
  refine Keeps.withLock (Keeps.read_bind ?_) (Nat.le_refl 3)
  intro k hstate
  dsimp only
  rw [if_neg hstate]
  exact Keeps.write fun _ _ => trivial

theorem timerInstall_keeps {context1 context2 : Nat}
    : Keeps Lock.rank 2 (fun _ : Kernel ε τ θ => True) (timerInstall p cpu tp context1 context2)
        fun _ _ => True := by
  refine Keeps.read_any fun k => Keeps.assert_bind ?_
  refine Keeps.withLock (Keeps.withLock ?_ (Nat.le_refl 3)) (Nat.le_refl 2)
  refine Keeps.read_any ?_
  intro k
  split
  . exact Keeps.pure fun _ _ => trivial
  . exact Keeps.update_bind (dpcEnqueue_keeps _)

theorem checkTimer_keeps
    : Keeps Lock.rank 2 (fun _ : Kernel ε τ θ => True) (checkTimer p cpu thread) fun _ _ => True := by
  have huninstall : Keeps Lock.rank 2 (fun _ : Kernel ε τ θ => True)
      (timerUninstall cpu (p.preemptionTimer cpu)) _ :=
    timerUninstall_keeps (fun _ _ _ _ => trivial) _
  refine Keeps.read_any ?_
  intro k
  split
  . refine Keeps.bind huninstall fun _ => Keeps.bind (Keeps.read_any fun k => ?_) fun _ => timerInstall_keeps
    refine (timerSet_keeps.mono (by decide)).imp ?_ fun _ _ h => h
    rintro k ⟨_, hcanceled⟩
    simp [hcanceled]
  . exact huninstall.imp (fun _ h => h) fun _ _ _ => trivial

theorem schedInsert_keeps
    : Keeps Lock.rank 2 (fun _ : Kernel ε τ θ => True) (schedInsert p cpu thread) fun _ _ => True := by
  refine Keeps.isHeld_bind fun _ => Keeps.assert_bind ?_
  refine Keeps.isHeld_bind fun _ => Keeps.assert_bind ?_
  refine Keeps.read_any fun k => Keeps.update_bind ?_
  split
  . exact checkTimer_keeps
  . split
    . exact checkTimer_keeps
    . exact Keeps.pure fun _ _ => trivial

theorem schedResume_keeps
    : Keeps Lock.rank 0 (fun _ : Kernel ε τ θ => True) (schedResume p cpu thread) fun _ _ => True := by
  refine Keeps.read_any ?_
  intro k
  split
  . exact Keeps.pure fun _ _ => trivial
  . exact Keeps.withLock (Keeps.withLock schedInsert_keeps (Nat.le_refl 1)) (Nat.le_refl 0)

theorem waitTimerExp_keeps (P : Kernel ε τ θ → Prop)
    : Keeps Lock.rank 0 (fun k => P k ∧ (k.machine.wait thread).state ≠ .waiting)
        (waitTimerExp p cpu thread) fun _ => P := by
  refine Keeps.withLock (Keeps.withLock ?_ (Nat.le_refl 1)) (Nat.le_refl 0)
  refine Keeps.read_bind ?_
  rintro k ⟨hk, hstate⟩
  dsimp only
  rw [if_neg hstate]
  exact Keeps.pure fun _ h => h ▸ hk

theorem eventSignal_keeps
    : Keeps Lock.rank 3 (fun k : Kernel ε τ θ => Quiet p k cpu (.eventSignal e)) (eventSignal p cpu e)
        fun _ _ => True := by
  refine Keeps.withLock (Keeps.read_bind ?_) (Nat.le_refl 3)
  intro k hquiet
  dsimp only
  split
  . exact Keeps.pure fun _ _ => trivial
  . next hsig =>
    rw [if_neg (not_not_intro (hquiet.resolve_left hsig))]
    exact Keeps.write_bind <| Keeps.pure fun _ _ => trivial

theorem eventReset_keeps
    : Keeps Lock.rank 3 (fun _ : Kernel ε τ θ => True) (eventReset e) fun _ _ => True := by
  refine Keeps.withLock (Keeps.read_any fun k => ?_) (Nat.le_refl 3)
  exact Keeps.write_bind <| Keeps.pure fun _ _ => trivial

theorem mutexRelease_keeps
    : Keeps Lock.rank 3 (fun _ : Kernel ε τ θ => True) (mutexRelease p cpu e) fun _ _ => True := by
  refine Keeps.read_any fun k => Keeps.assert_bind ?_
  exact Keeps.withLock (Keeps.write fun _ _ => trivial) (Nat.le_refl 3)

theorem mutexAcquireCheck_keeps
    : Keeps Lock.rank 3 (fun _ : Kernel ε τ θ => True) (mutexAcquireCheck p cpu e) fun _ _ => True := by
  refine Keeps.withLock (Keeps.read_any fun k => ?_) (Nat.le_refl 3)
  split
  . refine Keeps.read_any fun k => Keeps.assert_bind ?_
    exact Keeps.write_bind <| Keeps.write_bind <| Keeps.pure fun _ _ => trivial
  . exact Keeps.pure fun _ _ => trivial

theorem schedWaitSingle_keeps
    : Keeps Lock.rank 3 (fun k : Kernel ε τ θ => (k.hdr o).signalcount ≠ 0) (schedWaitSingle p cpu o)
        fun _ _ => True := by
  refine Keeps.read_any ?_
  intro k
  refine Keeps.bind (Keeps.withLock (Q := fun signaled _ => signaled = true)
    (Keeps.read_bind ?_) (Nat.le_refl 3)) ?_
  . intro k' hsignaled
    rcases Disp.waitSection_cases (k'.disp o) (k.scheduler cpu).threadCurrent with
      ⟨d', _, ⟨hd, _⟩ | ⟨_, hsig, _⟩⟩
    . rw [hd]
      exact Keeps.write_bind <| Keeps.pure fun _ _ => rfl
    . exact absurd hsig hsignaled
  . intro signaled
    cases signaled with
    | true => exact Keeps.pure fun _ _ => trivial
    | false => exact fun _ _ _ h => nomatch h

theorem waitReturn_keeps
    : Keeps Lock.rank 3 (fun _ : Kernel ε τ θ => True) (waitReturn o thread) fun _ _ => True :=
  Keeps.withLock (Keeps.update fun _ _ _ _ => trivial) (Nat.le_refl 3)

omit [DecidableEq ε] [DecidableEq θ] in
theorem progressPop_keeps (hP : Stable P) (root : Option τ)
    : Keeps Lock.rank n P (progressPop cpu now root) fun _ => P := by
  refine Keeps.update ?_
  intro k k' hk h
  rcases Except.bind_eq_ok h with ⟨r, hr, h⟩
  cases h
  exact hP k _ ⟨timeEngineProgressPop_settled hr, rfl⟩ hk

section Dispatch

variable {s : LockState (Lock ε τ θ) (Kernel ε τ θ)}

-- hand over hand: the lock of the engine is released under that of the timer
theorem fire_runs {root : τ} (hP : Stable P) (hs : Ordered Lock.rank s) (hheld : s.held = [.engine cpu])
    (hpre : P s.data) (hroot : ∀ k, P k → Harmless p k root)
    : Runs (fire p cpu now root) s fun _ s' => s'.held = [] ∧ Ordered Lock.rank s' ∧ P s'.data := by
  unfold fire
  refine Runs.bind (Runs.acquire hs (by simp [hheld, Lock.rank]) ?_)
  intro s1 h1 d1 o1
  refine Runs.bind ((progressPop_keeps (n := 4) hP (some root) s1 o1 ?_ (d1 ▸ hpre)).mono ?_)
  . simp [h1, hheld, Lock.rank]
  rintro _ s2 ⟨h2, o2, hp2⟩
  refine Runs.bind (Runs.release o2 ?_)
  intro s3 h3 d3 o3
  rcases hroot s3.data (d3 ▸ hp2) with ⟨hwaiters, hdpc⟩
  refine Runs.bind (Runs.read ?_)
  rw [if_neg (not_lt.mpr hwaiters)]
  refine Runs.bind (Runs.read (Runs.bind (Runs.release o3 ?_)))
  intro s4 h4 d4 o4
  have hheld4 : s4.held = [] := by
    rw [h4, h3, h2, h1, hheld]
    simp
  have hp4 : P s4.data := by
    rw [d4, d3]
    exact hp2
  cases hd : (s3.data.machine.timer root).dpc with
  | none => exact Runs.pure ⟨hheld4, o4, hp4⟩
  | some dpc =>
    rcases hdpc dpc hd with ⟨t, hfn, hstate⟩
    dsimp only
    unfold runDpc
    rw [hfn]
    rw [← d4] at hstate
    refine (waitTimerExp_keeps P s4 o4 (by simp [hheld4]) ⟨hp4, hstate⟩).mono ?_
    rintro _ s5 ⟨h5, o5, hp5⟩
    exact ⟨h5.trans hheld4, o5, hp5⟩

theorem timeEngineProgress_keeps (hP : Stable P)
    : Keeps Lock.rank 0 (fun k => P k ∧ Calm p k cpu nows) (timeEngineProgress p cpu nows)
        fun _ => P := by
  -- on the rounds: what is calm stays so, since a round only takes timers out
  induction nows with
  | nil => exact Keeps.fail _
  | cons now nows ih =>
    unfold timeEngineProgress
    refine Keeps.bind (Keeps.write (Q := fun _ k => P k ∧ Calm p k cpu (now :: nows)) ?_) ?_
    . rintro k ⟨hk, hcalm⟩
      exact ⟨hP k _ ⟨.refl _, rfl⟩ hk, hcalm⟩
    rintro _ s hs hb ⟨hk, hcalm⟩
    have hheld : s.held = [] := List.eq_nil_iff_forall_not_mem.mpr fun l hl => Nat.not_lt_zero _ (hb l hl)
    refine Runs.bind (Runs.acquire hs (by simp [hheld]) ?_)
    intro s1 h1 d1 o1
    rw [hheld] at h1
    refine Runs.bind (Runs.read ?_)
    dsimp only
    rw [d1]
    cases hroot : ((s.data.machine.heap cpu).argmin fun tp => (s.data.machine.timer tp).deadline).filter
        fun root => (s.data.machine.timer root).deadline ≤ now with
    | none =>
      refine Runs.bind ((progressPop_keeps (n := 3) hP _ s1 o1 (by simp [h1, Lock.rank]) (d1 ▸ hk)).mono ?_)
      rintro _ s2 ⟨h2, o2, hp2⟩
      refine Runs.release o2 ?_
      intro s3 h3 d3 o3
      refine ⟨?_, o3, d3 ▸ hp2⟩
      rw [h3, h2, h1, hheld, List.erase_cons_head]
    | some root =>
      rcases Option.filter_eq_some_iff.mp hroot with ⟨hmin, hdue⟩
      have hharmless := hcalm root (List.argmin_mem hmin) ⟨now, List.mem_cons_self, of_decide_eq_true hdue⟩
      have hrest := hcalm.sublist (List.subset_cons_self now nows)
      have hstable : Stable fun k => (P k ∧ Calm p k cpu nows) ∧ Harmless p k root :=
        fun k k' h hk => ⟨hP.and_calm nows k k' h hk.1, h.harmless hk.2⟩
      refine Runs.bind ((fire_runs hstable o1 h1 (d1 ▸ ⟨⟨hk, hrest⟩, hharmless⟩) fun _ h => h.2).mono ?_)
      rintro _ s2 ⟨h2, o2, hp2⟩
      rw [hheld, ← h2]
      exact ih s2 o2 (by simp [h2]) hp2.1

theorem dpcRunQueue_keeps {rounds : List (List Nat)} (hP : Stable P)
    : Keeps Lock.rank 0 (fun k => P k ∧ Calm p k cpu rounds.flatten) (dpcRunQueue p cpu rounds)
        fun _ => P := by
  induction rounds with
  | nil => exact Keeps.fail _
  | cons nows rounds ih =>
    have hsection : Stable fun k => P k ∧ Calm p k cpu (nows ++ rounds.flatten) := hP.and_calm _
    refine Keeps.bind (Keeps.withLock (Q := fun _ k => P k ∧ Calm p k cpu (nows ++ rounds.flatten))
      (Keeps.read_bind ?_) (show 0 ≤ 4 by decide)) ?_
    . intro k hk
      refine Keeps.bind (Keeps.write (Q := fun _ k => P k ∧ Calm p k cpu (nows ++ rounds.flatten)) ?_)
        fun _ => Keeps.pure fun _ h => h
      rintro _ rfl
      exact hsection _ _ ⟨.setEngine cpu fun _ htp => htp, rfl⟩ hk
    . intro enqueued
      split
      . refine Keeps.bind ((timeEngineProgress_keeps (hP.and_calm rounds.flatten)).imp ?_ fun _ _ h => h)
          fun _ => ih
        rintro k ⟨hk, hcalm⟩
        exact ⟨⟨hk, hcalm.sublist (List.subset_append_right ..)⟩, hcalm.sublist (List.subset_append_left ..)⟩
      . exact Keeps.pure fun _ h => h.1

theorem schedPreempt_keeps {next : θ}
    : Keeps Lock.rank 0 (fun k : Kernel ε τ θ => Calm p k cpu nows ∧
          (k.scheduler cpu).threadCurrent = (k.scheduler cpu).idleThread)
        (schedPreempt p cpu next)
        fun _ k => Calm p k cpu nows ∧ (k.scheduler cpu).threadNext = none := by
  have hstable : Stable fun k : Kernel ε τ θ => Calm p k cpu nows ∧ (k.scheduler cpu).threadNext = none := by
    rintro k k' h ⟨hcalm, hnone⟩
    exact ⟨h.calm hcalm, h.scheduler ▸ hnone⟩
  unfold schedPreempt
  refine Keeps.bind (Keeps.withLock (Keeps.write (Q := fun _ k => (Calm p k cpu nows ∧
    (k.scheduler cpu).threadNext = none) ∧ (k.scheduler cpu).threadCurrent = (k.scheduler cpu).idleThread) ?_)
    (Nat.le_refl 0)) fun _ => Keeps.read_bind ?_
  . rintro k ⟨hcalm, hidle⟩
    simp only [Kernel.setScheduler, Function.update_self]
    exact ⟨⟨hcalm, trivial⟩, hidle⟩
  . rintro k ⟨hk, hidle⟩
    refine Keeps.withLock ?_ (show 0 ≤ 1 by decide)
    dsimp only
    rw [if_neg (not_not_intro hidle)]
    refine Keeps.bind (Keeps.write ?_) fun _ =>
      (timerUninstall_keeps hstable (p.waitTimer next)).imp (fun _ h => h) fun _ _ h => h.1
    rintro _ rfl
    simp only [Kernel.setScheduler, Function.update_self]
    exact hk

theorem softintDispatch_keeps {rounds : List (List (List Nat))}
    : Keeps Lock.rank 0 (fun k : Kernel ε τ θ => Calm p k cpu rounds.flatten.flatten ∧
          ((k.scheduler cpu).threadCurrent = (k.scheduler cpu).idleThread ∨
            (k.scheduler cpu).threadNext = none))
        (softintDispatch p cpu rounds) fun _ _ => True := by
  induction rounds with
  | nil => exact Keeps.fail _
  | cons rounds rest ih =>
    have hstable : Stable fun k : Kernel ε τ θ => ((k.scheduler cpu).threadCurrent =
        (k.scheduler cpu).idleThread ∨ (k.scheduler cpu).threadNext = none) ∧
        Calm p k cpu rest.flatten.flatten := by
      refine Stable.and_calm ?_ _
      intro k k' h hk
      exact h.scheduler ▸ hk
    unfold softintDispatch
    refine Keeps.read_any fun k => ?_
    dsimp only
    split
    . refine Keeps.bind (Keeps.write (Q := fun _ k => (((k.scheduler cpu).threadCurrent =
        (k.scheduler cpu).idleThread ∨ (k.scheduler cpu).threadNext = none) ∧
        Calm p k cpu rest.flatten.flatten) ∧ Calm p k cpu rounds.flatten) ?_) fun _ =>
        Keeps.bind (dpcRunQueue_keeps hstable) fun _ => Keeps.read_bind ?_
      . rintro k ⟨hcalm, hnext⟩
        rw [List.flatten_cons, List.flatten_append] at hcalm
        refine ⟨⟨?_, hcalm.sublist (List.subset_append_right ..)⟩,
          hcalm.sublist (List.subset_append_left ..)⟩
        simpa only [Kernel.setScheduler, Function.update_self] using hnext
      . rintro k ⟨hnext, hcalm⟩
        cases hthread : (k.scheduler cpu).threadNext with
        | none =>
          refine Keeps.bind (Keeps.pure (a := ()) ?_) fun _ => ih
          rintro _ rfl
          exact ⟨hcalm, hnext⟩
        | some next =>
          have hidle := hnext.resolve_right (by simp [hthread])
          refine Keeps.bind (schedPreempt_keeps.imp ?_ fun _ _ h => h) fun _ =>
            ih.imp (fun _ h => ⟨h.1, .inr h.2⟩) fun _ _ h => h
          rintro _ rfl
          exact ⟨hcalm, hidle⟩
    . exact Keeps.pure fun _ _ => trivial

theorem irqlLower_keeps {rounds : List (List (List Nat))}
    : Keeps Lock.rank 0 (fun k : Kernel ε τ θ => Quiet p k cpu (.irqlLower rounds))
        (irqlLower p cpu rounds) fun _ _ => True := by
  refine Keeps.read_bind fun k hquiet => ?_
  split
  . next hpending => exact softintDispatch_keeps.imp (fun _ h => h ▸ hquiet hpending) fun _ _ h => h
  . exact Keeps.pure fun _ _ => trivial

end Dispatch
end Calls
end Locked
end Nyy
