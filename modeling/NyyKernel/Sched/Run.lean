import NyyKernel.Lib.Run
import NyyKernel.Sched.Lemmas

namespace Nyy
namespace Sched

variable {θ : Type} [DecidableEq θ]

structure SchedState (θ : Type) where
  cpu : Cpu θ
  runnable : θ → Bool

inductive SchedOp (θ : Type) where
  | resume (thread : θ)
  | reschedule
  | preempt
  | block
  | exit

def SchedInit (s : SchedState θ) : Prop :=
  s.cpu.threadCurrent = s.cpu.idleThread ∧ s.cpu.threadNext = none ∧
  s.cpu.runQueues = (fun _ => []) ∧ s.cpu.runMask = 0 ∧ s.cpu.doneQueue = [] ∧
  (∀ t, (s.cpu.thread t).state = .null) ∧ (∀ t, s.runnable t = false)

def SchedStep (s : SchedState θ) : SchedOp θ → SchedState θ → Prop
  | .resume t, s' => t ≠ s.cpu.idleThread ∧ t ∉ s.cpu.places ∧ t ∉ s.cpu.doneQueue ∧
    schedResume s.cpu t = .ok s'.cpu ∧ s'.runnable = Function.update s.runnable t true
  | .reschedule, s' => s'.cpu = schedReschedule s.cpu ∧ s'.runnable = s.runnable
  | .preempt, s' => s.cpu.threadNext.isSome ∧ schedPreempt s.cpu = .ok s'.cpu ∧
    s'.runnable = s.runnable
  | .block, s' => s.cpu.threadCurrent ≠ s.cpu.idleThread ∧ s'.cpu = waitThread s.cpu ∧
    s'.runnable = Function.update s.runnable s.cpu.threadCurrent false
  | .exit, s' => s.cpu.threadCurrent ≠ s.cpu.idleThread ∧ s'.cpu = schedExitDestroy s.cpu ∧
    s'.runnable = Function.update s.runnable s.cpu.threadCurrent false

/--
While a thread is chosen to run next, no thread of a higher priority is resumed, and the current
thread is only rescheduled if no thread of at least its priority is queued.
-/
def NextKept (s : SchedState θ) : SchedOp θ → Prop
  | .resume t => ∀ n, s.cpu.threadNext = some n → s.cpu.priority t ≤ s.cpu.priority n
  | .reschedule => s.cpu.threadNext = none ∨
    ∀ p, s.cpu.priority s.cpu.threadCurrent ≤ p → s.cpu.runQueues p = []
  | _ => True

def InOnePlace (cpu : Cpu θ) (t : θ) : Prop :=
  (cpu.threadCurrent = t ∧ cpu.threadNext ≠ some t ∧ ∀ p, t ∉ cpu.runQueues p) ∨
  (cpu.threadCurrent ≠ t ∧ cpu.threadNext = some t ∧ ∀ p, t ∉ cpu.runQueues p) ∨
  (cpu.threadCurrent ≠ t ∧ cpu.threadNext ≠ some t ∧
    (cpu.runQueues (cpu.priority t)).count t = 1 ∧
    ∀ p, p ≠ cpu.priority t → t ∉ cpu.runQueues p)

structure SchedInv (s : SchedState θ) : Prop where
  sorted : s.cpu.Sorted
  once : ∀ t, t ≠ s.cpu.idleThread →
    s.cpu.places.count t = if s.runnable t = true then 1 else 0
  idle : s.cpu.idleThread ∉ s.cpu.ready
  state : ∀ t, t ≠ s.cpu.idleThread → s.runnable t = false → t ∉ s.cpu.doneQueue →
    (s.cpu.thread t).state ≠ .ready

theorem inOnePlace_of_count {cpu : Cpu θ} {t : θ} (hs : cpu.Sorted) (h : cpu.places.count t = 1)
    : InOnePlace cpu t := by
  have hother : ∀ p, p ≠ cpu.priority t → t ∉ cpu.runQueues p := by
    intro p hp hmem
    exact hp (hs p t hmem).symm
  have hcount := Buckets.count_all hother
  unfold Cpu.places Cpu.ready at h
  rw [List.count_cons, List.count_append, hcount] at h
  have hnone : (cpu.runQueues (cpu.priority t)).count t = 0 → ∀ p, t ∉ cpu.runQueues p := by
    intro hzero p
    by_cases hp : p = cpu.priority t
    . rw [hp]
      exact List.count_eq_zero.mp hzero
    . exact hother p hp
  have hnext : cpu.threadNext.toList.count t = if cpu.threadNext = some t then 1 else 0 := by
    cases hn : cpu.threadNext with
    | none => simp
    | some n => simp [List.count_singleton]
  rw [hnext] at h
  unfold InOnePlace
  by_cases hcur : cpu.threadCurrent = t
  . by_cases hn : cpu.threadNext = some t
    . simp [hcur, hn] at h
    . simp only [hcur, hn, beq_self_eq_true, if_true, if_false] at h
      exact .inl ⟨hcur, hn, hnone (by omega)⟩
  . have hcur' : (cpu.threadCurrent == t) = false := by simpa using hcur
    by_cases hn : cpu.threadNext = some t
    . simp only [hcur', hn, if_true, Bool.false_eq_true, if_false] at h
      exact .inr (.inl ⟨hcur, hn, hnone (by omega)⟩)
    . simp only [hcur', hn, Bool.false_eq_true, if_false] at h
      exact .inr (.inr ⟨hcur, hn, by omega, hother⟩)

namespace SchedInv

variable {s s' : SchedState θ} {t : θ}

theorem init (h : SchedInit s) : SchedInv s := by
  rcases h with ⟨hcur, hnext, hqueues, _, _, hstate, hrun⟩
  have hready : s.cpu.ready = [] := by
    unfold Cpu.ready
    rw [hnext, hqueues, Buckets.all_empty]
    rfl
  constructor
  . intro p t ht
    simp [hqueues] at ht
  . intro t ht
    unfold Cpu.places
    rw [hready, hcur, hrun]
    simp [ht.symm]
  . simp [hready]
  . intro t _ _ _
    rw [hstate]
    simp

section

variable (h : SchedInv s)

include h

theorem not_runnable (ht : t ≠ s.cpu.idleThread) (hp : t ∉ s.cpu.places)
    : s.runnable t = false := by
  have honce := h.once t ht
  rw [List.count_eq_zero.mpr hp] at honce
  by_contra hrun
  simp [hrun] at honce

theorem runnable (ht : t ≠ s.cpu.idleThread) (hp : t ∈ s.cpu.places) : s.runnable t = true := by
  have honce := h.once t ht
  have hpos := List.count_pos_iff.mpr hp
  by_contra hrun
  simp [hrun] at honce
  omega

theorem resume (hstep : SchedStep s (.resume t) s') (hguard : NextKept s (.resume t))
    : SchedInv s' := by
  rcases hstep with ⟨hidle, hplaces, hdone, he, hrun⟩
  have hnot := h.not_runnable hidle hplaces
  unfold schedResume at he
  rw [if_neg (h.state t hidle hnot hdone)] at he
  rcases Cpu.schedInsert_spec s.cpu t with ⟨cpu', heq, hframe, hcase⟩
  rw [heq] at he
  cases he
  have hperm := hcase.perm hguard
  constructor
  . exact hcase.sorted hframe h.sorted
  . intro u hu
    rw [hframe.same.idle] at hu
    have honce := h.once u hu
    unfold Cpu.places at honce ⊢
    rw [hframe.current, (hperm.cons _).count_eq, (List.Perm.swap t _ _).count_eq, List.count_cons,
      honce, hrun]
    by_cases hut : u = t
    . subst hut
      simp [hnot]
    . have : (t == u) = false := by simpa using fun heq => hut heq.symm
      simp [this, hut]
  . rw [hframe.same.idle, hperm.mem_iff, List.mem_cons, not_or]
    exact ⟨hidle.symm, h.idle⟩
  . intro u hu hnot' hdone'
    rw [hrun] at hnot'
    have hut : u ≠ t := by
      rintro rfl
      simp at hnot'
    rw [Function.update_of_ne hut] at hnot'
    rw [hframe.state u hut]
    rw [hframe.same.idle] at hu
    rw [hframe.done] at hdone'
    exact h.state u hu hnot' hdone'

theorem reschedule (hstep : SchedStep s .reschedule s') (hguard : NextKept s .reschedule)
    : SchedInv s' := by
  rcases hstep with ⟨hcpu, hrun⟩
  unfold schedReschedule at hcpu
  split at hcpu
  . cases s
    cases s'
    cases hcpu
    cases hrun
    exact h
  . next next cpu1 heq =>
    rcases Cpu.schedNext_eq_some heq with ⟨p, hp, hpop⟩
    have hnone : s.cpu.threadNext = none := by
      rcases hguard with hnone | hempty
      . exact hnone
      . rcases hpop.queue with ⟨rest, hq, _⟩
        have := hempty p hp
        simp [hq] at this
    have hperm : s'.cpu.ready.Perm s.cpu.ready := by
      unfold Cpu.ready
      rw [hcpu, hnone]
      exact hpop.perm
    have hcur : s'.cpu.threadCurrent = s.cpu.threadCurrent := by
      rw [hcpu]
      exact hpop.current
    have hidle : s'.cpu.idleThread = s.cpu.idleThread := by
      rw [hcpu]
      exact hpop.same.idle
    constructor
    . rw [hcpu]
      have hsorted := h.sorted.popped hpop
      exact hsorted
    . intro u hu
      rw [hidle] at hu
      have honce := h.once u hu
      unfold Cpu.places at honce ⊢
      rw [hcur, (hperm.cons _).count_eq, honce, hrun]
    . rw [hidle, hperm.mem_iff]
      exact h.idle
    . intro u hu hnot hdone
      rw [hcpu] at hdone ⊢
      dsimp only at hdone ⊢
      rw [hidle] at hu
      rw [hrun] at hnot
      rw [hpop.done] at hdone
      rw [hpop.thread]
      exact h.state u hu hnot hdone

theorem preempt (hstep : SchedStep s .preempt s') : SchedInv s' := by
  rcases hstep with ⟨hsome, he, hrun⟩
  rcases Option.isSome_iff_exists.mp hsome with ⟨n, hn⟩
  rcases Cpu.schedPreempt_spec hn with ⟨cpu', heq, hpre⟩
  rw [heq, Except.ok.injEq] at he
  subst he
  have hsub : ∀ u, u ≠ s.cpu.idleThread → s'.cpu.places.count u = s.cpu.places.count u := by
    intro u hu
    rw [hpre.places.count_eq]
    split
    . next hcur =>
      unfold Cpu.places
      rw [hcur, List.count_cons]
      simp [hu.symm]
    . rfl
  constructor
  . exact hpre.sorted h.sorted
  . intro u hu
    rw [hpre.same.idle] at hu
    rw [hsub u hu, h.once u hu, hrun]
  . rw [hpre.same.idle]
    intro hmem
    have hplaces : s.cpu.idleThread ∈ s'.cpu.places := List.mem_cons_of_mem _ hmem
    rw [hpre.places.mem_iff] at hplaces
    split at hplaces
    . exact h.idle hplaces
    . next hcur =>
      rcases List.mem_cons.mp hplaces with heq | hready
      . exact hcur heq.symm
      . exact h.idle hready
  . intro u hu hnot hdone
    rw [hpre.same.idle] at hu
    rw [hrun] at hnot
    rw [hpre.done] at hdone
    rw [hpre.state u]
    . exact h.state u hu hnot hdone
    . left
      rintro rfl
      rw [h.runnable hu List.mem_cons_self] at hnot
      cases hnot

theorem leave {cpu : Cpu θ} (hcur : s.cpu.threadCurrent ≠ s.cpu.idleThread)
    (hrun : s'.runnable = Function.update s.runnable s.cpu.threadCurrent false)
    (hyield : Cpu.Yielded cpu s'.cpu) (hsame : Cpu.Same s.cpu cpu) (hq : cpu.runQueues = s.cpu.runQueues)
    (hready : cpu.ready = s.cpu.ready)
    (hstate : ∀ u, u ≠ s.cpu.threadCurrent → (cpu.thread u).state = (s.cpu.thread u).state)
    (hdone : ∀ u ∈ s.cpu.doneQueue, u ∈ cpu.doneQueue)
    (hself : s.cpu.threadCurrent ∉ cpu.doneQueue → (cpu.thread s.cpu.threadCurrent).state ≠ .ready)
    : SchedInv s' := by
  have hidle : s'.cpu.idleThread = s.cpu.idleThread := hyield.same.idle.trans hsame.idle
  have hcount : ∀ u, u ≠ s.cpu.idleThread → s'.cpu.places.count u = s.cpu.ready.count u := by
    intro u hu
    rcases hyield.places with ⟨hcur', hready'⟩ | hperm
    . unfold Cpu.places
      rw [hcur', hready', hready, hsame.idle, List.count_cons]
      simp [hu.symm]
    . rw [hperm.count_eq, hready]
  constructor
  . exact hyield.sorted (h.sorted.kept hsame hq)
  . intro u hu
    rw [hidle] at hu
    have honce := h.once u hu
    rw [hcount u hu, hrun]
    unfold Cpu.places at honce
    rw [List.count_cons] at honce
    by_cases huc : u = s.cpu.threadCurrent
    . subst huc
      rw [h.runnable hcur List.mem_cons_self] at honce
      simp only [beq_self_eq_true, if_true, Nat.add_eq_right] at honce
      simpa using honce
    . have : (s.cpu.threadCurrent == u) = false := by simpa using fun heq => huc heq.symm
      rw [this] at honce
      rw [Function.update_of_ne huc]
      simpa using honce
  . rw [hidle]
    rcases hyield.places with ⟨_, hready'⟩ | hperm
    . rw [hready', hready]
      exact h.idle
    . intro hmem
      apply h.idle
      rw [← hready, ← hperm.mem_iff]
      exact List.mem_cons_of_mem _ hmem
  . intro u hu hnot hdone'
    rw [hidle] at hu
    rw [hyield.done] at hdone'
    rw [hyield.thread]
    by_cases huc : u = s.cpu.threadCurrent
    . subst huc
      exact hself hdone'
    . rw [hrun, Function.update_of_ne huc] at hnot
      rw [hstate u huc]
      exact h.state u hu hnot (fun hmem => hdone' (hdone u hmem))

theorem block (hstep : SchedStep s .block s') : SchedInv s' := by
  rcases hstep with ⟨hcur, hcpu, hrun⟩
  have hyield : Cpu.Yielded (s.cpu.setState s.cpu.threadCurrent .waiting) s'.cpu := by
    rw [hcpu]
    exact Cpu.schedYieldInternal_spec _
  apply h.leave hcur hrun hyield
  . exact ⟨rfl, fun t => Cpu.priority_setState _ _ t _⟩
  . rfl
  . rfl
  . intro u hu
    exact Cpu.state_setState_of_ne _ _ hu
  . exact fun u hu => hu
  . intro _
    rw [Cpu.state_setState_self]
    simp

theorem exit (hstep : SchedStep s .exit s') : SchedInv s' := by
  rcases hstep with ⟨hcur, hcpu, hrun⟩
  have hyield : Cpu.Yielded
      { s.cpu with queues.doneQueue := s.cpu.doneQueue ++ [s.cpu.threadCurrent] } s'.cpu := by
    rw [hcpu]
    exact Cpu.schedYieldInternal_spec _
  apply h.leave hcur hrun hyield
  . exact ⟨rfl, fun t => rfl⟩
  . rfl
  . rfl
  . exact fun u _ => rfl
  . intro u hu
    exact List.mem_append_left _ hu
  . intro hmem
    exact absurd (List.mem_append_right _ (List.mem_singleton_self _)) hmem

theorem step {op : SchedOp θ} (hstep : Guarded NextKept SchedStep s op s') : SchedInv s' := by
  rcases hstep with ⟨hguard, hstep⟩
  cases op with
  | resume t => exact h.resume hstep hguard
  | reschedule => exact h.reschedule hstep hguard
  | preempt => exact h.preempt hstep
  | block => exact h.block hstep
  | exit => exact h.exit hstep

end

end SchedInv

theorem runnable_in_one_place {s : SchedState θ} (h : Reach SchedInit (Guarded NextKept SchedStep) s)
    {t : θ} (ht : t ≠ s.cpu.idleThread) (hrun : s.runnable t = true)
    : InOnePlace s.cpu t := by
  have hinv : SchedInv s := h.invariant (fun s hs => .init hs) (fun s op s' hs => hs.step)
  apply inOnePlace_of_count hinv.sorted
  rw [hinv.once t ht, if_pos hrun]

def twoThreads : SchedState Nat where
  cpu := {
    threadCurrent := 0
    threadNext := none
    idleThread := 0
    thread := fun t => ⟨.null, (if t = 0 then 0#4 else if t = 1 then 6#4 else 7#4).toFin, 30⟩
    queues := ⟨fun _ => [], []⟩
    runMask := 0
    preemptionTimer := none
    softintPending := false }
  runnable := fun _ => false

theorem twoThreads_init : SchedInit twoThreads := by
  exact ⟨rfl, rfl, rfl, rfl, rfl, fun _ => rfl, fun _ => rfl⟩

theorem runnable_in_one_place_resumed
    : ∃ s : SchedState Nat, Reach SchedInit (Guarded NextKept SchedStep) s ∧
        s.runnable 1 = true ∧ InOnePlace s.cpu 1 := by
  have hstep : Guarded NextKept SchedStep twoThreads (.resume 1)
      ⟨{ twoThreads.cpu.setState 1 .ready |>.setState 1 .standby with
        threadNext := some 1, softintPending := true }, Function.update (fun _ => false) 1 true⟩ := by
    refine ⟨?_, by decide, by decide, by decide, rfl, rfl⟩
    intro n hn
    cases hn
  have hreach := Reach.next (.start twoThreads_init) hstep
  exact ⟨_, hreach, by decide, runnable_in_one_place hreach (by decide) (by decide)⟩

theorem second_resume_loses_thread
    : ∃ s1 s2 : SchedState Nat, SchedInit twoThreads ∧ SchedStep twoThreads (.resume 1) s1 ∧
        SchedStep s1 (.resume 2) s2 ∧ 1 ≠ s2.cpu.idleThread ∧ s2.runnable 1 = true ∧
        ¬ InOnePlace s2.cpu 1 := by
  refine ⟨⟨_, _⟩, ⟨_, _⟩, twoThreads_init, ⟨by decide, by decide, by decide, rfl, rfl⟩,
    ⟨by decide, by decide, by decide, rfl, rfl⟩, by decide, by decide, ?_⟩
  unfold InOnePlace
  decide

theorem SchedInv.next_once {s : SchedState θ} {n : θ} (h : SchedInv s) (hn : s.cpu.threadNext = some n)
    : n ≠ s.cpu.idleThread ∧ s.runnable n = true ∧ n ≠ s.cpu.threadCurrent ∧
        n ∉ Buckets.all s.cpu.runQueues := by
  have hready : s.cpu.ready = n :: Buckets.all s.cpu.runQueues := by
    unfold Cpu.ready
    rw [hn]
    rfl
  have hidle : n ≠ s.cpu.idleThread := by
    rintro rfl
    apply h.idle
    rw [hready]
    exact List.mem_cons_self
  have honce := h.once n hidle
  unfold Cpu.places at honce
  rw [hready, List.count_cons, List.count_cons_self] at honce
  have hrun : s.runnable n = true := by
    by_contra hrun
    simp [hrun] at honce
  rw [if_pos hrun] at honce
  refine ⟨hidle, hrun, ?_, ?_⟩
  . rintro rfl
    simp at honce
  . rw [← List.count_eq_zero]
    omega

theorem lost_of_not_nextKept {s s' : SchedState θ} {op : SchedOp θ} (h : SchedInv s)
    (hstep : SchedStep s op s') (hguard : ¬ NextKept s op)
    : ∃ t, t ≠ s'.cpu.idleThread ∧ s'.runnable t = true ∧ t ∉ s'.cpu.places := by
  cases op with
  | resume t =>
    rcases hstep with ⟨hidle, hplaces, hdone, he, hrun⟩
    unfold NextKept at hguard
    push Not at hguard
    rcases hguard with ⟨n, hn, hprio⟩
    rcases h.next_once hn with ⟨hnidle, hnrun, hncur, hnq⟩
    have htn : n ≠ t := by
      rintro rfl
      apply hplaces
      unfold Cpu.places Cpu.ready
      simp [hn]
    unfold schedResume at he
    rw [if_neg (h.state t hidle (h.not_runnable hidle hplaces) hdone)] at he
    rcases Cpu.schedInsert_spec s.cpu t with ⟨cpu', heq, hframe, hcase⟩
    rw [heq, Except.ok.injEq] at he
    subst he
    refine ⟨n, ?_, ?_, ?_⟩
    . rw [hframe.same.idle]
      exact hnidle
    . rw [hrun, Function.update_of_ne htn]
      exact hnrun
    . cases hcase with
      | queued hle _ _ =>
        rw [hn] at hle
        exact absurd hle (not_le_of_gt hprio)
      | next hnone _ _ _ =>
        rw [hn] at hnone
        cases hnone
      | both _ _ _ hnext hqueues =>
        unfold Cpu.places Cpu.ready
        rw [hframe.current, hnext, hqueues]
        simp only [List.mem_cons, List.mem_append, (Buckets.all_push _ _ _).mem_iff]
        simp [hncur, htn, hnq]
  | reschedule =>
    rcases hstep with ⟨hcpu, hrun⟩
    unfold NextKept at hguard
    push Not at hguard
    rcases hguard with ⟨hsome, p, hp, hq⟩
    rcases Option.ne_none_iff_exists'.mp hsome with ⟨n, hn⟩
    rcases h.next_once hn with ⟨hnidle, hnrun, hncur, hnq⟩
    unfold schedReschedule at hcpu
    split at hcpu
    . next heq => exact absurd (Cpu.schedNext_eq_none heq hp) hq
    . next x cpu1 heq =>
      rcases Cpu.schedNext_eq_some heq with ⟨_, _, hpop⟩
      have hperm := hpop.perm
      have hnx : n ∉ x :: Buckets.all cpu1.runQueues := by
        rw [hperm.mem_iff]
        exact hnq
      refine ⟨n, ?_, ?_, ?_⟩
      . rw [hcpu]
        dsimp only
        rw [hpop.same.idle]
        exact hnidle
      . rw [hrun]
        exact hnrun
      . unfold Cpu.places Cpu.ready
        rw [hcpu]
        dsimp only
        rw [hpop.current]
        simpa [hncur] using hnx
  | preempt => exact absurd trivial hguard
  | block => exact absurd trivial hguard
  | exit => exact absurd trivial hguard

/--
As long as no runnable thread got lost, a step loses none exactly if it replaces no thread chosen to run next.
-/
theorem step_keeps_threads_iff {s s' : SchedState θ} {op : SchedOp θ}
    (hr : Reach SchedInit (Guarded NextKept SchedStep) s) (hstep : SchedStep s op s')
    : (∀ t, t ≠ s'.cpu.idleThread → s'.runnable t = true → t ∈ s'.cpu.places) ↔ NextKept s op := by
  have h : SchedInv s := hr.invariant (fun s hs => .init hs) (fun s op s' hs => hs.step)
  constructor
  . intro hplaces
    by_contra hguard
    rcases lost_of_not_nextKept h hstep hguard with ⟨t, ht, hrun, hlost⟩
    exact hlost (hplaces t ht hrun)
  . intro hkept t ht hrun
    have hcount := (h.step ⟨hkept, hstep⟩).once t ht
    rw [if_pos hrun] at hcount
    exact List.count_pos_iff.mp (by omega)

def oneResumed : SchedState Nat where
  cpu := { twoThreads.cpu.setState 1 .ready |>.setState 1 .standby with
    threadNext := some 1, softintPending := true }
  runnable := Function.update (fun _ => false) 1 true

theorem step_keeps_threads_iff_second
    : ∃ s', SchedStep oneResumed (.resume 2) s' ∧
        ¬ ∀ t, t ≠ s'.cpu.idleThread → s'.runnable t = true → t ∈ s'.cpu.places := by
  have hfirst : Guarded NextKept SchedStep twoThreads (.resume 1) oneResumed :=
    ⟨nofun, by decide, by decide, by decide, rfl, rfl⟩
  have hsecond : ∃ s', SchedStep oneResumed (.resume 2) s' :=
    ⟨⟨_, _⟩, by decide, by decide, by decide, rfl, rfl⟩
  rcases hsecond with ⟨s', hstep⟩
  refine ⟨s', hstep, ?_⟩
  rw [step_keeps_threads_iff (.next (.start twoThreads_init) hfirst) hstep]
  intro hkept
  exact absurd (hkept 1 rfl) (by decide)

end Sched
end Nyy
