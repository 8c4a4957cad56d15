import NyyKernel.Dispatch.Lemmas
import NyyKernel.Lib.Run
import NyyKernel.Timer.Impl

namespace Nyy

structure TimerSys (τ θ : Type) where
  machine : Machine τ θ
  firing : Nat → Option τ

-- A call of `time_engine_progress` is a sequence of `pop` and `satisfy`.
inductive TimerOp (τ : Type) where
  | init (tp : τ)
  | set (cpu : Nat) (tp : τ) (deadline : Nat) (dpc : Option Nat)
  | install (cpu : Nat) (tp : τ) (context1 context2 : Nat)
  | uninstall (cpu : Nat) (tp : τ)
  | pop (cpu now : Nat) (root : Option τ)
  | satisfy (cpu : Nat)

namespace TimerSys

variable {τ θ : Type}

def Enabled (s : TimerSys τ θ) : TimerOp τ → Prop
  | .init tp => (s.machine.timer tp).timerState ≠ .queued
  | .pop cpu _ root => s.firing cpu = none ∧ s.machine.Peek cpu root
  | _ => True

def Init (s : TimerSys τ θ) : Prop :=
  (∀ ep, s.machine.heap ep = []) ∧ (∀ cpu, s.firing cpu = none) ∧
    ∀ tp, (s.machine.timer tp).engine = none ∧ (s.machine.timer tp).timerState = .unused

def step [DecidableEq τ] [DecidableEq θ] (cfg : Config) (s : TimerSys τ θ)
    : TimerOp τ → Except Fault (TimerSys τ θ)
  | .init tp => return { s with machine := s.machine.timerInit tp }
  | .set cpu tp deadline dpc => do
    return { s with machine := ← Machine.timerSet cpu s.machine tp deadline dpc }
  | .install cpu tp context1 context2 => do
    return { s with machine := ← Machine.timerInstall cfg cpu s.machine tp context1 context2 }
  | .uninstall cpu tp => do
    return { s with machine := ← Machine.timerUninstall cpu s.machine tp }
  | .pop cpu now root => do
    let (fired, m) ← Machine.timeEngineProgressPop cpu s.machine now root
    return ⟨m, Function.update s.firing cpu fired⟩
  | .satisfy cpu =>
    match s.firing cpu with
    | some root => do
      let m ← Machine.timeEngineProgressSatisfy cfg s.machine root
      return ⟨m, Function.update s.firing cpu none⟩
    | none => return s

def Step [DecidableEq τ] [DecidableEq θ] (cfg : Config) (s : TimerSys τ θ) (op : TimerOp τ)
    (s' : TimerSys τ θ) : Prop :=
  s.Enabled op ∧ s.step cfg op = .ok s'

end TimerSys

namespace Machine

variable {τ θ : Type} {m m' : Machine τ θ} {ep : Nat} {tp : τ}

structure QueueInv (m : Machine τ θ) : Prop where
  nodup : ∀ ep, (m.heap ep).Nodup
  heap : ∀ tp ep, tp ∈ m.heap ep ↔ (m.timer tp).engine = some ep
  state : ∀ tp, (m.timer tp).timerState = .queued ↔ (m.timer tp).engine ≠ none

theorem heap_setEngine_self (m : Machine τ θ) (ep : Nat) (engine : TimerEngine τ)
    : (m.setEngine ep engine).heap ep = engine.timerlist := by
  simp [heap, setEngine]

theorem heap_setEngine_of_ne (m : Machine τ θ) {ep' : Nat} (engine : TimerEngine τ) (h : ep' ≠ ep)
    : (m.setEngine ep engine).heap ep' = m.heap ep' := by
  simp [heap, setEngine, h]

theorem heap_setEngine_same (m : Machine τ θ) {engine : TimerEngine τ} (h : engine.timerlist = m.heap ep)
    (ep' : Nat)
    : (m.setEngine ep engine).heap ep' = m.heap ep' := by
  by_cases hep : ep' = ep
  . rw [hep, heap_setEngine_self, h]
  . exact heap_setEngine_of_ne m engine hep

theorem QueueInv.of_same (h : QueueInv m) (hheap : ∀ ep, m'.heap ep = m.heap ep)
    (hengine : ∀ tp, (m'.timer tp).engine = (m.timer tp).engine)
    (hstate : ∀ tp, (m'.timer tp).timerState = .queued ↔ (m.timer tp).timerState = .queued)
    : QueueInv m' := by
  constructor
  . intro ep
    rw [hheap]
    exact h.nodup ep
  . intro tp ep
    rw [hheap, hengine]
    exact h.heap tp ep
  . intro tp
    rw [hstate, hengine]
    exact h.state tp

theorem QueueInv.not_queued (h : QueueInv m) (hs : (m.timer tp).timerState ≠ .queued)
    : (m.timer tp).engine = none := by
  by_contra hne
  exact hs ((h.state tp).mpr hne)

variable [DecidableEq τ]

theorem QueueInv.count (h : QueueInv m) (tp : τ) (ep : Nat)
    : (m.heap ep).count tp = if (m.timer tp).engine = some ep then 1 else 0 := by
  split
  . next hep => exact List.count_eq_one_of_mem (h.nodup ep) ((h.heap tp ep).mpr hep)
  . next hep =>
    rw [List.count_eq_zero, h.heap]
    exact hep

theorem setTimer_self (m : Machine τ θ) (tp : τ) (timer : Timer θ)
    : (m.setTimer tp timer).timer tp = timer := by
  simp [setTimer]

theorem setTimer_of_ne (m : Machine τ θ) {u : τ} (timer : Timer θ) (h : u ≠ tp)
    : (m.setTimer tp timer).timer u = m.timer u := by
  simp [setTimer, h]

theorem QueueInv.setTimer {timer : Timer θ} (h : QueueInv m) (hengine : (m.timer tp).engine = none)
    (hengine' : timer.engine = none) (hstate : timer.timerState ≠ .queued)
    : QueueInv (m.setTimer tp timer) := by
  refine h.of_same (fun _ => rfl) ?_ ?_
  . intro u
    by_cases hu : u = tp
    . rw [hu, setTimer_self, hengine, hengine']
    . rw [setTimer_of_ne _ _ hu]
  . intro u
    by_cases hu : u = tp
    . rw [hu, setTimer_self, h.state, hengine]
      simp [hstate]
    . rw [setTimer_of_ne _ _ hu]

theorem QueueInv.remove (h : QueueInv m) (hmem : tp ∈ m.heap ep) (hheap : m'.heap ep = (m.heap ep).erase tp)
    (hheaps : ∀ ep', ep' ≠ ep → m'.heap ep' = m.heap ep') (hother : ∀ u, u ≠ tp → m'.timer u = m.timer u)
    (hengine : (m'.timer tp).engine = none) (hstate : (m'.timer tp).timerState ≠ .queued)
    : QueueInv m' := by
  have hep := (h.heap tp ep).mp hmem
  constructor
  . intro ep'
    by_cases he : ep' = ep
    . rw [he, hheap]
      exact (h.nodup ep).erase tp
    . rw [hheaps ep' he]
      exact h.nodup ep'
  . intro u ep'
    by_cases hu : u = tp
    . subst hu
      rw [hengine]
      by_cases he : ep' = ep
      . simp [he, hheap, (h.nodup ep).mem_erase_iff]
      . simp [hheaps ep' he, h.heap, hep, Ne.symm he]
    . rw [hother u hu, ← h.heap]
      by_cases he : ep' = ep
      . rw [he, hheap, (h.nodup ep).mem_erase_iff]
        simp [hu]
      . rw [hheaps ep' he]
  . intro u
    by_cases hu : u = tp
    . subst hu
      simp [hengine, hstate]
    . rw [hother u hu]
      exact h.state u

theorem QueueInv.insert (h : QueueInv m) (hnone : (m.timer tp).engine = none)
    (hheap : m'.heap ep = tp :: m.heap ep) (hheaps : ∀ ep', ep' ≠ ep → m'.heap ep' = m.heap ep')
    (hother : ∀ u, u ≠ tp → m'.timer u = m.timer u) (hengine : (m'.timer tp).engine = some ep)
    (hstate : (m'.timer tp).timerState = .queued)
    : QueueInv m' := by
  have hnot : ∀ ep', tp ∉ m.heap ep' := by
    intro ep'
    simp [h.heap, hnone]
  constructor
  . intro ep'
    by_cases he : ep' = ep
    . rw [he, hheap, List.nodup_cons]
      exact ⟨hnot ep, h.nodup ep⟩
    . rw [hheaps ep' he]
      exact h.nodup ep'
  . intro u ep'
    by_cases hu : u = tp
    . subst hu
      rw [hengine]
      by_cases he : ep' = ep
      . simp [he, hheap]
      . simp [hheaps ep' he, hnot ep', Ne.symm he]
    . rw [hother u hu, ← h.heap]
      by_cases he : ep' = ep
      . simp [he, hheap, hu]
      . rw [hheaps ep' he]
  . intro u
    by_cases hu : u = tp
    . subst hu
      simp [hengine, hstate]
    . rw [hother u hu]
      exact h.state u

theorem heapRemove_of_mem (hmem : tp ∈ m.heap ep)
    : m.heapRemove ep tp =
        .ok (m.setEngine ep { m.engine ep with timerlist := (m.heap ep).erase tp }) := by
  unfold heapRemove
  rw [if_pos hmem]
  rfl

theorem heapInsert_of_not_mem (hmem : tp ∉ m.heap ep)
    : m.heapInsert ep tp = .ok (m.setEngine ep { m.engine ep with timerlist := tp :: m.heap ep }) := by
  unfold heapInsert
  rw [if_neg hmem]
  rfl

structure Touches (m m' : Machine τ θ) (tp : τ) : Prop where
  other : ∀ u, u ≠ tp → m'.timer u = m.timer u
  deadline : (m'.timer tp).deadline = (m.timer tp).deadline

omit [DecidableEq τ] in
theorem Touches.deadlines [DecidableEq τ] (h : Touches m m' tp) (u : τ)
    : (m'.timer u).deadline = (m.timer u).deadline := by
  by_cases hu : u = tp
  . rw [hu, h.deadline]
  . rw [h.other u hu]

def pulled (m : Machine τ θ) (ep : Nat) (tp : τ) (state : TimerState) : Machine τ θ :=
  (m.setEngine ep { m.engine ep with timerlist := (m.heap ep).erase tp }).setTimer tp
    { m.timer tp with engine := none, timerState := state }

section

variable (h : QueueInv m)

include h

theorem QueueInv.pulled (hmem : tp ∈ m.heap ep) {state : TimerState} (hstate : state ≠ .queued)
    : QueueInv (m.pulled ep tp state) ∧ Touches m (m.pulled ep tp state) tp := by
  unfold Machine.pulled
  refine ⟨h.remove hmem ?_ ?_ ?_ ?_ ?_, ?_, ?_⟩
  . exact heap_setEngine_self ..
  . exact fun ep' he => heap_setEngine_of_ne _ _ he
  . exact fun u hu => setTimer_of_ne _ _ hu
  . rw [setTimer_self]
  . rw [setTimer_self]
    exact hstate
  . exact fun u hu => setTimer_of_ne _ _ hu
  . rw [setTimer_self]

omit [DecidableEq τ] in
theorem QueueInv.dpcEnqueue (cpu : Nat) : QueueInv (m.dpcEnqueue cpu) := by
  exact h.of_same (heap_setEngine_same m rfl) (fun _ => rfl) (fun _ => Iff.rfl)

theorem QueueInv.timerUninstall (cpu : Nat) (tp : τ)
    : ∃ m', timerUninstall cpu m tp = .ok m' ∧ QueueInv m' ∧ Touches m m' tp ∧
        (m'.timer tp).engine = none ∧ (m'.timer tp).timerState = .canceled := by
  unfold Machine.timerUninstall timerUninstallSection
  cases hep : (m.timer tp).engine with
  | none =>
    refine ⟨_, rfl, h.setTimer hep ?_ ?_, ⟨?_, ?_⟩, ?_, ?_⟩
    . exact hep
    . simp
    . exact fun u hu => setTimer_of_ne _ _ hu
    . rw [setTimer_self]
    . rw [setTimer_self]
      exact hep
    . rw [setTimer_self]
  | some ep =>
    have hmem := (h.heap tp ep).mpr hep
    have hpulled := h.pulled hmem (show TimerState.canceled ≠ .queued by simp)
    dsimp only
    rw [heapRemove_of_mem hmem]
    refine ⟨(m.pulled ep tp .canceled).dpcEnqueue cpu, rfl, hpulled.1.dpcEnqueue cpu,
      ⟨hpulled.2.other, hpulled.2.deadline⟩, ?_, ?_⟩
    . exact congrArg Timer.engine (setTimer_self ..)
    . exact congrArg Timer.timerState (setTimer_self ..)

theorem QueueInv.timerSet (cpu : Nat) (tp : τ) (deadline : Nat) (dpc : Option Nat)
    : ∃ m', timerSet cpu m tp deadline dpc = .ok m' ∧ QueueInv m' ∧
        (∀ u, u ≠ tp → m'.timer u = m.timer u) ∧ (m'.timer tp).engine = none := by
  have hset : ∀ m1 : Machine τ θ, QueueInv m1 → (∀ u, u ≠ tp → m1.timer u = m.timer u) →
      (m1.timer tp).timerState ≠ .queued →
      QueueInv (m1.setTimer tp { m1.timer tp with dpc := dpc, deadline := deadline }) ∧
        (∀ u, u ≠ tp → (m1.setTimer tp { m1.timer tp with dpc := dpc, deadline := deadline }).timer u
          = m.timer u) ∧
        ((m1.setTimer tp { m1.timer tp with dpc := dpc, deadline := deadline }).timer tp).engine
          = none := by
    intro m1 h1 hother hstate
    have hnone := h1.not_queued hstate
    refine ⟨h1.setTimer hnone hnone hstate, ?_, ?_⟩
    . intro u hu
      rw [setTimer_of_ne _ _ hu]
      exact hother u hu
    . rw [setTimer_self]
      exact hnone
  unfold Machine.timerSet
  by_cases hq : (m.timer tp).timerState = .queued
  . rw [if_pos hq]
    rcases h.timerUninstall cpu tp with ⟨m1, heq, h1, htouches, _, hstate⟩
    rw [heq]
    exact ⟨_, rfl, hset m1 h1 htouches.other (by simp [hstate])⟩
  . rw [if_neg hq, pure_bind]
    exact ⟨_, rfl, hset m h (fun _ _ => rfl) hq⟩

theorem QueueInv.timerInstall (cfg : Config) (cpu : Nat) (tp : τ) (context1 context2 : Nat)
    : timerInstall cfg cpu m tp context1 context2 = .error .assertion ∨
        ∃ m', timerInstall cfg cpu m tp context1 context2 = .ok m' ∧ QueueInv m' ∧
          Touches m m' tp ∧ (m'.timer tp).engine.isSome = true := by
  unfold Machine.timerInstall
  rcases check_cases cfg ((m.timer tp).timerState != .queued) with hcheck | hcheck
  . right
    rw [hcheck, Except.ok_bind]
    cases hep : (m.timer tp).engine with
    | some ep => exact ⟨m, rfl, h, ⟨fun _ _ => rfl, rfl⟩, by simp [hep]⟩
    | none =>
      have hnot : tp ∉ m.heap cpu := by simp [h.heap, hep]
      dsimp only
      rw [if_neg (by simp), heapInsert_of_not_mem (by exact hnot)]
      refine ⟨_, rfl, QueueInv.dpcEnqueue ?_ cpu, ⟨?_, ?_⟩, ?_⟩
      . refine h.insert hep (heap_setEngine_self ..) ?_ ?_ ?_ ?_
        . exact fun ep' he => heap_setEngine_of_ne _ _ he
        . exact fun u hu => setTimer_of_ne m _ hu
        . change (Function.update m.timer tp _ tp).engine = _
          rw [Function.update_self]
        . change (Function.update m.timer tp _ tp).timerState = _
          rw [Function.update_self]
      . exact fun u hu => setTimer_of_ne m _ hu
      . change (Function.update m.timer tp _ tp).deadline = _
        rw [Function.update_self]
      . change (Function.update m.timer tp _ tp).engine.isSome = _
        rw [Function.update_self]
        rfl
  . left
    rw [hcheck]
    rfl

theorem QueueInv.timeEngineProgressPop (cpu now : Nat) {root : Option τ} (hpeek : m.Peek cpu root)
    : ∃ fired m', timeEngineProgressPop cpu m now root = .ok (fired, m') ∧ QueueInv m' ∧
        match fired with
        | none => m'.timer = m.timer
        | some tp => Touches m m' tp ∧ (m.timer tp).engine = some cpu ∧
          (m'.timer tp).engine = none := by
  unfold Machine.timeEngineProgressPop
  cases root with
  | none =>
    refine ⟨none, _, rfl, h.of_same (heap_setEngine_same m rfl) ?_ ?_, rfl⟩
    . exact fun _ => rfl
    . exact fun _ => Iff.rfl
  | some root =>
    dsimp only
    split
    . refine ⟨none, _, rfl, h.of_same (heap_setEngine_same m rfl) ?_ ?_, rfl⟩
      . exact fun _ => rfl
      . exact fun _ => Iff.rfl
    . have hpulled := h.pulled hpeek.1 (show TimerState.fired ≠ .queued by simp)
      rw [heapRemove_of_mem hpeek.1]
      refine ⟨some root, m.pulled cpu root .fired, rfl, hpulled.1, hpulled.2,
        (h.heap root cpu).mp hpeek.1, ?_⟩
      exact congrArg Timer.engine (setTimer_self ..)

theorem QueueInv.timeEngineProgressSatisfy [DecidableEq θ] {cfg : Config} {root : τ}
    (he : timeEngineProgressSatisfy cfg m root = .ok m')
    : QueueInv m' ∧ Touches m m' root ∧ ∀ ep, m'.heap ep = m.heap ep := by
  unfold Machine.timeEngineProgressSatisfy at he
  split at he
  . rcases Except.bind_eq_ok he with ⟨d, _, he⟩
    cases he
    refine ⟨h.of_same (fun _ => rfl) ?_ ?_, ⟨?_, ?_⟩, fun _ => rfl⟩
    . intro u
      by_cases hu : u = root
      . rw [hu, setTimer_self]
      . rw [setTimer_of_ne _ _ hu]
    . intro u
      by_cases hu : u = root
      . rw [hu, setTimer_self]
      . rw [setTimer_of_ne _ _ hu]
    . exact fun u hu => setTimer_of_ne _ _ hu
    . rw [setTimer_self]
  . cases he
    exact ⟨h, ⟨fun _ _ => rfl, rfl⟩, fun _ => rfl⟩

theorem QueueInv.timerInit (hstate : (m.timer tp).timerState ≠ .queued)
    : QueueInv (m.timerInit tp) := by
  exact h.setTimer (h.not_queued hstate) rfl (by simp)

end

end Machine

namespace TimerSys

variable {τ θ : Type} [DecidableEq τ] [DecidableEq θ] {cfg : Config} {s s' : TimerSys τ θ} {op : TimerOp τ}

omit [DecidableEq τ] [DecidableEq θ] in
theorem queueInv_init (h : Init s) : s.machine.QueueInv := by
  constructor
  . intro ep
    simp [h.1 ep]
  . intro tp ep
    simp [h.1 ep, (h.2.2 tp).1]
  . intro tp
    simp [h.2.2 tp]

theorem queueInv_step (h : s.machine.QueueInv) (hstep : Step cfg s op s')
    : s'.machine.QueueInv ∧ ∀ tp ep, tp ∈ s.machine.heap ep → tp ∈ s'.machine.heap ep →
        (s'.machine.timer tp).deadline = (s.machine.timer tp).deadline := by
  rcases hstep with ⟨henabled, he⟩
  cases op with
  | init tp =>
    cases he
    refine ⟨h.timerInit henabled, ?_⟩
    intro u ep hu _
    apply congrArg Timer.deadline
    apply Machine.setTimer_of_ne
    rintro rfl
    exact henabled ((h.state u).mpr (by simp [(h.heap u ep).mp hu]))
  | set cpu tp deadline dpc =>
    rcases h.timerSet cpu tp deadline dpc with ⟨m', heq, h', hother, hnone⟩
    unfold TimerSys.step at he
    dsimp only at he
    rw [heq] at he
    cases he
    refine ⟨h', ?_⟩
    intro u ep _ hu
    apply congrArg Timer.deadline
    apply hother
    rintro rfl
    have := (h'.heap u ep).mp hu
    simp [hnone] at this
  | install cpu tp context1 context2 =>
    unfold TimerSys.step at he
    dsimp only at he
    rcases h.timerInstall cfg cpu tp context1 context2 with heq | ⟨m', heq, h', htouches, _⟩
    . rw [heq] at he
      cases he
    . rw [heq] at he
      cases he
      exact ⟨h', fun u _ _ _ => htouches.deadlines u⟩
  | uninstall cpu tp =>
    rcases h.timerUninstall cpu tp with ⟨m', heq, h', htouches, _⟩
    unfold TimerSys.step at he
    dsimp only at he
    rw [heq] at he
    cases he
    exact ⟨h', fun u _ _ _ => htouches.deadlines u⟩
  | pop cpu now root =>
    rcases h.timeEngineProgressPop cpu now henabled.2 with ⟨fired, m', heq, h', hfired⟩
    unfold TimerSys.step at he
    dsimp only at he
    rw [heq] at he
    cases he
    refine ⟨h', ?_⟩
    intro u _ _ _
    cases fired with
    | none => exact congrArg Timer.deadline (congrFun hfired u)
    | some tp => exact hfired.1.deadlines u
  | satisfy cpu =>
    unfold TimerSys.step at he
    dsimp only at he
    split at he
    . rcases Except.bind_eq_ok he with ⟨m', hm', he⟩
      cases he
      rcases h.timeEngineProgressSatisfy hm' with ⟨h', htouches, _⟩
      exact ⟨h', fun u _ _ _ => htouches.deadlines u⟩
    . cases he
      exact ⟨h, fun _ _ _ _ => rfl⟩

theorem queueInv (h : Reach Init (Step cfg) s) : s.machine.QueueInv := by
  induction h with
  | start h => exact queueInv_init h
  | next _ hstep ih => exact (queueInv_step ih hstep).1

theorem step_defined (h : s.machine.QueueInv) (henabled : s.Enabled op)
    : s.step cfg op ≠ .error .undefined := by
  intro he
  unfold TimerSys.step at he
  cases op with
  | init tp => cases he
  | set cpu tp deadline dpc =>
    rcases h.timerSet cpu tp deadline dpc with ⟨m', heq, _⟩
    dsimp only at he
    rw [heq] at he
    cases he
  | install cpu tp context1 context2 =>
    dsimp only at he
    rcases h.timerInstall cfg cpu tp context1 context2 with heq | ⟨m', heq, _⟩
    . rw [heq] at he
      cases he
    . rw [heq] at he
      cases he
  | uninstall cpu tp =>
    rcases h.timerUninstall cpu tp with ⟨m', heq, _⟩
    dsimp only at he
    rw [heq] at he
    cases he
  | pop cpu now root =>
    rcases h.timeEngineProgressPop cpu now henabled.2 with ⟨fired, m', heq, _⟩
    dsimp only at he
    rw [heq] at he
    cases he
  | satisfy cpu =>
    dsimp only at he
    split at he
    . next root _ =>
      unfold Machine.timeEngineProgressSatisfy at he
      split at he
      . cases hsat : objSatisfy cfg (s.machine.disp root) true with
        | ok d =>
          rw [hsat] at he
          cases he
        | error e =>
          rw [hsat] at he
          cases he
          cases Disp.objSatisfyList_error hsat
      . cases he
    . cases he

theorem timer_queue_consistent {s : TimerSys τ θ} (hr : Reach Init (Step cfg) s)
    : (∀ tp, ((s.machine.timer tp).engine ≠ none ↔ (s.machine.timer tp).timerState = .queued) ∧
        ∀ ep, (s.machine.heap ep).count tp =
          if (s.machine.timer tp).engine = some ep then 1 else 0) ∧
      (∀ op s', Step cfg s op s' → ∀ tp ep, tp ∈ s.machine.heap ep → tp ∈ s'.machine.heap ep →
        (s'.machine.timer tp).deadline = (s.machine.timer tp).deadline) ∧
      ∀ op, s.Enabled op → s.step cfg op ≠ .error .undefined := by
  have h := queueInv hr
  refine ⟨?_, fun op s' hstep => (queueInv_step h hstep).2, fun op => step_defined h⟩
  intro tp
  exact ⟨(h.state tp).symm, h.count tp⟩

def unusedTimers : TimerSys Nat Nat where
  machine :=
    { timer := fun _ => ⟨objInit .timer, none, 0, .unused, none⟩
      wait := fun _ => ⟨.running, statusOk, -1, false, false⟩
      engine := fun _ => ⟨[], 0, 0, false⟩
      context := fun _ => (0, 0) }
  firing := fun _ => none

theorem timer_queue_consistent_install
    : ∃ s : TimerSys Nat Nat, Reach Init (Step ⟨false⟩) s ∧ (s.machine.heap 1).count 7 = 1 := by
  have h0 : Reach Init (Step ⟨false⟩) unusedTimers :=
    .start ⟨fun _ => rfl, fun _ => rfl, fun _ => ⟨rfl, rfl⟩⟩
  have h1 := h0.next (e := TimerOp.set 1 7 100 none) ⟨trivial, rfl⟩
  have h2 := h1.next (e := TimerOp.install 1 7 0 0) ⟨trivial, rfl⟩
  refine ⟨_, h2, ?_⟩
  rw [((timer_queue_consistent h2).1 7).2 1]
  rfl

end TimerSys
end Nyy
