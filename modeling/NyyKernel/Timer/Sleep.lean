import NyyKernel.Timer.Queue

namespace Nyy

inductive SleepPc where
  | idle
  | set
  | install
  -- In front of the section of `sched_wait_single`.
  | wait
  | blocked
  deriving DecidableEq, Repr

structure SleepSys (θ : Type) where
  timers : Machine θ θ
  cpu : Nat
  pc : θ → SleepPc
  clock : Nat

inductive SleepOp (θ : Type) where
  | call (t : θ)
  | set (t : θ) (ns : Nat)
  | install (t : θ)
  | wait (t : θ)
  | ret (t : θ)
  | tick (ns : Nat)
  -- The dpc runs one round of its loop.
  | progress

section

variable {θ : Type} [DecidableEq θ]

def Machine.setDisp (m : Machine θ θ) (t : θ) (d : Disp θ) : Machine θ θ :=
  { m.setTimer t { m.timer t with hdr := d.hdr } with wait := d.wait }

omit [DecidableEq θ] in
def SleepSys.timerlist (s : SleepSys θ) : List θ := s.timers.heap s.cpu

def SleepSys.goto (s : SleepSys θ) (t : θ) (pc : SleepPc) (timers : Machine θ θ) : SleepSys θ :=
  { s with timers := timers, pc := Function.update s.pc t pc }

def sleepStep (cfg : Config) (s : SleepSys θ) : SleepOp θ → Except Fault (SleepSys θ)
  | .call t => return s.goto t .set (s.timers.timerInit t)
  | .set t ns => do
    return s.goto t .install (← Machine.timerSetIn s.cpu s.timers s.clock t ns none)
  | .install t => do
    return s.goto t .wait (← Machine.timerInstall cfg s.cpu s.timers t 0 0)
  | .wait t => do
    check cfg ((s.timers.timer t).hdr.waitercount == 0)
    check cfg ((s.timers.wait t).waitCount == -1)
    match schedWaitSingle (s.timers.disp t) t with
    | (true, d) => return s.goto t .idle (s.timers.setDisp t d)
    | (false, d) => return s.goto t .blocked (s.timers.setDisp t d)
  | .ret t => do
    let (_, d) ← waitReturn (s.timers.disp t) t
    return s.goto t .idle (s.timers.setDisp t d)
  | .tick ns => return { s with clock := s.clock + ns }
  | .progress => do
    let (_, timers) ← Machine.timeEngineProgressRound cfg s.cpu s.timers s.clock
    return { s with timers := timers }

def SleepSys.Enabled (s : SleepSys θ) : SleepOp θ → Prop
  | .call t => s.pc t = .idle
  | .set t _ => s.pc t = .set
  | .install t => s.pc t = .install
  | .wait t => s.pc t = .wait
  | .ret t => s.pc t = .blocked ∧ (s.timers.wait t).state ≠ .waiting
  | .tick _ => True
  | .progress => True

def SleepInit (s : SleepSys θ) : Prop := (∀ t, s.pc t = .idle) ∧ s.timerlist = []

def SleepStep (cfg : Config) (s : SleepSys θ) (op : SleepOp θ) (s' : SleepSys θ) : Prop :=
  s.Enabled op ∧ sleepStep cfg s op = .ok s'

end

namespace SleepSys

variable {θ : Type}

inductive Phase where
  | outside
  | prepared
  | armed
  | sleeping
  | woken
  -- The timer fired before the thread waits.
  | missed
  -- The thread waits for a timer that fired before.
  | stuck
  deriving DecidableEq

def waitedHdr (t : θ) : ObjHeader θ :=
  { (objInit .timer : ObjHeader θ) with waitercount := 1, waitblockList := [t] }

def signaledHdr : ObjHeader θ := { (objInit .timer : ObjHeader θ) with signalcount := 1 }

def At (s : SleepSys θ) (t : θ) : Phase → Prop
  | .outside => s.pc t = .idle ∧ t ∉ s.timerlist
  | .prepared =>
    (s.pc t = .set ∨ s.pc t = .install) ∧ t ∉ s.timerlist ∧
      (s.timers.timer t).hdr = objInit .timer ∧ (s.timers.timer t).timerState = .unused ∧
      (s.timers.timer t).engine = none
  | .armed =>
    s.pc t = .wait ∧ t ∈ s.timerlist ∧ (s.timers.timer t).hdr = objInit .timer ∧
      (s.timers.timer t).timerState = .queued
  | .sleeping =>
    s.pc t = .blocked ∧ t ∈ s.timerlist ∧ (s.timers.timer t).hdr = waitedHdr t ∧
      (s.timers.timer t).timerState = .queued ∧ Disp.Waits (s.timers.wait t)
  | .woken =>
    s.pc t = .blocked ∧ t ∉ s.timerlist ∧
      (s.timers.timer t).hdr = signaledHdr ∧
      (s.timers.timer t).timerState = .fired ∧
      s.timers.wait t = ⟨.ready, statusRangeWait + 0, 1, true, true⟩
  | .missed =>
    s.pc t = .wait ∧ t ∉ s.timerlist ∧ (s.timers.timer t).hdr = objInit .timer ∧
      (s.timers.timer t).timerState = .fired
  | .stuck =>
    s.pc t = .blocked ∧ t ∉ s.timerlist ∧ (s.timers.timer t).hdr = waitedHdr t ∧
      (s.timers.timer t).timerState = .fired ∧ Disp.Waits (s.timers.wait t)

inductive Trans (kept : Prop) : Phase → Phase → Prop where
  | stay (p : Phase) : Trans kept p p
  | call : Trans kept .outside .prepared
  | install : Trans kept .prepared .armed
  | enqueue : Trans kept .armed .sleeping
  | wake : Trans kept .sleeping .woken
  | ret : Trans kept .woken .outside
  | miss (h : ¬ kept) : Trans kept .armed .missed
  | block : Trans kept .missed .stuck

structure SleepInv (s : SleepSys θ) : Prop where
  nodup : s.timerlist.Nodup
  phase : ∀ t, ∃ p, s.At t p

def FiresWaited (s : SleepSys θ) (op : SleepOp θ) : Prop :=
  match op with
  | .progress => ∀ t, s.timerlist.argmin (fun u => (s.timers.timer u).deadline) = some t →
      (s.timers.timer t).deadline ≤ s.clock → 0 < (s.timers.timer t).hdr.waitercount
  | _ => True

section

variable {s s' : SleepSys θ} {t u : θ} {p : Phase}

theorem At.congr (h : s.At t p) (hpc : s'.pc t = s.pc t) (htimer : s'.timers.timer t = s.timers.timer t)
    (hwait : s'.timers.wait t = s.timers.wait t) (hlist : t ∈ s'.timerlist ↔ t ∈ s.timerlist)
    : s'.At t p := by
  cases p with
  | outside => simpa only [At, hpc, hlist] using h
  | prepared => simpa only [At, hpc, htimer, hlist] using h
  | armed => simpa only [At, hpc, htimer, hlist] using h
  | sleeping => simpa only [At, hpc, htimer, hwait, hlist] using h
  | woken => simpa only [At, hpc, htimer, hwait, hlist] using h
  | missed => simpa only [At, hpc, htimer, hlist] using h
  | stuck => simpa only [At, hpc, htimer, hwait, hlist] using h

theorem At.of_idle (h : s.At t p) (hpc : s.pc t = .idle) : p = .outside := by
  cases p <;> simp_all [At]

theorem At.of_prepared (h : s.At t p) (hpc : s.pc t = .set ∨ s.pc t = .install)
    : p = .prepared := by
  cases p <;> simp_all [At]

theorem At.of_wait (h : s.At t p) (hpc : s.pc t = .wait) : p = .armed ∨ p = .missed := by
  cases p <;> simp_all [At]

theorem At.of_resumed (h : s.At t p) (hpc : s.pc t = .blocked) (hstate : (s.timers.wait t).state ≠ .waiting)
    : p = .woken := by
  cases p with
  | sleeping => exact absurd h.2.2.2.2.state hstate
  | stuck => exact absurd h.2.2.2.2.state hstate
  | woken => rfl
  | outside => simp_all [At]
  | prepared => simp_all [At]
  | armed => simp_all [At]
  | missed => simp_all [At]

theorem At.mem_timerlist (h : s.At t p) (hmem : t ∈ s.timerlist)
    : p = .armed ∨ p = .sleeping := by
  cases p with
  | armed => exact .inl rfl
  | sleeping => exact .inr rfl
  | outside => exact absurd hmem h.2
  | prepared => exact absurd hmem h.2.1
  | woken => exact absurd hmem h.2.1
  | missed => exact absurd hmem h.2.1
  | stuck => exact absurd hmem h.2.1

variable [DecidableEq θ] {cfg : Config}

theorem trans_of_self {kept : Prop} {pc : SleepPc} {timers : Machine θ θ}
    (htimer : ∀ u, u ≠ t → timers.timer u = s.timers.timer u)
    (hwait : ∀ u, u ≠ t → timers.wait u = s.timers.wait u)
    (hlist : ∀ u, u ≠ t → (u ∈ timers.heap s.cpu ↔ u ∈ s.timerlist))
    (hself : ∀ p, s.At t p → ∃ p', (s.goto t pc timers).At t p' ∧ Trans kept p p')
    : ∀ u p, s.At u p → ∃ p', (s.goto t pc timers).At u p' ∧ Trans kept p p' := by
  intro u p hp
  by_cases hu : u = t
  . subst hu
    exact hself p hp
  . refine ⟨p, hp.congr ?_ (htimer u hu) (hwait u hu) (hlist u hu), .stay p⟩
    simp [goto, hu]

section Self

variable {kept : Prop} {cfg : Config} {timers : Machine θ θ}

theorem trans_call (hpc : s.pc t = .idle)
    : ∀ u p, s.At u p → ∃ p', (s.goto t .set (s.timers.timerInit t)).At u p' ∧ Trans kept p p' := by
  apply trans_of_self
  . exact fun u hu => Machine.setTimer_of_ne _ _ hu
  . exact fun _ _ => rfl
  . exact fun _ _ => Iff.rfl
  . intro p hp
    have heq := hp.of_idle hpc
    subst heq
    refine ⟨.prepared, ⟨.inl ?_, hp.2, ?_⟩, .call⟩
    . simp [goto]
    . simp [goto, Machine.timerInit, Machine.setTimer_self]

theorem timerSetIn_eq {ns : Nat} (hstate : (s.timers.timer t).timerState = .unused)
    (hset : Machine.timerSetIn s.cpu s.timers s.clock t ns none = .ok timers)
    : timers = s.timers.setTimer t { s.timers.timer t with
        dpc := none, deadline := Word.add s.clock ns } := by
  unfold Machine.timerSetIn Machine.timerSet at hset
  rw [if_neg (by simp [hstate]), pure_bind] at hset
  cases hset
  rfl

theorem trans_set {ns : Nat} (hpc : s.pc t = .set) (hstate : (s.timers.timer t).timerState = .unused)
    (hset : Machine.timerSetIn s.cpu s.timers s.clock t ns none = .ok timers)
    : ∀ u p, s.At u p → ∃ p', (s.goto t .install timers).At u p' ∧ Trans kept p p' := by
  have heq := timerSetIn_eq hstate hset
  subst heq
  apply trans_of_self
  . exact fun u hu => Machine.setTimer_of_ne _ _ hu
  . exact fun _ _ => rfl
  . exact fun _ _ => Iff.rfl
  . intro p hp
    have heq := hp.of_prepared (.inl hpc)
    subst heq
    refine ⟨.prepared, ⟨.inr ?_, hp.2.1, ?_⟩, .stay _⟩
    . simp [goto]
    . simpa [goto, Machine.setTimer_self] using hp.2.2

theorem timerInstall_eq (he : (s.timers.timer t).engine = none) (hlist : t ∉ s.timerlist)
    (hinstall : Machine.timerInstall cfg s.cpu s.timers t 0 0 = .ok timers)
    : timers.timer = Function.update s.timers.timer t { s.timers.timer t with
        engine := some s.cpu
        timerState := .queued
        hdr := { (s.timers.timer t).hdr with signalcount := 0 } } ∧
      timers.wait = s.timers.wait ∧ timers.heap s.cpu = t :: s.timerlist := by
  unfold Machine.timerInstall at hinstall
  rcases Except.bind_eq_ok hinstall with ⟨_, _, hinstall⟩
  rw [if_neg (by simp [he])] at hinstall
  dsimp only at hinstall
  rw [Machine.heapInsert_of_not_mem (by exact hlist)] at hinstall
  cases hinstall
  refine ⟨rfl, rfl, ?_⟩
  simp [Machine.heap, Machine.dpcEnqueue, Machine.setEngine, Machine.setTimer, timerlist]

theorem trans_install (hpc : s.pc t = .install) (he : (s.timers.timer t).engine = none)
    (hnot : t ∉ s.timerlist) (hinstall : Machine.timerInstall cfg s.cpu s.timers t 0 0 = .ok timers)
    : ∀ u p, s.At u p → ∃ p', (s.goto t .wait timers).At u p' ∧ Trans kept p p' := by
  rcases timerInstall_eq he hnot hinstall with ⟨htimer, hwait, hlist⟩
  apply trans_of_self
  . intro u hu
    rw [htimer]
    exact Function.update_of_ne hu ..
  . intro u _
    rw [hwait]
  . intro u hu
    simp [hlist, hu]
  . intro p hp
    have heq := hp.of_prepared (.inr hpc)
    subst heq
    refine ⟨.armed, ⟨?_, ?_, ?_, ?_⟩, .install⟩
    . simp [goto]
    . show t ∈ timers.heap s.cpu
      simp [hlist]
    . simp [goto, htimer, hp.2.2.1, objInit]
    . simp [goto, htimer]

theorem trans_wait (kept : Prop) (hpc : s.pc t = .wait) (hhdr : (s.timers.timer t).hdr = objInit .timer)
    : ∃ d, schedWaitSingle (s.timers.disp t) t = (false, d) ∧
        ∀ u p, s.At u p → ∃ p', (s.goto t .blocked (s.timers.setDisp t d)).At u p' ∧
          Trans kept p p' := by
  have hsig : (s.timers.disp t).hdr.signalcount = 0 := by
    simp [Machine.disp, hhdr, objInit]
  rcases Disp.schedWaitSingle_of_not_signaled t hsig with ⟨d, hd, hdhdr, hself, hother⟩
  refine ⟨d, hd, ?_⟩
  have hwaited : d.hdr = waitedHdr t := by
    rw [hdhdr]
    simp [Machine.disp, hhdr, objInit, waitedHdr]
  apply trans_of_self
  . exact fun u hu => Machine.setTimer_of_ne _ _ hu
  . exact hother
  . exact fun _ _ => Iff.rfl
  . intro p hp
    rcases hp.of_wait hpc with rfl | rfl
    . refine ⟨.sleeping, ⟨?_, hp.2.1, ?_, ?_, hself⟩, .enqueue⟩
      . simp [goto]
      . simp [goto, Machine.setDisp, Machine.setTimer_self, hwaited]
      . simpa [goto, Machine.setDisp, Machine.setTimer_self] using hp.2.2.2
    . refine ⟨.stuck, ⟨?_, hp.2.1, ?_, ?_, hself⟩, .block⟩
      . simp [goto]
      . simp [goto, Machine.setDisp, Machine.setTimer_self, hwaited]
      . simpa [goto, Machine.setDisp, Machine.setTimer_self] using hp.2.2.2

theorem trans_ret {d : Disp θ} {status : Int} (hpc : s.pc t = .blocked)
    (hstate : (s.timers.wait t).state ≠ .waiting) (hret : waitReturn (s.timers.disp t) t = .ok (status, d))
    : ∀ u p, s.At u p → ∃ p', (s.goto t .idle (s.timers.setDisp t d)).At u p' ∧
        Trans kept p p' := by
  have hwait : ∀ u, d.wait u = s.timers.wait u := by
    intro u
    unfold waitReturn dequeueWb at hret
    rcases Except.bind_eq_ok hret with ⟨d1, hd1, hret⟩
    cases hret
    split at hd1
    . cases hd1
      rfl
    . split at hd1
      . cases hd1
      . cases hd1
        rfl
  apply trans_of_self
  . exact fun u hu => Machine.setTimer_of_ne _ _ hu
  . exact fun u _ => hwait u
  . exact fun _ _ => Iff.rfl
  . intro p hp
    have heq := hp.of_resumed hpc hstate
    subst heq
    refine ⟨.outside, ⟨?_, hp.2.1⟩, .ret⟩
    simp [goto]

end Self

inductive Round (s : SleepSys θ) (timers : Machine θ θ) : Prop where
  | quiet (hnone : ∀ t, s.timerlist.argmin (fun u => (s.timers.timer u).deadline) = some t →
        s.clock < (s.timers.timer t).deadline)
      (htimer : timers.timer = s.timers.timer) (hwait : timers.wait = s.timers.wait)
      (hlist : timers.heap s.cpu = s.timerlist)
  | fired (t : θ) (ht : t ∈ s.timerlist)
      (hmin : s.timerlist.argmin (fun u => (s.timers.timer u).deadline) = some t)
      (hdue : (s.timers.timer t).deadline ≤ s.clock)
      (hzero : (s.timers.timer t).hdr.waitercount ≤ 0)
      (htimer : timers.timer = Function.update s.timers.timer t
        { s.timers.timer t with engine := none, timerState := .fired })
      (hwait : timers.wait = s.timers.wait)
      (hlist : timers.heap s.cpu = s.timerlist.erase t)
  | woke (t : θ) (ht : t ∈ s.timerlist) (d : Disp θ)
      (hmin : s.timerlist.argmin (fun u => (s.timers.timer u).deadline) = some t)
      (hpos : 0 < (s.timers.timer t).hdr.waitercount)
      (hd : Disp.AllHandedOver (s.timers.disp t) d)
      (htimer : timers.timer = Function.update s.timers.timer t
        { s.timers.timer t with
          engine := none
          timerState := .fired
          hdr := { d.hdr with signalcount := 1 } })
      (hwait : timers.wait = d.wait)
      (hlist : timers.heap s.cpu = s.timerlist.erase t)

theorem round_of_ok {timers : Machine θ θ} {r : Option θ} (hok : ∀ t ∈ s.timerlist, (s.timers.disp t).Ok)
    (h : Machine.timeEngineProgressRound cfg s.cpu s.timers s.clock = .ok (r, timers))
    : Round s timers := by
  unfold Machine.timeEngineProgressRound Machine.timeEngineProgressPop at h
  rw [show s.timers.heap s.cpu = s.timerlist from rfl] at h
  cases hmin : s.timerlist.argmin fun u => (s.timers.timer u).deadline with
  | none =>
    rw [hmin] at h
    cases h
    exact .quiet (by simp [hmin]) rfl rfl (Machine.heap_setEngine_self ..)
  | some t =>
    have ht : t ∈ s.timerlist := List.argmin_mem hmin
    rw [hmin] at h
    dsimp only at h
    split at h
    . next hlate =>
      cases h
      refine .quiet ?_ rfl rfl (Machine.heap_setEngine_self ..)
      intro u hu
      rw [hmin] at hu
      cases hu
      exact hlate
    . next hdue =>
      rw [Machine.heapRemove_of_mem ht] at h
      change (Machine.timeEngineProgressSatisfy cfg (s.timers.pulled s.cpu t .fired) t >>=
        fun m => pure (some t, m)) = _ at h
      have hheap : (s.timers.pulled s.cpu t .fired).heap s.cpu = s.timerlist.erase t :=
        Machine.heap_setEngine_self ..
      have hdisp : (s.timers.pulled s.cpu t .fired).disp t = s.timers.disp t := by
        simp [Machine.disp, Machine.pulled, Machine.setTimer, Machine.setEngine]
      rcases Except.bind_eq_ok h with ⟨m, hm, h⟩
      cases h
      unfold Machine.timeEngineProgressSatisfy at hm
      rw [show ((s.timers.pulled s.cpu t .fired).timer t).hdr = (s.timers.timer t).hdr from
        congrArg Disp.hdr hdisp, hdisp] at hm
      split at hm
      . next hpos =>
        rcases (hok t ht).objSatisfyAll cfg with ⟨d, hd, hall⟩
        rw [hd, Except.ok_bind] at hm
        cases hm
        refine .woke t ht d hmin hpos hall ?_ rfl hheap
        simp [Machine.pulled, Machine.setTimer, Machine.setEngine]
      . next hzero =>
        cases hm
        exact .fired t ht hmin (by omega) (by omega) rfl rfl hheap

omit [DecidableEq θ] in
theorem At.disp_ok (h : s.At t p) (hmem : t ∈ s.timerlist) : (s.timers.disp t).Ok := by
  rcases h.mem_timerlist hmem with rfl | rfl
  . constructor
    . simp [Machine.disp, h.2.2.1, objInit]
    . simp [Machine.disp, h.2.2.1, objInit]
    . simp [Machine.disp, h.2.2.1, objInit]
  . constructor
    . simp [Machine.disp, h.2.2.1, waitedHdr]
    . simp [Machine.disp, h.2.2.1, waitedHdr]
    . intro u hu
      simp only [Machine.disp, h.2.2.1, waitedHdr, List.mem_singleton] at hu
      subst hu
      exact h.2.2.2.2

theorem At.missed {timers : Machine θ θ} (h : s.At t p) (hinv : SleepInv s) (ht : t ∈ s.timerlist)
    (hzero : (s.timers.timer t).hdr.waitercount ≤ 0)
    (htimer : timers.timer = Function.update s.timers.timer t
      { s.timers.timer t with engine := none, timerState := .fired })
    (hlist : timers.heap s.cpu = s.timerlist.erase t)
    : p = .armed ∧ { s with timers := timers }.At t .missed := by
  rcases h.mem_timerlist ht with rfl | rfl
  . refine ⟨rfl, h.1, ?_, ?_, ?_⟩
    . show t ∉ timers.heap s.cpu
      simp [hlist, hinv.nodup.mem_erase_iff]
    . simpa [htimer] using h.2.2.1
    . simp [htimer]
  . simp [h.2.2.1, waitedHdr] at hzero

theorem Round.trans {timers : Machine θ θ} (h : Round s timers) (hinv : SleepInv s)
    : ∀ u p, s.At u p → ∃ p', { s with timers := timers }.At u p' ∧
        Trans (s.FiresWaited .progress) p p' := by
  intro u p hp
  cases h with
  | quiet _ htimer hwait hlist =>
    refine ⟨p, hp.congr rfl ?_ ?_ ?_, .stay p⟩
    . simp only [htimer]
    . simp only [hwait]
    . exact iff_of_eq (congrArg (u ∈ ·) hlist)
  | fired t ht hmin hdue hzero htimer hwait hlist =>
    by_cases hu : u = t
    . subst hu
      rcases hp.missed hinv ht hzero htimer hlist with ⟨rfl, hmissed⟩
      refine ⟨.missed, hmissed, .miss ?_⟩
      intro hkept
      have := hkept u hmin hdue
      omega
    . refine ⟨p, hp.congr rfl ?_ ?_ ?_, .stay p⟩
      . simp only [htimer]
        exact Function.update_of_ne hu ..
      . simp only [hwait]
      . show u ∈ timers.heap s.cpu ↔ _
        simp [hlist, hinv.nodup.mem_erase_iff, hu]
  | woke t ht d _ hpos hd htimer hwait hlist =>
    rcases hinv.phase t with ⟨q, hq⟩
    have hphase : q = .sleeping := by
      rcases hq.mem_timerlist ht with rfl | rfl
      . simp [hq.2.2.1, objInit] at hpos
      . rfl
    subst hphase
    have hwaiters : (s.timers.disp t).hdr.waitblockList = [t] := by
      simp [Machine.disp, hq.2.2.1, waitedHdr]
    by_cases hu : u = t
    . subst hu
      have hp' : p = .sleeping := by
        rcases hp.mem_timerlist ht with rfl | rfl
        . simp [hp.2.2.1, objInit] at hpos
        . rfl
      subst hp'
      refine ⟨.woken, ⟨hp.1, ?_, ?_, ?_, ?_⟩, .wake⟩
      . show u ∉ timers.heap s.cpu
        simp [hlist, hinv.nodup.mem_erase_iff]
      . simp [htimer, hd.hdr, Machine.disp, hp.2.2.1, waitedHdr, signaledHdr, objInit]
      . simp [htimer]
      . simp only [hwait]
        exact hd.self u (by simp [hwaiters])
    . refine ⟨p, hp.congr rfl ?_ ?_ ?_, .stay p⟩
      . simp only [htimer]
        exact Function.update_of_ne hu ..
      . simp only [hwait]
        exact hd.other u (by simp [hwaiters, hu])
      . show u ∈ timers.heap s.cpu ↔ _
        simp [hlist, hinv.nodup.mem_erase_iff, hu]

theorem Round.nodup {timers : Machine θ θ} (h : Round s timers) (hinv : SleepInv s)
    : (timers.heap s.cpu).Nodup := by
  cases h with
  | quiet _ _ _ hlist =>
    rw [hlist]
    exact hinv.nodup
  | fired t _ _ _ _ _ _ hlist =>
    rw [hlist]
    exact hinv.nodup.erase t
  | woke t _ _ _ _ _ _ _ hlist =>
    rw [hlist]
    exact hinv.nodup.erase t

section Step

variable {op : SleepOp θ}

theorem step_trans (hinv : SleepInv s) (hstep : SleepStep cfg s op s')
    : s'.timerlist.Nodup ∧
        ∀ u p, s.At u p → ∃ p', s'.At u p' ∧ Trans (s.FiresWaited op) p p' := by
  rcases hstep with ⟨he, hstep⟩
  cases op with
  | call t =>
    cases hstep
    exact ⟨hinv.nodup, trans_call he⟩
  | set t ns =>
    rcases Except.bind_eq_ok hstep with ⟨timers, hset, hstep⟩
    cases hstep
    rcases hinv.phase t with ⟨p, hp⟩
    have heq := hp.of_prepared (.inl he)
    subst heq
    refine ⟨?_, trans_set he hp.2.2.2.1 hset⟩
    rw [timerSetIn_eq hp.2.2.2.1 hset]
    exact hinv.nodup
  | install t =>
    rcases Except.bind_eq_ok hstep with ⟨timers, hinstall, hstep⟩
    cases hstep
    rcases hinv.phase t with ⟨p, hp⟩
    have heq := hp.of_prepared (.inr he)
    subst heq
    refine ⟨?_, trans_install he hp.2.2.2.2 hp.2.1 hinstall⟩
    show (timers.heap s.cpu).Nodup
    rw [(timerInstall_eq hp.2.2.2.2 hp.2.1 hinstall).2.2, List.nodup_cons]
    exact ⟨hp.2.1, hinv.nodup⟩
  | wait t =>
    rcases Except.bind_eq_ok hstep with ⟨_, _, hstep⟩
    rcases Except.bind_eq_ok hstep with ⟨_, _, hstep⟩
    have hhdr : (s.timers.timer t).hdr = objInit .timer := by
      rcases hinv.phase t with ⟨p, hp⟩
      rcases hp.of_wait he with rfl | rfl
      . exact hp.2.2.1
      . exact hp.2.2.1
    rcases trans_wait (s.FiresWaited (.wait t)) he hhdr with ⟨d, hd, htrans⟩
    rw [hd] at hstep
    cases hstep
    exact ⟨hinv.nodup, htrans⟩
  | ret t =>
    rcases Except.bind_eq_ok hstep with ⟨⟨status, d⟩, hret, hstep⟩
    cases hstep
    exact ⟨hinv.nodup, trans_ret he.1 he.2 hret⟩
  | tick ns =>
    cases hstep
    refine ⟨hinv.nodup, ?_⟩
    intro u p hp
    exact ⟨p, hp.congr rfl rfl rfl Iff.rfl, .stay p⟩
  | progress =>
    rcases Except.bind_eq_ok hstep with ⟨⟨r, timers⟩, hround, hstep⟩
    cases hstep
    have hok : ∀ t ∈ s.timerlist, (s.timers.disp t).Ok := by
      intro t ht
      rcases hinv.phase t with ⟨p, hp⟩
      exact hp.disp_ok ht
    have hround := round_of_ok hok hround
    exact ⟨hround.nodup hinv, hround.trans hinv⟩

theorem SleepInv.step (hinv : SleepInv s) (hstep : SleepStep cfg s op s') : SleepInv s' := by
  rcases step_trans hinv hstep with ⟨hnodup, htrans⟩
  refine ⟨hnodup, ?_⟩
  intro t
  rcases hinv.phase t with ⟨p, hp⟩
  rcases htrans t p hp with ⟨p', hp', _⟩
  exact ⟨p', hp'⟩

omit [DecidableEq θ] in
theorem init_outside (h : SleepInit s) (t : θ) : s.At t .outside := by
  refine ⟨h.1 t, ?_⟩
  rw [h.2]
  exact List.not_mem_nil

omit [DecidableEq θ] in
theorem init_inv (h : SleepInit s) : SleepInv s := by
  refine ⟨?_, fun t => ⟨_, init_outside h t⟩⟩
  rw [h.2]
  exact List.nodup_nil

def Fired (s : SleepSys θ) (t : θ) : Prop :=
  (s.pc t = .wait ∨ s.pc t = .blocked) ∧ (s.timers.timer t).timerState = .fired

theorem guarded_inv (h : Reach SleepInit (Guarded FiresWaited (SleepStep cfg)) s)
    : SleepInv s ∧ ∀ t, ∃ p, s.At t p ∧ p ≠ .missed ∧ p ≠ .stuck := by
  induction h with
  | start h => exact ⟨init_inv h, fun t => ⟨_, init_outside h t, by simp, by simp⟩⟩
  | next _ hstep ih =>
    refine ⟨ih.1.step hstep.2, ?_⟩
    intro t
    rcases ih.2 t with ⟨p, hp, hmissed, hstuck⟩
    rcases (step_trans ih.1 hstep.2).2 t p hp with ⟨p', hp', htrans⟩
    refine ⟨p', hp', ?_⟩
    cases htrans with
    | stay => exact ⟨hmissed, hstuck⟩
    | miss hnot => exact absurd hstep.1 hnot
    | block => exact absurd rfl hmissed
    | call => simp
    | install => simp
    | enqueue => simp
    | wake => simp
    | ret => simp

theorem fired_timer_signaled (h : Reach SleepInit (Guarded FiresWaited (SleepStep cfg)) s)
    : (∀ t, s.Fired t → (s.timers.timer t).hdr.signalcount = 1 ∧
          (s.timers.wait t).state ≠ .waiting ∧ (schedWaitSingle (s.timers.disp t) t).1 = true) ∧
        ∀ t, s.pc t = .blocked → (s.timers.wait t).state = .waiting → t ∈ s.timerlist := by
  have hinv := guarded_inv h
  constructor
  . intro t hfired
    rcases hinv.2 t with ⟨p, hp, hmissed, hstuck⟩
    have hwoken : p = .woken := by
      rcases hfired with ⟨hpc, hstate⟩
      cases p with
      | woken => rfl
      | missed => exact absurd rfl hmissed
      | stuck => exact absurd rfl hstuck
      | outside => simp [hp.1] at hpc
      | prepared => simp [hp.2.2.2.1] at hstate
      | armed => simp [hp.2.2.2] at hstate
      | sleeping => simp [hp.2.2.2.1] at hstate
    subst hwoken
    have hsig : (s.timers.timer t).hdr.signalcount = 1 := by rw [hp.2.2.1]; rfl
    refine ⟨hsig, ?_, ?_⟩
    . rw [hp.2.2.2.2]
      simp
    . have hne : (s.timers.disp t).hdr.signalcount ≠ 0 := by
        simp [Machine.disp, hsig]
      have htype : (s.timers.disp t).hdr.type ≠ .eventNotif := by
        simp [Machine.disp, hp.2.2.1, signaledHdr, objInit]
      rcases Disp.schedWaitSingle_of_signaled t hne htype with ⟨d, hd, _⟩
      rw [hd]
  . intro t hpc hstate
    rcases hinv.2 t with ⟨p, hp, _, hstuck⟩
    cases p with
    | sleeping => exact hp.2.1
    | stuck => exact absurd rfl hstuck
    | woken => simp [hp.2.2.2.2] at hstate
    | outside => simp [hp.1] at hpc
    | prepared => simp [At, hpc] at hp
    | armed => simp [hp.1] at hpc
    | missed => simp [hp.1] at hpc

end Step

def oneSleeper : SleepSys Unit where
  timers :=
    { timer := fun _ => ⟨objInit .timer, none, 0, .unused, none⟩
      wait := fun _ => ⟨.running, -1, -1, false, false⟩
      engine := fun _ => ⟨[], 0, 0, false⟩
      context := fun _ => (0, 0) }
  cpu := 0
  pc _ := .idle
  clock := 0

theorem oneSleeper_init : SleepInit oneSleeper := ⟨fun _ => rfl, rfl⟩

theorem fired_timer_signaled_woken
    : ∃ s : SleepSys Unit, Reach SleepInit (Guarded FiresWaited (SleepStep ⟨false⟩)) s ∧
        s.Fired () ∧ (s.timers.timer ()).hdr.signalcount = 1 := by
  have h0 : Reach SleepInit (Guarded FiresWaited (SleepStep ⟨false⟩)) oneSleeper :=
    .start oneSleeper_init
  have h1 := h0.next (e := SleepOp.call ()) ⟨trivial, rfl, rfl⟩
  have h2 := h1.next (e := SleepOp.set () 0) ⟨trivial, rfl, rfl⟩
  have h3 := h2.next (e := SleepOp.install ()) ⟨trivial, rfl, rfl⟩
  have h4 := h3.next (e := SleepOp.wait ()) ⟨trivial, rfl, rfl⟩
  have h5 := h4.next (e := SleepOp.progress) ⟨fun | (), _, _ => by decide, trivial, rfl⟩
  have hsignaled := (fired_timer_signaled h5).1 () ⟨.inr rfl, rfl⟩
  exact ⟨_, h5, ⟨.inr rfl, rfl⟩, hsignaled.1⟩

theorem timer_fires_unseen
    : ∃ s : SleepSys Unit, Reach SleepInit (SleepStep ⟨false⟩) s ∧ s.Fired () ∧
        (s.timers.timer ()).hdr.signalcount = 0 ∧ s.pc () = .blocked ∧
        (s.timers.wait ()).state = .waiting ∧ s.timerlist = [] := by
  have h0 : Reach SleepInit (SleepStep ⟨false⟩) oneSleeper := .start oneSleeper_init
  have h1 := h0.next (e := SleepOp.call ()) ⟨rfl, rfl⟩
  have h2 := h1.next (e := SleepOp.set () 0) ⟨rfl, rfl⟩
  have h3 := h2.next (e := SleepOp.install ()) ⟨rfl, rfl⟩
  have h4 := h3.next (e := SleepOp.progress) ⟨trivial, rfl⟩
  have h5 := h4.next (e := SleepOp.wait ()) ⟨rfl, rfl⟩
  exact ⟨_, h5, ⟨.inr rfl, rfl⟩, rfl, rfl, rfl, rfl⟩

theorem missed_of_not_waited (hinv : SleepInv s) (hstep : SleepStep cfg s .progress s')
    (hmin : s.timerlist.argmin (fun u => (s.timers.timer u).deadline) = some t)
    (hdue : (s.timers.timer t).deadline ≤ s.clock) (hzero : (s.timers.timer t).hdr.waitercount ≤ 0)
    : s'.At t .missed := by
  rcases Except.bind_eq_ok hstep.2 with ⟨⟨r, timers⟩, hround, heq⟩
  cases heq
  have hok : ∀ t ∈ s.timerlist, (s.timers.disp t).Ok := by
    intro t ht
    rcases hinv.phase t with ⟨p, hp⟩
    exact hp.disp_ok ht
  cases round_of_ok hok hround with
  | quiet hnone _ _ _ =>
    have := hnone t hmin
    omega
  | woke t' _ _ hmin' hpos _ _ _ _ =>
    rw [hmin] at hmin'
    cases hmin'
    omega
  | fired t' ht hmin' _ hzero' htimer _ hlist =>
    rw [hmin] at hmin'
    cases hmin'
    rcases hinv.phase t with ⟨p, hp⟩
    exact (hp.missed hinv ht hzero' htimer hlist).2

/--
If the dpc fires a timer that its thread does not wait for yet, then that thread never returns from its wait.
-/
theorem missed_timer_final {s1 : SleepSys θ} (hr : Reach SleepInit (SleepStep cfg) s)
    (hstep : SleepStep cfg s .progress s1)
    (hmin : s.timerlist.argmin (fun u => (s.timers.timer u).deadline) = some t)
    (hdue : (s.timers.timer t).deadline ≤ s.clock) (hzero : (s.timers.timer t).hdr.waitercount ≤ 0)
    (hrun : Reach (fun s0 => s0 = s1) (SleepStep cfg) s')
    : s'.pc t = .wait ∨ s'.pc t = .blocked ∧ (s'.timers.wait t).state = .waiting := by
  have hinv : SleepInv s := hr.invariant (fun _ h => init_inv h) (fun _ _ _ h hstep => h.step hstep)
  have hboth : SleepInv s' ∧ (s'.At t .missed ∨ s'.At t .stuck) := by
    induction hrun with
    | start heq =>
      subst heq
      exact ⟨hinv.step hstep, .inl (missed_of_not_waited hinv hstep hmin hdue hzero)⟩
    | next _ hstep ih =>
      refine ⟨ih.1.step hstep, ?_⟩
      rcases ih.2 with hp | hp
      . rcases (step_trans ih.1 hstep).2 t _ hp with ⟨p', hp', htrans⟩
        cases htrans with
        | stay => exact .inl hp'
        | block => exact .inr hp'
      . rcases (step_trans ih.1 hstep).2 t _ hp with ⟨p', hp', htrans⟩
        cases htrans
        exact .inr hp'
  rcases hboth.2 with hp | hp
  . exact .inl hp.1
  . exact .inr ⟨hp.1, hp.2.2.2.2.state⟩

theorem missed_timer_final_early
    : ∃ s : SleepSys Unit, Reach SleepInit (SleepStep ⟨false⟩) s ∧
        ∀ s', Reach (fun s0 => s0 = s) (SleepStep ⟨false⟩) s' →
          s'.pc () = .wait ∨ s'.pc () = .blocked ∧ (s'.timers.wait ()).state = .waiting := by
  have h0 : Reach SleepInit (SleepStep ⟨false⟩) oneSleeper := .start oneSleeper_init
  have h1 := h0.next (e := SleepOp.call ()) ⟨rfl, rfl⟩
  have h2 := h1.next (e := SleepOp.set () 0) ⟨rfl, rfl⟩
  have h3 := h2.next (e := SleepOp.install ()) ⟨rfl, rfl⟩
  have h4 := h3.next (e := SleepOp.progress) ⟨trivial, rfl⟩
  exact ⟨_, h4, fun _ => missed_timer_final h3 ⟨trivial, rfl⟩ rfl (by decide) (by decide)⟩

end
end SleepSys
end Nyy
