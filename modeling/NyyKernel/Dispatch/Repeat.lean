import NyyKernel.Dispatch.Blocks

namespace Nyy

section

variable {ο θ : Type} [DecidableEq ο] [DecidableEq θ]

def sleepTimer (s : WaitSys ο θ) (o : ο) : WaitSys ο θ :=
  { s with obj := Function.update s.obj o (objInit .timer) }

omit [DecidableEq ο] [DecidableEq θ] in
def sleepAsserts (cfg : Config) (s : WaitSys ο θ) (t : θ) (o : ο) : Except Fault Unit := do
  check cfg ((s.obj o).waitercount == 0)
  check cfg ((s.wait t).waitCount == -1)

/--
`sched_sleep` up to the section of `sched_wait_single` for its timer. A timer that fires before that
does not change its header.
-/
def schedSleep (cfg : Config) (s : WaitSys ο θ) (t : θ) (o : ο) : Except Fault (WaitSys ο θ) := do
  let s := sleepTimer s o
  sleepAsserts cfg s t o
  s.step cfg (.wait t o)

end

structure WaitHistory (ο θ : Type) where
  sys : WaitSys ο θ
  waits : θ → Nat

inductive HistoryOp (ο θ : Type) where
  | dispatch (op : WaitOp ο θ)
  | sleep (t : θ) (o : ο)

namespace WaitHistory

variable {ο θ : Type}

def waiter : WaitOp ο θ → Option θ
  | .wait t _ => some t
  | _ => none

def began [DecidableEq θ] (waits : θ → Nat) : Option θ → θ → Nat
  | some t => Function.update waits t (waits t + 1)
  | none => waits

variable [DecidableEq ο] [DecidableEq θ] {cfg : Config} {s : WaitHistory ο θ}

def step (cfg : Config) (s : WaitHistory ο θ) : HistoryOp ο θ → Except Fault (WaitHistory ο θ)
  | .dispatch op => do
    return ⟨← s.sys.step cfg op, began s.waits (waiter op)⟩
  | .sleep t o => do
    return ⟨← schedSleep cfg s.sys t o, began s.waits (some t)⟩

def Enabled (s : WaitHistory ο θ) : HistoryOp ο θ → Prop
  | .dispatch op => s.sys.Enabled op
  | .sleep t o => s.sys.pc t = .idle ∧ s.sys.satisfying o = none ∧ ∀ u, ¬ s.sys.On u o

omit [DecidableEq ο] [DecidableEq θ] in
def Init (s : WaitHistory ο θ) : Prop :=
  WaitSys.Init s.sys ∧ ∀ t, (s.sys.wait t).waitCount = -1 ∧ s.waits t = 0

def Step (cfg : Config) (s : WaitHistory ο θ) (op : HistoryOp ο θ) (s' : WaitHistory ο θ) : Prop :=
  s.Enabled op ∧ s.step cfg op = .ok s'

section Count

variable {cfg : Config} {d d' : Disp θ} {t : θ} {status : Int}

omit [DecidableEq ο] in
theorem waitSection_count (d : Disp θ) (t u : θ)
    : ((waitSection d t).2.wait u).waitCount = if u = t then 1 else (d.wait u).waitCount := by
  unfold waitSection
  dsimp only
  by_cases hu : u = t
  . subst hu
    rw [if_pos rfl]
    split <;> simp [Disp.setWait]
  . rw [if_neg hu]
    split <;> simp [Disp.setWait, hu]

omit [DecidableEq ο] in
theorem schedUnwait_count (h : schedUnwait cfg d t status = .ok d') (u : θ)
    : (d'.wait u).waitCount = (d.wait u).waitCount := by
  rcases (Disp.schedUnwait_eq_ok h).2 with ⟨_, rfl⟩ | ⟨_, rfl⟩
  . rfl
  . by_cases hu : u = t
    . subst hu
      rw [Disp.setWait_self]
    . rw [Disp.setWait_of_ne _ _ hu]

omit [DecidableEq ο] in
theorem satisfyRound_count {all more : Bool} (h : satisfyRound cfg all d t = .ok (more, d')) (u : θ)
    : (d'.wait u).waitCount = (d.wait u).waitCount := by
  have hdequeued : ((d.setWait t { d.wait t with dequeued := true }).wait u).waitCount =
      (d.wait u).waitCount := by
    by_cases hu : u = t
    . subst hu
      rw [Disp.setWait_self]
    . rw [Disp.setWait_of_ne _ _ hu]
  unfold satisfyRound at h
  rcases Except.bind_eq_ok h with ⟨_, _, h⟩
  dsimp only at h
  split at h
  . cases h
    exact hdequeued
  . rcases Except.bind_eq_ok h with ⟨d1, hunwait, h⟩
    cases h
    exact (schedUnwait_count hunwait u).trans hdequeued

omit [DecidableEq ο] in
theorem waitTimerExp_count (h : waitTimerExp cfg d t = .ok d') (u : θ)
    : (d'.wait u).waitCount = (d.wait u).waitCount := by
  unfold waitTimerExp at h
  split at h
  . cases h
    rfl
  . exact schedUnwait_count h u

omit [DecidableEq ο] in
theorem waitReturn_count (h : waitReturn d t = .ok (status, d')) (u : θ)
    : (d'.wait u).waitCount = (d.wait u).waitCount := by
  unfold waitReturn dequeueWb at h
  split at h
  . cases h
    rfl
  . split at h
    . cases h
    . cases h
      rfl

end Count

theorem step_count {s s' : WaitSys ο θ} {op : WaitOp ο θ} (h : s.step cfg op = .ok s') (u : θ)
    : (s'.wait u).waitCount = if waiter op = some u then 1 else (s.wait u).waitCount := by
  cases op with
  | wait t o =>
    have hcount := waitSection_count (s.disp o) t u
    have hwait : s'.wait = (waitSection (s.disp o) t).2.wait := by
      simp only [WaitSys.step] at h
      split at h
      . next d hd =>
        cases h
        rw [hd]
        rfl
      . next d hd =>
        cases h
        rw [hd]
        rfl
    rw [hwait, hcount]
    simp only [waiter, Option.some.injEq, eq_comm]
    rfl
  | block t =>
    simp only [WaitSys.step] at h
    split at h
    . next o _ =>
      cases h
      show ((waitBlock (s.disp o) t).wait u).waitCount = (s.wait u).waitCount
      unfold waitBlock
      by_cases hu : u = t
      . subst hu
        rw [Disp.setWait_self]
        rfl
      . rw [Disp.setWait_of_ne _ _ hu]
        rfl
    . cases h
      rfl
  | resume t =>
    simp only [WaitSys.step] at h
    split at h
    . rcases Except.bind_eq_ok h with ⟨⟨status, d⟩, hreturn, h⟩
      cases h
      exact waitReturn_count hreturn u
    . cases h
      rfl
  | satisfy o all =>
    cases h
    rfl
  | round o =>
    simp only [WaitSys.step] at h
    split at h
    . rcases Except.bind_eq_ok h with ⟨⟨more, d⟩, hround, h⟩
      cases h
      exact satisfyRound_count hround u
    . cases h
      rfl
  | signal o n =>
    cases h
    rfl
  | timeout t =>
    simp only [WaitSys.step] at h
    split at h
    . cases h
      rfl
    . rcases Except.bind_eq_ok h with ⟨d, hexp, h⟩
      cases h
      exact waitTimerExp_count hexp u
    . rcases Except.bind_eq_ok h with ⟨d, hexp, h⟩
      cases h
      exact waitTimerExp_count hexp u

def Counts (s : WaitHistory ο θ) : Prop :=
  ∀ t, (s.sys.wait t).waitCount = if s.waits t = 0 then -1 else 1

omit [DecidableEq ο] in
theorem Counts.began {sys : WaitSys ο θ} {w : Option θ} (h : s.Counts)
    (hcount : ∀ u, (sys.wait u).waitCount = if w = some u then 1 else (s.sys.wait u).waitCount)
    : Counts ⟨sys, began s.waits w⟩ := by
  intro u
  rw [hcount u]
  cases w with
  | none => exact h u
  | some t =>
    by_cases hu : u = t
    . subst hu
      simp [WaitHistory.began]
    . rw [if_neg (fun heq => hu (Option.some.inj heq).symm), h u]
      simp [WaitHistory.began, hu]

theorem Counts.step {s' : WaitHistory ο θ} {op : HistoryOp ο θ} (h : s.Counts) (hstep : Step cfg s op s')
    : s'.Counts := by
  rcases hstep with ⟨_, he⟩
  cases op with
  | dispatch op =>
    rcases Except.bind_eq_ok he with ⟨sys, hsys, he⟩
    cases he
    exact h.began (step_count hsys)
  | sleep t o =>
    rcases Except.bind_eq_ok he with ⟨sys, hsleep, he⟩
    cases he
    unfold schedSleep at hsleep
    rcases Except.bind_eq_ok hsleep with ⟨_, _, hsleep⟩
    exact h.began (step_count hsleep)

theorem sleep_asserts_iff {cfg : Config} {s : WaitHistory ο θ} (hr : Reach Init (Step cfg) s) (t : θ)
    (o : ο)
    : sleepAsserts ⟨false⟩ (sleepTimer s.sys o) t o = .ok () ↔ s.waits t = 0 := by
  have h : s.Counts := by
    refine hr.invariant ?_ (fun s op s' h hstep => h.step hstep)
    intro s hinit t
    rw [(hinit.2 t).1, if_pos (hinit.2 t).2]
  have hfresh : ((sleepTimer s.sys o).obj o).waitercount = 0 := by
    simp [sleepTimer, objInit]
  have hcount : ((sleepTimer s.sys o).wait t).waitCount = if s.waits t = 0 then -1 else 1 := h t
  unfold sleepAsserts
  rw [hfresh, hcount]
  by_cases hwaits : s.waits t = 0
  . rw [if_pos hwaits]
    exact iff_of_true rfl hwaits
  . rw [if_neg hwaits]
    refine iff_of_false ?_ hwaits
    intro hok
    cases hok

def newThread : WaitHistory Bool Unit :=
  ⟨⟨fun _ => objInit .timer, fun _ => ⟨.running, -1, -1, false, false⟩, fun _ => .idle, fun _ => none,
    fun _ => 0⟩, fun _ => 0⟩

theorem newThread_init : Init newThread := by
  refine ⟨⟨fun _ => ⟨.timer, 0, rfl⟩, fun _ => rfl, fun _ => ⟨rfl, ?_⟩⟩, fun _ => ⟨rfl, rfl⟩⟩
  simp [newThread]

theorem sleep_asserts_iff_first
    : sleepAsserts ⟨false⟩ (sleepTimer newThread.sys false) () false = .ok () := by
  have hreach : Reach Init (Step ⟨false⟩) newThread := .start newThread_init
  exact (sleep_asserts_iff hreach () false).mpr rfl

theorem second_sleep_fails
    : ∃ s : WaitHistory Bool Unit, Reach Init (Step ⟨false⟩) s ∧ s.sys.pc () = .idle ∧
        s.waits () = 1 ∧ (s.sys.wait ()).waitCount = 1 ∧
        sleepAsserts ⟨false⟩ (sleepTimer s.sys true) () true = .error .assertion := by
  have h0 : Reach Init (Step ⟨false⟩) newThread := .start newThread_init
  have h1 := h0.next (e := HistoryOp.sleep () false) ⟨⟨rfl, rfl, by simp [newThread, WaitSys.On]⟩, rfl⟩
  have h2 := h1.next (e := HistoryOp.dispatch (.block ())) ⟨⟨false, rfl⟩, rfl⟩
  have h3 := h2.next (e := HistoryOp.dispatch (.satisfy false true)) ⟨rfl, rfl⟩
  have h4 := h3.next (e := HistoryOp.dispatch (.round false)) ⟨Option.some_ne_none true, rfl⟩
  have h5 := h4.next (e := HistoryOp.dispatch (.round false)) ⟨Option.some_ne_none true, rfl⟩
  have h6 := h5.next (e := HistoryOp.dispatch (.resume ())) ⟨⟨false, rfl, rfl, by decide⟩, rfl⟩
  exact ⟨_, h6, rfl, rfl, rfl, rfl⟩

end WaitHistory
end Nyy
