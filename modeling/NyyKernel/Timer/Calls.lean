import NyyKernel.Timer.Queue

namespace Nyy
namespace Machine

variable {τ θ : Type} {m m' : Machine τ θ} {tp : τ} {cpu : Nat}

structure WaitInv (m : Machine τ θ) : Prop where
  ok : ∀ tp, (m.disp tp).Ok
  apart : ∀ tp u t, t ∈ (m.timer tp).hdr.waitblockList → t ∈ (m.timer u).hdr.waitblockList → tp = u

def SameWaiters (hdr hdr' : ObjHeader θ) : Prop :=
  (hdr'.waitblockList = hdr.waitblockList ∧ hdr'.waitercount = hdr.waitercount) ∨
    (hdr'.waitblockList = [] ∧ hdr'.waitercount = 0)

theorem SameWaiters.mem {hdr hdr' : ObjHeader θ} {t : θ} (h : SameWaiters hdr hdr')
    (ht : t ∈ hdr'.waitblockList)
    : t ∈ hdr.waitblockList := by
  rcases h with ⟨hlist, _⟩ | ⟨hlist, _⟩
  . rwa [hlist] at ht
  . simp [hlist] at ht

theorem WaitInv.of_same (h : WaitInv m) (hwait : m'.wait = m.wait)
    (hsame : ∀ tp, SameWaiters (m.timer tp).hdr (m'.timer tp).hdr)
    : WaitInv m' := by
  constructor
  . intro tp
    rcases hsame tp with ⟨hlist, hcount⟩ | ⟨hlist, hcount⟩
    . refine ⟨hlist ▸ (h.ok tp).nodup, hcount.trans (hlist ▸ (h.ok tp).count), ?_⟩
      intro t ht
      show Disp.Waits (m'.wait t)
      rw [hwait]
      exact (h.ok tp).waits t ((hsame tp).mem ht)
    . exact .of_empty hlist hcount
  . intro tp u t htp hu
    exact h.apart tp u t ((hsame tp).mem htp) ((hsame u).mem hu)

structure Dropped (m m' : Machine τ θ) (tp : τ) : Prop where
  queue : m'.QueueInv
  other : ∀ u, u ≠ tp → m'.timer u = m.timer u
  engine : (m'.timer tp).engine = none
  waiters : SameWaiters (m.timer tp).hdr (m'.timer tp).hdr
  wait : m'.wait = m.wait
  context : m'.context = m.context

structure Installed (m m' : Machine τ θ) (cpu : Nat) (tp : τ) (contexts : Nat × Nat) : Prop where
  queue : m'.QueueInv
  other : ∀ u, u ≠ tp → m'.timer u = m.timer u
  engine : (m'.timer tp).engine = some cpu
  deadline : (m'.timer tp).deadline = (m.timer tp).deadline
  dpc : (m'.timer tp).dpc = (m.timer tp).dpc
  waiters : SameWaiters (m.timer tp).hdr (m'.timer tp).hdr
  wait : m'.wait = m.wait
  context : ∀ dpc, m'.context dpc =
    if (m.timer tp).dpc = some dpc then contexts else m.context dpc

theorem WaitInv.of_other [DecidableEq τ] (h : WaitInv m) (hwait : m'.wait = m.wait)
    (hother : ∀ u, u ≠ tp → m'.timer u = m.timer u) (hsame : SameWaiters (m.timer tp).hdr (m'.timer tp).hdr)
    : WaitInv m' := by
  refine h.of_same hwait ?_
  intro u
  by_cases hu : u = tp
  . exact hu ▸ hsame
  . exact .inl (by simp [hother u hu])

theorem Dropped.waitInv [DecidableEq τ] (h : WaitInv m) (hd : Dropped m m' tp) : WaitInv m' :=
  h.of_other hd.wait hd.other hd.waiters

theorem Installed.waitInv {contexts : Nat × Nat} [DecidableEq τ] (h : WaitInv m)
    (hi : Installed m m' cpu tp contexts)
    : WaitInv m' :=
  h.of_other hi.wait hi.other hi.waiters

variable [DecidableEq τ] {cfg : Config} {root : τ} {context1 context2 now : Nat}

theorem QueueInv.timerInit_dropped (h : QueueInv m) (hstate : (m.timer tp).timerState ≠ .queued)
    : Dropped m (m.timerInit tp) tp := by
  refine ⟨h.timerInit hstate, fun u hu => setTimer_of_ne _ _ hu, ?_, .inr ?_, rfl, rfl⟩
  . exact congrArg Timer.engine (setTimer_self ..)
  . unfold Machine.timerInit
    rw [setTimer_self]
    exact ⟨rfl, rfl⟩

theorem timerUninstall_same (h : timerUninstall cpu m tp = .ok m')
    : (m'.timer tp).hdr = (m.timer tp).hdr ∧ m'.wait = m.wait ∧ m'.context = m.context := by
  unfold timerUninstall timerUninstallSection at h
  split at h
  . unfold heapRemove at h
    split at h
    . cases h
      refine ⟨?_, rfl, rfl⟩
      exact (congrArg Timer.hdr (setTimer_self ..)).trans rfl
    . cases h
  . cases h
    refine ⟨?_, rfl, rfl⟩
    rw [setTimer_self]

theorem QueueInv.timerUninstall_dropped (h : QueueInv m) (he : Machine.timerUninstall cpu m tp = .ok m')
    : Dropped m m' tp := by
  rcases h.timerUninstall cpu tp with ⟨m1, heq, h1, htouches, hnone, _⟩
  rw [he] at heq
  cases heq
  rcases timerUninstall_same he with ⟨hhdr, hwait, hcontext⟩
  exact ⟨h1, htouches.other, hnone, .inl (by simp [hhdr]), hwait, hcontext⟩

theorem QueueInv.timerSet_dropped {deadline : Nat} {dpc : Option Nat} (h : QueueInv m)
    (he : Machine.timerSet cpu m tp deadline dpc = .ok m')
    : Dropped m m' tp := by
  rcases h.timerSet cpu tp deadline dpc with ⟨m1, heq, h1, hother, hnone⟩
  rw [he] at heq
  cases heq
  have hsame : (m'.timer tp).hdr = (m.timer tp).hdr ∧ m'.wait = m.wait ∧ m'.context = m.context := by
    unfold Machine.timerSet at he
    split at he
    . rcases Except.bind_eq_ok he with ⟨m2, hm2, hset⟩
      cases hset
      rw [setTimer_self]
      exact timerUninstall_same hm2
    . cases he
      rw [setTimer_self]
      exact ⟨rfl, rfl, rfl⟩
  exact ⟨h1, hother, hnone, .inl (by simp [hsame.1]), hsame.2.1, hsame.2.2⟩

theorem QueueInv.timerInstall_installed (h : QueueInv m) (hnone : (m.timer tp).engine = none)
    (he : Machine.timerInstall cfg cpu m tp context1 context2 = .ok m')
    : Installed m m' cpu tp (context1, context2) := by
  have hqueue : QueueInv m' ∧ Touches m m' tp := by
    rcases h.timerInstall cfg cpu tp context1 context2 with heq | ⟨m1, heq, h1, htouches, _⟩
    . rw [he] at heq
      cases heq
    . rw [he] at heq
      cases heq
      exact ⟨h1, htouches⟩
  have hnot : tp ∉ m.heap cpu := by simp [h.heap, hnone]
  unfold Machine.timerInstall at he
  rcases Except.bind_eq_ok he with ⟨_, _, he⟩
  rw [hnone, if_neg (by simp)] at he
  dsimp only at he
  rw [heapInsert_of_not_mem (by exact hnot)] at he
  cases he
  refine ⟨hqueue.1, hqueue.2.other, ?_, hqueue.2.deadline, ?_, .inl ?_, rfl, ?_⟩
  . show ((m.setTimer tp _).timer tp).engine = _
    rw [setTimer_self]
  . show ((m.setTimer tp _).timer tp).dpc = _
    rw [setTimer_self]
  . show ((m.setTimer tp _).timer tp).hdr.waitblockList = _ ∧
      ((m.setTimer tp _).timer tp).hdr.waitercount = _
    rw [setTimer_self]
    exact ⟨rfl, rfl⟩
  . intro dpc
    simp only [Machine.dpcEnqueue, setEngine]
    cases (m.timer tp).dpc with
    | none => simp
    | some d =>
      by_cases hd : dpc = d
      . simp [hd]
      . simp [hd, Ne.symm hd]

theorem timerInstall_of_some (hsome : (m.timer tp).engine.isSome = true)
    (he : timerInstall cfg cpu m tp context1 context2 = .ok m')
    : m' = m := by
  unfold Machine.timerInstall at he
  rcases Except.bind_eq_ok he with ⟨_, _, he⟩
  rw [if_pos hsome] at he
  cases he
  rfl

structure Fired (m m' : Machine τ θ) (cpu : Nat) (root : τ) : Prop where
  queue : m'.QueueInv
  mem : root ∈ m.heap cpu
  first : ∀ tp ∈ m.heap cpu, (m.timer root).deadline ≤ (m.timer tp).deadline
  other : ∀ tp, tp ≠ root → m'.timer tp = m.timer tp
  timer : m'.timer root = { m.timer root with engine := none, timerState := .fired }
  wait : m'.wait = m.wait
  context : m'.context = m.context

omit [DecidableEq τ] in
theorem Fired.dpc (h : Fired m m' cpu root) : (m'.timer root).dpc = (m.timer root).dpc := by
  rw [h.timer]

theorem Fired.waitInv (h : WaitInv m) (hf : Fired m m' cpu root) : WaitInv m' := by
  refine h.of_same hf.wait (fun u => .inl ?_)
  by_cases hu : u = root
  . rw [hu, hf.timer]
    exact ⟨rfl, rfl⟩
  . rw [hf.other u hu]
    exact ⟨rfl, rfl⟩

structure Stopped (m m' : Machine τ θ) (cpu now : Nat) : Prop where
  queue : m'.QueueInv
  timer : m'.timer = m.timer
  wait : m'.wait = m.wait
  context : m'.context = m.context
  left : ∀ tp ∈ m'.heap cpu, now < (m'.timer tp).deadline
  next : (m'.heap cpu = [] ∧ (m'.engine cpu).nextDeadline = 2 ^ 64 - 1 ∧ (m'.engine cpu).armed = 0) ∨
    ∃ tp ∈ m'.heap cpu, (∀ u ∈ m'.heap cpu, (m'.timer tp).deadline ≤ (m'.timer u).deadline) ∧
      (m'.engine cpu).nextDeadline = (m'.timer tp).deadline ∧
      (m'.engine cpu).armed = (m'.timer tp).deadline

omit [DecidableEq τ] in
theorem QueueInv.stopped (h : QueueInv m) {engine : TimerEngine τ} (hlist : engine.timerlist = m.heap cpu)
    (hleft : ∀ tp ∈ m.heap cpu, now < (m.timer tp).deadline)
    (hnext : (m.heap cpu = [] ∧ engine.nextDeadline = 2 ^ 64 - 1 ∧ engine.armed = 0) ∨
      ∃ tp ∈ m.heap cpu, (∀ u ∈ m.heap cpu, (m.timer tp).deadline ≤ (m.timer u).deadline) ∧
        engine.nextDeadline = (m.timer tp).deadline ∧ engine.armed = (m.timer tp).deadline)
    : Stopped m (m.setEngine cpu engine) cpu now := by
  have hheap := heap_setEngine_same m hlist
  have hengine : (m.setEngine cpu engine).engine cpu = engine := Function.update_self ..
  refine ⟨h.of_same hheap (fun _ => rfl) (fun _ => Iff.rfl), rfl, rfl, rfl, ?_, ?_⟩
  . rw [hheap]
    exact hleft
  . rw [hheap, hengine]
    exact hnext

theorem QueueInv.timeEngineProgressPop_cases {root fired : Option τ} (h : QueueInv m)
    (hpeek : m.Peek cpu root) (he : Machine.timeEngineProgressPop cpu m now root = .ok (fired, m'))
    : (fired = none ∧ Stopped m m' cpu now) ∨
        ∃ tp, fired = some tp ∧ (m.timer tp).deadline ≤ now ∧ Fired m m' cpu tp := by
  unfold Machine.timeEngineProgressPop at he
  cases root with
  | none =>
    have hnil : m.heap cpu = [] := hpeek
    cases he
    exact .inl ⟨rfl, h.stopped rfl (by simp [hnil]) (.inl ⟨hnil, rfl, rfl⟩)⟩
  | some tp =>
    dsimp only at he
    split at he
    . next hlater =>
      cases he
      refine .inl ⟨rfl, h.stopped rfl ?_ (.inr ⟨tp, hpeek.1, hpeek.2, rfl, rfl⟩)⟩
      intro u hu
      exact hlater.trans_le (hpeek.2 u hu)
    . next hdue =>
      have hpulled := h.pulled hpeek.1 (show TimerState.fired ≠ .queued by simp)
      rw [heapRemove_of_mem hpeek.1] at he
      cases he
      refine .inr ⟨tp, rfl, by omega, hpulled.1, hpeek.1, hpeek.2, hpulled.2.other, ?_, rfl, rfl⟩
      exact setTimer_self ..

variable [DecidableEq θ] {d : Disp θ}

omit [DecidableEq τ] in
def woken (m m' : Machine τ θ) (root : τ) : List θ :=
  (m.timer root).hdr.waitblockList.filter fun t =>
    (m.wait t).state = .waiting ∧ (m'.wait t).state = .ready ∧
      (m'.wait t).waitStatus = statusRangeWait + 0 ∧ t ∉ (m'.timer root).hdr.waitblockList

structure Satisfied (m m' : Machine τ θ) (root : τ) : Prop where
  queue : m'.QueueInv
  waits : m'.WaitInv
  touches : Touches m m' root
  engine : (m'.timer root).engine = (m.timer root).engine
  dpc : (m'.timer root).dpc = (m.timer root).dpc
  heap : ∀ ep, m'.heap ep = m.heap ep
  context : m'.context = m.context
  woken : Machine.woken m m' root = (m.timer root).hdr.waitblockList

omit [DecidableEq τ] in
theorem woken_of_handed (h : (m.disp root).Ok) (hd : Disp.AllHandedOver (m.disp root) d)
    (hwait : m'.wait = d.wait) (hlist : (m'.timer root).hdr.waitblockList = [])
    : Machine.woken m m' root = (m.timer root).hdr.waitblockList := by
  unfold Machine.woken
  rw [List.filter_eq_self]
  intro t ht
  have hbefore : (m.wait t).state = .waiting := (h.waits t ht).state
  rw [hwait, hd.self t ht, hlist, hbefore]
  simp

omit [DecidableEq θ] in
theorem WaitInv.satisfied_of_handed (h : WaitInv m) (hd : Disp.AllHandedOver (m.disp root) d)
    (hwait : m'.wait = d.wait) (hlist : (m'.timer root).hdr.waitblockList = [])
    (hcount : (m'.timer root).hdr.waitercount = 0) (hother : ∀ u, u ≠ root → m'.timer u = m.timer u)
    : WaitInv m' := by
  constructor
  . intro u
    by_cases hu : u = root
    . subst hu
      exact .of_empty hlist hcount
    . have hdisp : (m'.disp u).hdr = (m.disp u).hdr := congrArg Timer.hdr (hother u hu)
      refine ⟨hdisp ▸ (h.ok u).nodup, hdisp ▸ (h.ok u).count, ?_⟩
      intro t ht
      rw [hdisp] at ht
      have hnot : t ∉ (m.disp root).hdr.waitblockList := fun hroot => hu (h.apart u root t ht hroot)
      show Disp.Waits (m'.wait t)
      rw [hwait, hd.other t hnot]
      exact (h.ok u).waits t ht
  . have hmem : ∀ u t, t ∈ (m'.timer u).hdr.waitblockList → t ∈ (m.timer u).hdr.waitblockList := by
      intro u t ht
      by_cases hu : u = root
      . subst hu
        simp [hlist] at ht
      . rwa [hother u hu] at ht
    intro u v t hu hv
    exact h.apart u v t (hmem u t hu) (hmem v t hv)

theorem WaitInv.timeEngineProgressSatisfy (h : WaitInv m) (hqueue : QueueInv m)
    (he : Machine.timeEngineProgressSatisfy cfg m root = .ok m')
    : Satisfied m m' root := by
  rcases hqueue.timeEngineProgressSatisfy he with ⟨hqueue', htouches, hheap⟩
  unfold Machine.timeEngineProgressSatisfy at he
  split at he
  . rcases (h.ok root).objSatisfyAll cfg with ⟨d, heq, hd⟩
    rw [heq] at he
    cases he
    have hroot : ∀ timer : Timer θ, ({ m with wait := d.wait }.setTimer root timer).timer root = timer :=
      fun timer => setTimer_self ..
    have hlist : d.hdr.waitblockList = [] := by rw [hd.hdr]
    have hcount : d.hdr.waitercount = 0 := by rw [hd.hdr]
    refine ⟨hqueue', h.satisfied_of_handed hd rfl ?_ ?_ htouches.other, htouches, ?_, ?_, hheap, rfl,
      woken_of_handed (h.ok root) hd rfl ?_⟩
    . rw [hroot]
      exact hlist
    . rw [hroot]
      exact hcount
    . rw [hroot]
    . rw [hroot]
    . rw [hroot]
      exact hlist
  . next hzero =>
    cases he
    have hnil : (m.timer root).hdr.waitblockList = [] := by
      have hcount : (m.timer root).hdr.waitercount = (m.timer root).hdr.waitblockList.length :=
        (h.ok root).count
      rw [← List.length_eq_zero_iff]
      omega
    refine ⟨hqueue', h, htouches, rfl, rfl, hheap, rfl, ?_⟩
    unfold Machine.woken
    rw [hnil]
    rfl

theorem WaitInv.wait {tp : τ} {t : θ} (h : WaitInv m) (ht : ∀ u, t ∉ (m.timer u).hdr.waitblockList)
    : WaitInv { m.setTimer tp { m.timer tp with hdr := (schedWaitSingle (m.disp tp) t).2.hdr } with
        wait := (schedWaitSingle (m.disp tp) t).2.wait } := by
  rcases Disp.schedWaitSingle_cases (m.disp tp) t with ⟨hothers, hcase⟩
  generalize (schedWaitSingle (m.disp tp) t).2 = d at hothers hcase
  have hself : (m.setTimer tp { m.timer tp with hdr := d.hdr }).timer tp
      = { m.timer tp with hdr := d.hdr } := setTimer_self ..
  have hother : ∀ u, u ≠ tp →
      (m.setTimer tp { m.timer tp with hdr := d.hdr }).timer u = m.timer u :=
    fun u hu => setTimer_of_ne _ _ hu
  have hmem : ∀ u v, v ∈ ((m.setTimer tp { m.timer tp with hdr := d.hdr }).timer u).hdr.waitblockList →
      v ∈ (m.timer u).hdr.waitblockList ∨ (u = tp ∧ v = t) := by
    intro u v hv
    by_cases hu : u = tp
    . rw [hu, hself] at hv
      rcases hcase with ⟨hlist, _⟩ | ⟨hhdr, _⟩
      . exact .inl (by rwa [hlist, ← hu] at hv)
      . rw [hhdr] at hv
        rcases List.mem_append.mp hv with hv | hv
        . exact .inl (hu ▸ hv)
        . exact .inr ⟨hu, List.mem_singleton.mp hv⟩
    . rw [hother u hu] at hv
      exact .inl hv
  constructor
  . intro u
    by_cases hu : u = tp
    . subst hu
      have hdisp : Machine.disp { m.setTimer u { m.timer u with hdr := d.hdr } with wait := d.wait } u
          = d := by
        unfold Machine.disp
        dsimp only
        rw [hself]
      rw [hdisp]
      rcases hcase with ⟨hlist, hcount⟩ | ⟨hhdr, hwaits⟩
      . refine ⟨hlist ▸ (h.ok u).nodup, hcount.trans (hlist ▸ (h.ok u).count), ?_⟩
        intro v hv
        rw [hlist] at hv
        rw [hothers v (fun hvt => ht u (hvt ▸ hv))]
        exact (h.ok u).waits v hv
      . exact (h.ok u).enqueue (ht u) hhdr hwaits hothers
    . have hdisp : (Machine.disp { m.setTimer tp { m.timer tp with hdr := d.hdr } with
          wait := d.wait } u).hdr = (m.disp u).hdr := congrArg Timer.hdr (hother u hu)
      refine ⟨hdisp ▸ (h.ok u).nodup, hdisp ▸ (h.ok u).count, ?_⟩
      intro v hv
      rw [hdisp] at hv
      show Disp.Waits (d.wait v)
      rw [hothers v (fun hvt => ht u (hvt ▸ hv))]
      exact (h.ok u).waits v hv
  . intro u v w hu hv
    rcases hmem u w hu with hold | ⟨hutp, hw⟩
    . rcases hmem v w hv with hold' | ⟨_, hw⟩
      . exact h.apart u v w hold hold'
      . exact absurd (hw ▸ hold) (ht u)
    . rcases hmem v w hv with hold' | ⟨hvtp, _⟩
      . exact absurd (hw ▸ hold') (ht v)
      . exact hutp.trans hvtp.symm

end Machine
end Nyy
