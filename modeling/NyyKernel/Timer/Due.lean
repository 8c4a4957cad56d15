import NyyKernel.Timer.Engine

namespace Nyy
namespace EngineSys

variable {τ θ : Type} {cfg : Config} {s s' : EngineSys τ θ} {cpu : Nat}

theorem setCall_self (s : EngineSys τ θ) (cpu : Nat) (c : EngineCall τ θ)
    : (s.setCall cpu c).call cpu = c := by
  simp [setCall]

theorem setCall_of_ne (s : EngineSys τ θ) {cpu' : Nat} (c : EngineCall τ θ) (h : cpu' ≠ cpu)
    : (s.setCall cpu c).call cpu' = s.call cpu' := by
  simp [setCall, h]

theorem Inv.of_call {c : EngineCall τ θ} (h : s.Inv) (hroot : c.pc.root = none)
    (hcall : (s.setCall cpu c).CallInv cpu)
    : (s.setCall cpu c).Inv := by
  refine h.engine (fun cpu' hne => setCall_of_ne _ _ hne) rfl rfl h.queue h.waits rfl
    (fun _ _ => rfl) ?_ hcall
  intro u hu
  rw [setCall_self, hroot] at hu
  cases hu

theorem CallInv.of_call {c : EngineCall τ θ} (h : s.CallInv cpu) (hbusy : (s.call cpu).pc ≠ .idle)
    (hremovals : c.removals = (s.call cpu).removals) (hnow : (s.call cpu).now ≤ c.now)
    (hlogged : (s.setCall cpu c).Logged c)
    : (s.setCall cpu c).CallInv cpu := by
  refine h.keep ?_ ?_ (fun _ => le_refl _) (fun u hu => .inl hu) ?_ ?_
  . rw [setCall_self, hremovals]
  . rw [setCall_self]
    exact hnow
  . exact fun _ => ⟨hbusy, fun tp htp => .inl ⟨htp, rfl⟩⟩
  . rw [setCall_self]
    exact hlogged

theorem Inv.read {now : Nat} [DecidableEq τ] [DecidableEq θ] (h : s.Inv)
    (hstep : Step cfg s (.read cpu now) s')
    : s'.Inv := by
  rcases hstep with ⟨henabled, he⟩
  have hcall := h.calls cpu
  have hlogged := hcall.logged
  unfold Enabled at henabled
  unfold EngineSys.step at he
  unfold Logged at hlogged
  dsimp only at henabled he
  cases hpc : (s.call cpu).pc with
  | idle =>
    rw [hpc] at he
    cases he
    refine h.of_call rfl ?_
    constructor <;> rw [setCall_self] <;> simp [Logged]
  | clock =>
    rw [hpc] at he henabled hlogged
    cases he
    exact h.of_call rfl (hcall.of_call (by simp [hpc]) rfl henabled hlogged)
  | peek =>
    rw [hpc] at henabled
    cases henabled
  | satisfy root =>
    rw [hpc] at henabled
    cases henabled
  | call root =>
    rw [hpc] at henabled
    cases henabled

theorem CallInv.fired {tp : τ} {m' : Machine τ θ} [DecidableEq τ] (h : s.CallInv cpu)
    (hqueue : s.machine.QueueInv) (hpc : (s.call cpu).pc = .peek)
    (hdue : (s.machine.timer tp).deadline ≤ (s.call cpu).now) (hm : Machine.Fired s.machine m' cpu tp)
    : CallInv ({ s with machine := m' }.setCall cpu { s.call cpu with
        pc := .satisfy tp
        removals := ⟨tp, s.installs tp, (s.machine.timer tp).deadline, (s.call cpu).now,
          (s.machine.timer tp).hdr.waitblockList, (s.machine.timer tp).dpc, s.contexts tp⟩ ::
            (s.call cpu).removals }) cpu := by
  have hlater := h.later (by simp [hpc])
  have hengine : (s.machine.timer tp).engine = some cpu := (hqueue.heap tp cpu).mp hm.mem
  have hsame : ∀ u, (m'.timer u).engine ≠ none → m'.timer u = s.machine.timer u := by
    intro u hu
    apply hm.other
    rintro rfl
    exact hu (by rw [hm.timer])
  constructor
  . rw [setCall_self]
    intro r hr
    rcases List.mem_cons.mp hr with rfl | hr
    . exact ⟨hdue, le_refl _⟩
    . exact h.due r hr
  . rw [setCall_self]
    refine List.nodup_cons.mpr ⟨?_, h.once⟩
    -- an earlier removal was for an earlier `timer_install`
    intro hmem
    rcases List.mem_map.mp hmem with ⟨r, hr, hkey⟩
    have hroot : r.root = tp := congrArg Prod.fst hkey
    have hinstall : r.install = s.installs tp := congrArg Prod.snd hkey
    have hgone := (h.gone r hr).2
    rw [hroot, hinstall, hengine] at hgone
    exact absurd (hgone (by simp)) (lt_irrefl _)
  . rw [setCall_self]
    intro r hr
    rcases List.mem_cons.mp hr with rfl | hr
    . exact ⟨le_refl _, fun hne => absurd (congrArg Timer.engine hm.timer) hne⟩
    . refine ⟨(h.gone r hr).1, fun hne => (h.gone r hr).2 ?_⟩
      rw [← hsame r.root hne]
      exact hne
  . rw [setCall_self]
    exact List.pairwise_cons.mpr ⟨fun r hr => hlater r hr tp hm.mem, h.sorted⟩
  . rw [setCall_self]
    intro _ r hr u hu
    have hne : (m'.timer u).engine ≠ none := by simp [(hm.queue.heap u cpu).mp hu]
    have hu' : u ∈ s.machine.heap cpu := by
      rw [hqueue.heap, ← hsame u hne]
      exact (hm.queue.heap u cpu).mp hu
    have hdeadline : (m'.timer u).deadline = (s.machine.timer u).deadline := by rw [hsame u hne]
    refine le_of_le_of_eq ?_ hdeadline.symm
    rcases List.mem_cons.mp hr with rfl | hr
    . exact hm.first u hu'
    . exact hlater r hr u hu'
  . have hlogged := h.logged
    unfold Logged at hlogged
    rw [hpc] at hlogged
    rw [setCall_self]
    refine ⟨_, _, rfl, ⟨rfl, rfl, ?_, rfl⟩, ?_, hlogged.1, hlogged.2⟩
    . exact hm.dpc.symm
    . exact (congrArg (fun timer => timer.hdr.waitblockList) hm.timer).symm

theorem Inv.peek {root : Option τ} [DecidableEq τ] [DecidableEq θ] (h : s.Inv)
    (hstep : Step cfg s (.peek cpu root) s')
    : s'.Inv ∧ ((s'.call cpu).pc = .idle →
        Machine.Stopped s.machine s'.machine cpu (s.call cpu).now ∧
          (s'.call cpu).now = (s.call cpu).now) := by
  rcases hstep with ⟨⟨hpc, hpeek⟩, he⟩
  have hcall := h.calls cpu
  unfold EngineSys.step at he
  rcases Except.bind_eq_ok he with ⟨⟨fired, m'⟩, hpop, he⟩
  rcases h.queue.timeEngineProgressPop_cases hpeek hpop with ⟨rfl, hm⟩ | ⟨tp, rfl, hdue, hm⟩
  . cases he
    have hlogged := hcall.logged
    unfold Logged at hlogged
    rw [hpc] at hlogged
    refine ⟨h.engine (fun cpu' hne => setCall_of_ne _ _ hne) rfl rfl hm.queue ?_ hm.context ?_ ?_
      (hcall.keep ?_ ?_ (fun _ => le_refl _) ?_ ?_ ?_), fun _ => ⟨hm, by rw [setCall_self]⟩⟩
    . exact h.waits.of_same hm.wait (fun u => .inl (by simp [setCall, hm.timer]))
    . exact fun u _ => congrFun hm.timer u
    . intro u hu
      rw [setCall_self] at hu
      cases hu
    . rw [setCall_self]
    . rw [setCall_self]
    . exact fun u hu => .inl (hm.timer ▸ hu)
    . rw [setCall_self]
      exact fun hne => absurd rfl hne
    . rw [setCall_self]
      exact hlogged
  . cases he
    have hengine : (s.machine.timer tp).engine = some cpu := (h.queue.heap tp cpu).mp hm.mem
    refine ⟨h.engine (fun cpu' hne => setCall_of_ne _ _ hne) rfl rfl hm.queue (hm.waitInv h.waits)
      hm.context ?_ ?_ (hcall.fired h.queue hpc hdue hm), ?_⟩
    . intro u hu
      rw [setCall_self] at hu
      apply hm.other
      rintro rfl
      exact hu rfl
    . intro u hu
      rw [setCall_self] at hu
      cases hu
      refine ⟨?_, ?_, .inr (by simp [hengine])⟩
      . exact congrArg Timer.engine hm.timer
      . exact hm.dpc
    . rw [setCall_self]
      intro hidle
      cases hidle

theorem Inv.satisfy [DecidableEq τ] [DecidableEq θ] (h : s.Inv) (hstep : Step cfg s (.satisfy cpu) s')
    : s'.Inv := by
  rcases hstep with ⟨⟨root, hpc⟩, he⟩
  have hcall := h.calls cpu
  have hlogged := hcall.logged
  unfold Logged at hlogged
  rw [hpc] at hlogged
  rcases hlogged with ⟨r, rest, hremovals, hr, hwaiters, hsatisfied, hcalled⟩
  have hroot : (s.call cpu).pc.root = some root := by
    rw [hpc]
    rfl
  unfold EngineSys.step at he
  dsimp only at he
  rw [hpc] at he
  rcases Except.bind_eq_ok he with ⟨m', hm', he⟩
  have hm := h.waits.timeEngineProgressSatisfy h.queue hm'
  cases he
  have hengine : ∀ u, (m'.timer u).engine = (s.machine.timer u).engine := by
    intro u
    by_cases hu : u = root
    . rw [hu, hm.engine]
    . rw [hm.touches.other u hu]
  refine h.engine (fun cpu' hne => setCall_of_ne _ _ hne) rfl rfl hm.queue hm.waits hm.context ?_ ?_
    (hcall.keep ?_ ?_ (fun _ => le_refl _) ?_ ?_ ?_)
  . intro u hu
    rw [setCall_self] at hu
    apply hm.touches.other
    rintro rfl
    exact hu rfl
  . intro u hu
    rw [setCall_self] at hu
    cases hu
    exact ⟨hm.engine.trans (h.locked cpu root hroot), hm.dpc, .inl hroot⟩
  . rw [setCall_self]
  . rw [setCall_self]
  . exact fun u hu => .inl (hengine u ▸ hu)
  . intro _
    refine ⟨by simp [hpc], fun tp htp => .inl ⟨hm.heap cpu ▸ htp, hm.touches.deadlines tp⟩⟩
  . rw [setCall_self]
    refine ⟨r, rest, hremovals, ⟨hr.timer, hr.install, ?_, hr.contexts⟩, ?_, hcalled⟩
    . exact hr.dpc.trans hm.dpc.symm
    . dsimp only
      rw [hremovals, List.map_cons, hm.woken, hsatisfied, ← hwaiters]
      unfold Removal.satisfied Removal.key
      rw [hr.timer, hr.install]

theorem called_eq {root : τ} {r : Removal τ θ} (h : s.Own) (hheld : s.Held root) (hr : s.Current root r)
    : r.called = (s.machine.timer root).dpc.map
        fun dpc => ((root, s.installs root), dpc, s.machine.context dpc) := by
  unfold Removal.called Removal.key
  rw [hr.dpc, hr.timer, hr.install, hr.contexts]
  cases hdpc : (s.machine.timer root).dpc with
  | none => rfl
  | some dpc =>
    rw [Option.map_some, Option.map_some, h.stored root dpc hheld hdpc]

theorem Inv.call [DecidableEq τ] [DecidableEq θ] (h : s.Inv) (hstep : Step cfg s (.call cpu) s')
    : s'.Inv := by
  rcases hstep with ⟨⟨root, hpc⟩, he⟩
  have hcall := h.calls cpu
  have hlogged := hcall.logged
  unfold Logged at hlogged
  rw [hpc] at hlogged
  rcases hlogged with ⟨r, rest, hremovals, hr, hsatisfied, hcalled⟩
  have hs' : s' = s.setCall cpu { s.call cpu with
      pc := .clock, called := (s.call cpu).removals.filterMap Removal.called } := by
    have heq := called_eq h.own (.inr (fun hfree => hfree cpu (by rw [hpc]; rfl))) hr
    unfold EngineSys.step at he
    dsimp only at he
    rw [hpc] at he
    dsimp only at he
    rw [hremovals]
    cases hdpc : (s.machine.timer root).dpc with
    | none =>
      rw [hdpc] at he heq
      cases he
      rw [List.filterMap_cons_none heq, ← hcalled]
    | some dpc =>
      rw [hdpc] at he heq
      cases he
      rw [List.filterMap_cons_some heq, ← hcalled]
  subst hs'
  exact h.of_call rfl (hcall.of_call (by simp [hpc]) rfl (le_refl _) ⟨hsatisfied, rfl⟩)

def Init (s : EngineSys τ θ) : Prop :=
  (∀ ep, s.machine.heap ep = []) ∧ s.machine.WaitInv ∧
    (∀ tp, (s.machine.timer tp).engine = none ∧ (s.machine.timer tp).timerState ≠ .queued) ∧
    ∀ cpu, (s.call cpu).pc = .idle ∧ (s.call cpu).removals = [] ∧ (s.call cpu).satisfied = [] ∧
      (s.call cpu).called = []

theorem free_of_idle (h : ∀ cpu, (s.call cpu).pc = .idle) (tp : τ) : s.Free tp := by
  intro cpu
  rw [h cpu]
  simp [EnginePc.root]

theorem Inv.init (h : Init s) : s.Inv := by
  rcases h with ⟨hheap, hwaits, htimer, hcall⟩
  have hheld : ∀ tp, ¬ s.Held tp := by
    rintro tp (hne | hfree)
    . exact hne (htimer tp).1
    . exact hfree (free_of_idle (fun cpu => (hcall cpu).1) tp)
  refine ⟨⟨?_, ?_, ?_⟩, hwaits, ⟨?_, ?_⟩, ?_, ?_, ?_⟩
  . intro ep
    simp [hheap ep]
  . intro tp ep
    simp [hheap ep, (htimer tp).1]
  . intro tp
    simp [htimer tp]
  . exact fun tp _ _ htp => absurd htp (hheld tp)
  . exact fun tp _ htp => absurd htp (hheld tp)
  . exact fun _ tp _ => (htimer tp).1
  . intro cpu cpu' tp hroot
    rw [(hcall cpu).1] at hroot
    cases hroot
  . intro cpu
    rcases hcall cpu with ⟨hpc, hremovals, hsatisfied, hcalled⟩
    refine ⟨?_, ?_, ?_, ?_, ?_, ?_⟩
    . simp [hremovals]
    . simp [hremovals]
    . simp [hremovals]
    . simp [hremovals]
    . simp [hremovals]
    . unfold Logged
      rw [hpc, hremovals, hsatisfied, hcalled]
      exact ⟨rfl, rfl⟩

variable [DecidableEq τ] [DecidableEq θ]

theorem Inv.step {op : EngineOp τ θ} (h : s.Inv) (hstep : Guarded Unshared (Step cfg) s op s')
    : s'.Inv := by
  rcases hstep with ⟨hunshared, hstep⟩
  cases op with
  | init tp =>
    rcases hstep with ⟨⟨hfree, hstate⟩, he⟩
    cases he
    exact h.dropped hfree (h.queue.timerInit_dropped hstate)
  | set cpu tp deadline dpc =>
    rcases hstep with ⟨hfree, he⟩
    rcases Except.bind_eq_ok he with ⟨m', hm', he⟩
    cases he
    exact h.dropped hfree (h.queue.timerSet_dropped hm')
  | install cpu tp context1 context2 =>
    rcases hstep with ⟨⟨hfree, hlater⟩, he⟩
    rcases Except.bind_eq_ok he with ⟨m', hm', he⟩
    split at he
    . next hsome =>
      cases Machine.timerInstall_of_some hsome hm'
      cases he
      exact h
    . next hnone =>
      cases he
      exact h.installed hfree hlater hunshared
        (h.queue.timerInstall_installed (by simpa using hnone) hm')
  | uninstall cpu tp =>
    rcases hstep with ⟨hfree, he⟩
    rcases Except.bind_eq_ok he with ⟨m', hm', he⟩
    cases he
    exact h.dropped hfree (h.queue.timerUninstall_dropped hm')
  | wait tp t =>
    rcases hstep with ⟨⟨hfree, ht⟩, he⟩
    cases he
    exact h.wait hfree ht
  | store dpc context1 context2 =>
    cases hstep.2
    exact h.store hunshared
  | read cpu now => exact h.read hstep
  | peek cpu root => exact (h.peek hstep).1
  | satisfy cpu => exact h.satisfy hstep
  | call cpu => exact h.call hstep

/--
Whenever `time_engine_progress` returns, it has fired exactly the timers that were due, the earliest
first, if no contexts are stored in the dpc of another timer before it was called.
-/
theorem timer_engine_fires_due {cpu : Nat} {root : Option τ} {s s' : EngineSys τ θ}
    (hr : Reach Init (Guarded Unshared (Step cfg)) s) (hstep : Step cfg s (.peek cpu root) s')
    (hreturn : (s'.call cpu).pc = .idle)
    : (∀ r ∈ (s'.call cpu).removals, r.deadline ≤ r.reading ∧
        (r.root ∈ s'.machine.heap cpu → r.install < s'.installs r.root)) ∧
      ((s'.call cpu).removals.map Removal.key).Nodup ∧
      (s'.call cpu).satisfied = (s'.call cpu).removals.map Removal.satisfied ∧
      (s'.call cpu).called = (s'.call cpu).removals.filterMap Removal.called ∧
      (s'.call cpu).removals.Pairwise (fun r earlier => earlier.deadline ≤ r.deadline) ∧
      (∀ tp ∈ s'.machine.heap cpu, (s'.call cpu).now < (s'.machine.timer tp).deadline) ∧
      ((s'.machine.heap cpu = [] ∧ (s'.machine.engine cpu).nextDeadline = 2 ^ 64 - 1 ∧
          (s'.machine.engine cpu).armed = 0) ∨
        ∃ tp ∈ s'.machine.heap cpu,
          (∀ u ∈ s'.machine.heap cpu, (s'.machine.timer tp).deadline ≤ (s'.machine.timer u).deadline) ∧
          (s'.machine.engine cpu).nextDeadline = (s'.machine.timer tp).deadline ∧
          (s'.machine.engine cpu).armed = (s'.machine.timer tp).deadline) := by
  have h : s.Inv := hr.invariant (fun s hs => Inv.init hs) (fun s op s' h hstep => h.step hstep)
  rcases h.peek hstep with ⟨h', hstopped⟩
  rcases hstopped hreturn with ⟨hm, hnow⟩
  have hcall := h'.calls cpu
  have hlogged := hcall.logged
  unfold Logged at hlogged
  rw [hreturn] at hlogged
  refine ⟨?_, hcall.once, hlogged.1, hlogged.2, hcall.sorted, hnow ▸ hm.left, hm.next⟩
  intro r hr
  refine ⟨(hcall.due r hr).1, fun hmem => (hcall.gone r hr).2 ?_⟩
  simp [(h'.queue.heap r.root cpu).mp hmem]

def unusedTimers (dpc : Nat → Option Nat) : EngineSys Nat Nat where
  machine :=
    { timer := fun tp => ⟨objInit .timer, dpc tp, 10 * tp, .unused, none⟩
      wait := fun _ => ⟨.running, statusOk, -1, false, false⟩
      engine := fun _ => ⟨[], 0, 0, false⟩
      context := fun _ => (0, 0) }
  call := fun _ => ⟨.idle, 0, [], [], []⟩
  contexts := fun _ => (0, 0)
  installs := fun _ => 0

theorem unusedTimers_init (dpc : Nat → Option Nat) : Init (unusedTimers dpc) := by
  refine ⟨fun _ => rfl, ⟨?_, ?_⟩, fun _ => ⟨rfl, by simp [unusedTimers]⟩, fun _ => ⟨rfl, rfl, rfl, rfl⟩⟩
  . intro tp
    exact ⟨List.nodup_nil, rfl, by simp [unusedTimers, objInit, Machine.disp]⟩
  . intro tp u t ht
    simp [unusedTimers, objInit] at ht

theorem timer_engine_fires_due_first
    : ∃ s s' : EngineSys Nat Nat, Reach Init (Guarded Unshared (Step ⟨false⟩)) s ∧
        Step ⟨false⟩ s (.peek 0 (some 2)) s' ∧ (s'.call 0).pc = .idle ∧
        (s'.call 0).satisfied = [((1, 1), [7])] ∧ (s'.call 0).called = [((1, 1), 9, 100, 101)] := by
  have h0 : Reach Init (Guarded Unshared (Step ⟨false⟩))
      (unusedTimers fun tp => if tp = 1 then some 9 else none) := .start (unusedTimers_init _)
  have h1 := h0.next (e := EngineOp.wait 1 7)
    ⟨trivial, ⟨free_of_idle (fun _ => rfl) 1, by simp [unusedTimers, objInit]⟩, rfl⟩
  -- no other timer has a dpc
  have h2 := h1.next (e := EngineOp.install 0 1 100 101) ⟨(fun u dpc hne _ hdpc => by
      simp [unusedTimers, Machine.setTimer_of_ne, hne] at hdpc),
    ⟨free_of_idle (fun _ => rfl) 1, fun hidle => absurd rfl hidle⟩, rfl⟩
  have h3 := h2.next (e := EngineOp.install 0 2 200 201) ⟨(fun u dpc _ _ _ hdpc => by
      cases show none = some dpc from hdpc),
    ⟨free_of_idle (fun _ => rfl) 2, fun hidle => absurd rfl hidle⟩, rfl⟩
  have h4 := h3.next (e := EngineOp.read 0 15) ⟨trivial, trivial, rfl⟩
  have h5 := h4.next (e := EngineOp.peek 0 (some 1)) ⟨trivial, ⟨rfl, by decide, by decide⟩, rfl⟩
  have h6 := h5.next (e := EngineOp.satisfy 0) ⟨trivial, ⟨1, rfl⟩, rfl⟩
  have h7 := h6.next (e := EngineOp.call 0) ⟨trivial, ⟨1, rfl⟩, rfl⟩
  have h8 := h7.next (e := EngineOp.read 0 15) ⟨trivial, Nat.le_refl 15, rfl⟩
  have hlast := @timer_engine_fires_due Nat Nat ⟨false⟩ _ _ 0 (some 2) _ _ h8
    ⟨⟨rfl, by decide, by decide⟩, rfl⟩ rfl
  exact ⟨_, _, h8, ⟨⟨rfl, by decide, by decide⟩, rfl⟩, rfl, hlast.2.2.1, hlast.2.2.2.1⟩

theorem shared_dpc_wrong_contexts
    : ∃ s s' : EngineSys Nat Nat, Reach Init (Step ⟨false⟩) s ∧
        Step ⟨false⟩ s (.peek 0 (some 2)) s' ∧ (s'.call 0).pc = .idle ∧
        (s'.call 0).called = [((1, 1), 9, 200, 201)] ∧
        (s'.call 0).removals.filterMap Removal.called = [((1, 1), 9, 100, 101)] := by
  have h0 : Reach Init (Step ⟨false⟩) (unusedTimers fun _ => some 9) := .start (unusedTimers_init _)
  have h1 := h0.next (e := EngineOp.install 0 1 100 101)
    ⟨⟨free_of_idle (fun _ => rfl) 1, fun hidle => absurd rfl hidle⟩, rfl⟩
  have h2 := h1.next (e := EngineOp.install 0 2 200 201)
    ⟨⟨free_of_idle (fun _ => rfl) 2, fun hidle => absurd rfl hidle⟩, rfl⟩
  have h3 := h2.next (e := EngineOp.read 0 15) ⟨trivial, rfl⟩
  have h4 := h3.next (e := EngineOp.peek 0 (some 1)) ⟨⟨rfl, by decide, by decide⟩, rfl⟩
  have h5 := h4.next (e := EngineOp.satisfy 0) ⟨⟨1, rfl⟩, rfl⟩
  have h6 := h5.next (e := EngineOp.call 0) ⟨⟨1, rfl⟩, rfl⟩
  have h7 := h6.next (e := EngineOp.read 0 15) ⟨Nat.le_refl 15, rfl⟩
  exact ⟨_, _, h7, ⟨⟨rfl, by decide, by decide⟩, rfl⟩, rfl, rfl, rfl⟩

end EngineSys
end Nyy
