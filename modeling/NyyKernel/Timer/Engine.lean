import NyyKernel.Timer.Calls

/-!
This module contains the loop of `time_engine_progress`. The lock of the engine is not held while the waiters
of a timer wake up and while its dpc runs, so other calls stand between any two steps of the loop.
-/

namespace Nyy

structure Removal (τ θ : Type) where
  root : τ
  -- which of its calls of `timer_install` had put it there
  install : Nat
  deadline : Nat
  -- the clock of the round
  reading : Nat
  waiters : List θ
  dpc : Option Nat
  -- what this `timer_install` was given
  contexts : Nat × Nat

inductive EnginePc (τ : Type) where
  | idle
  -- In front of the next reading of the clock.
  | clock
  -- In front of the section under the lock of the engine.
  | peek
  -- The timer has fired, and its lock is held.
  | satisfy (root : τ)
  | call (root : τ)

structure EngineCall (τ θ : Type) where
  pc : EnginePc τ
  now : Nat
  removals : List (Removal τ θ)
  -- the threads that were woken for an installed timer
  satisfied : List ((τ × Nat) × List θ)
  -- the dpc that was called for an installed timer, and the contexts that it got
  called : List ((τ × Nat) × Nat × Nat × Nat)

structure EngineSys (τ θ : Type) where
  machine : Machine τ θ
  call : Nat → EngineCall τ θ
  contexts : τ → Nat × Nat
  installs : τ → Nat

inductive EngineOp (τ θ : Type) where
  | init (tp : τ)
  | set (cpu : Nat) (tp : τ) (deadline : Nat) (dpc : Option Nat)
  | install (cpu : Nat) (tp : τ) (context1 context2 : Nat)
  | uninstall (cpu : Nat) (tp : τ)
  | wait (tp : τ) (t : θ)
  | store (dpc context1 context2 : Nat)
  | read (cpu now : Nat)
  | peek (cpu : Nat) (root : Option τ)
  | satisfy (cpu : Nat)
  | call (cpu : Nat)

def EnginePc.root {τ : Type} : EnginePc τ → Option τ
  | .satisfy root => some root
  | .call root => some root
  | _ => none

namespace Removal

variable {τ θ : Type}

def key (r : Removal τ θ) : τ × Nat := (r.root, r.install)

def satisfied (r : Removal τ θ) : (τ × Nat) × List θ := (r.key, r.waiters)

def called (r : Removal τ θ) : Option ((τ × Nat) × Nat × Nat × Nat) :=
  r.dpc.map fun dpc => (r.key, dpc, r.contexts)

end Removal

namespace EngineSys

variable {τ θ : Type}

def Free (s : EngineSys τ θ) (tp : τ) : Prop := ∀ cpu, (s.call cpu).pc.root ≠ some tp

def Held (s : EngineSys τ θ) (tp : τ) : Prop := (s.machine.timer tp).engine ≠ none ∨ ¬ s.Free tp

def Enabled (s : EngineSys τ θ) : EngineOp τ θ → Prop
  | .init tp => s.Free tp ∧ (s.machine.timer tp).timerState ≠ .queued
  | .set _ tp _ _ => s.Free tp
  -- what is installed during a call is not due in the current round
  | .install cpu tp _ _ => s.Free tp ∧
    ((s.call cpu).pc ≠ .idle → (s.call cpu).now < (s.machine.timer tp).deadline)
  | .uninstall _ tp => s.Free tp
  | .wait tp t => s.Free tp ∧ ∀ u, t ∉ (s.machine.timer u).hdr.waitblockList
  | .store _ _ _ => True
  | .read cpu now => match (s.call cpu).pc with
    | .idle => True
    | .clock => (s.call cpu).now ≤ now
    | _ => False
  | .peek cpu root => (s.call cpu).pc = .peek ∧ s.machine.Peek cpu root
  | .satisfy cpu => ∃ root, (s.call cpu).pc = .satisfy root
  | .call cpu => ∃ root, (s.call cpu).pc = .call root

def Unshared (s : EngineSys τ θ) : EngineOp τ θ → Prop
  | .install _ tp _ _ => ∀ u dpc, u ≠ tp → s.Held u → (s.machine.timer u).dpc = some dpc →
    (s.machine.timer tp).dpc ≠ some dpc
  | .store dpc _ _ => ∀ u, s.Held u → (s.machine.timer u).dpc ≠ some dpc
  | _ => True

def setCall (s : EngineSys τ θ) (cpu : Nat) (c : EngineCall τ θ) : EngineSys τ θ :=
  { s with call := Function.update s.call cpu c }

section

variable [DecidableEq τ] [DecidableEq θ]

def step (cfg : Config) (s : EngineSys τ θ) : EngineOp τ θ → Except Fault (EngineSys τ θ)
  | .init tp => return { s with machine := s.machine.timerInit tp }
  | .set cpu tp deadline dpc => do
    return { s with machine := ← Machine.timerSet cpu s.machine tp deadline dpc }
  | .install cpu tp context1 context2 => do
    let m ← Machine.timerInstall cfg cpu s.machine tp context1 context2
    if (s.machine.timer tp).engine.isSome then
      -- it is queued already, and nothing happens
      return { s with machine := m }
    else
      return { s with
        machine := m
        contexts := Function.update s.contexts tp (context1, context2)
        installs := Function.update s.installs tp (s.installs tp + 1) }
  | .uninstall cpu tp => do
    return { s with machine := ← Machine.timerUninstall cpu s.machine tp }
  | .wait tp t =>
    let d := (schedWaitSingle (s.machine.disp tp) t).2
    let m := s.machine.setTimer tp { s.machine.timer tp with hdr := d.hdr }
    return { s with machine := { m with wait := d.wait } }
  | .store dpc context1 context2 => return { s with
      machine := { s.machine with
        context := Function.update s.machine.context dpc (context1, context2) } }
  | .read cpu now =>
    let c := s.call cpu
    match c.pc with
    | .clock => return s.setCall cpu { c with pc := .peek, now := now }
    | _ => return s.setCall cpu ⟨.peek, now, [], [], []⟩
  | .peek cpu root => do
    let c := s.call cpu
    let (fired, m) ← Machine.timeEngineProgressPop cpu s.machine c.now root
    match fired with
    | none => return { s with machine := m }.setCall cpu { c with pc := .idle }
    | some root =>
      let timer := s.machine.timer root
      let r := ⟨root, s.installs root, timer.deadline, c.now, timer.hdr.waitblockList, timer.dpc,
        s.contexts root⟩
      return { s with machine := m }.setCall cpu
        { c with pc := .satisfy root, removals := r :: c.removals }
  | .satisfy cpu => do
    let c := s.call cpu
    match c.pc with
    | .satisfy root =>
      let m ← Machine.timeEngineProgressSatisfy cfg s.machine root
      return { s with machine := m }.setCall cpu { c with
        pc := .call root
        satisfied := ((root, s.installs root), Machine.woken s.machine m root) :: c.satisfied }
    | _ => return s
  | .call cpu =>
    let c := s.call cpu
    match c.pc with
    | .call root => match (s.machine.timer root).dpc with
      | some dpc => return s.setCall cpu { c with
          pc := .clock
          called := ((root, s.installs root), dpc, s.machine.context dpc) :: c.called }
      | none => return s.setCall cpu { c with pc := .clock }
    | _ => return s

def Step (cfg : Config) (s : EngineSys τ θ) (op : EngineOp τ θ) (s' : EngineSys τ θ) : Prop :=
  s.Enabled op ∧ s.step cfg op = .ok s'

end

variable {s s' : EngineSys τ θ} {cpu : Nat} {tp : τ} {m' : Machine τ θ}

structure Current (s : EngineSys τ θ) (root : τ) (r : Removal τ θ) : Prop where
  timer : r.root = root
  install : r.install = s.installs root
  dpc : r.dpc = (s.machine.timer root).dpc
  contexts : r.contexts = s.contexts root

def Logged (s : EngineSys τ θ) (c : EngineCall τ θ) : Prop :=
  match c.pc with
  | .satisfy root => ∃ r rest, c.removals = r :: rest ∧ s.Current root r ∧
    r.waiters = (s.machine.timer root).hdr.waitblockList ∧
    c.satisfied = rest.map Removal.satisfied ∧ c.called = rest.filterMap Removal.called
  | .call root => ∃ r rest, c.removals = r :: rest ∧ s.Current root r ∧
    c.satisfied = c.removals.map Removal.satisfied ∧ c.called = rest.filterMap Removal.called
  | _ => c.satisfied = c.removals.map Removal.satisfied ∧
    c.called = c.removals.filterMap Removal.called

structure CallInv (s : EngineSys τ θ) (cpu : Nat) : Prop where
  due : ∀ r ∈ (s.call cpu).removals, r.deadline ≤ r.reading ∧ r.reading ≤ (s.call cpu).now
  once : ((s.call cpu).removals.map Removal.key).Nodup
  gone : ∀ r ∈ (s.call cpu).removals, r.install ≤ s.installs r.root ∧
    ((s.machine.timer r.root).engine ≠ none → r.install < s.installs r.root)
  sorted : (s.call cpu).removals.Pairwise fun r earlier => earlier.deadline ≤ r.deadline
  -- what is left in the heap, or came into it, is not before what was removed
  later : (s.call cpu).pc ≠ .idle → ∀ r ∈ (s.call cpu).removals, ∀ tp ∈ s.machine.heap cpu,
    r.deadline ≤ (s.machine.timer tp).deadline
  logged : s.Logged (s.call cpu)

structure Own (s : EngineSys τ θ) : Prop where
  unshared : ∀ tp u dpc, s.Held tp → s.Held u → (s.machine.timer tp).dpc = some dpc →
    (s.machine.timer u).dpc = some dpc → tp = u
  stored : ∀ tp dpc, s.Held tp → (s.machine.timer tp).dpc = some dpc →
    s.machine.context dpc = s.contexts tp

structure Inv (s : EngineSys τ θ) : Prop where
  queue : s.machine.QueueInv
  waits : s.machine.WaitInv
  own : s.Own
  locked : ∀ cpu tp, (s.call cpu).pc.root = some tp → (s.machine.timer tp).engine = none
  one : ∀ cpu cpu' tp, (s.call cpu).pc.root = some tp → (s.call cpu').pc.root = some tp → cpu = cpu'
  calls : ∀ cpu, s.CallInv cpu

theorem CallInv.keep (h : s.CallInv cpu) (hremovals : (s'.call cpu).removals = (s.call cpu).removals)
    (hnow : (s.call cpu).now ≤ (s'.call cpu).now) (hinstalls : ∀ u, s.installs u ≤ s'.installs u)
    (hengine : ∀ u, (s'.machine.timer u).engine ≠ none →
      (s.machine.timer u).engine ≠ none ∨ s.installs u < s'.installs u)
    (hheap : (s'.call cpu).pc ≠ .idle → (s.call cpu).pc ≠ .idle ∧ ∀ tp ∈ s'.machine.heap cpu,
      (tp ∈ s.machine.heap cpu ∧ (s'.machine.timer tp).deadline = (s.machine.timer tp).deadline) ∨
        (s.call cpu).now < (s'.machine.timer tp).deadline) (hlogged : s'.Logged (s'.call cpu))
    : s'.CallInv cpu := by
  refine ⟨?_, hremovals ▸ h.once, ?_, hremovals ▸ h.sorted, ?_, hlogged⟩
  . intro r hr
    rw [hremovals] at hr
    exact ⟨(h.due r hr).1, (h.due r hr).2.trans hnow⟩
  . intro r hr
    rw [hremovals] at hr
    rcases h.gone r hr with ⟨hle, hlt⟩
    refine ⟨hle.trans (hinstalls r.root), ?_⟩
    intro hne
    rcases hengine r.root hne with hold | hnew
    . exact (hlt hold).trans_le (hinstalls r.root)
    . exact hle.trans_lt hnew
  . intro hpc r hr tp htp
    rw [hremovals] at hr
    rcases (hheap hpc).2 tp htp with ⟨hmem, hdeadline⟩ | hnew
    . rw [hdeadline]
      exact h.later (hheap hpc).1 r hr tp hmem
    . have hdue := h.due r hr
      omega

theorem Logged.frame {c : EngineCall τ θ} (h : s.Logged c)
    (hroot : ∀ root, c.pc.root = some root →
      s'.machine.timer root = s.machine.timer root ∧ s'.contexts root = s.contexts root ∧
        s'.installs root = s.installs root)
    : s'.Logged c := by
  have hcurrent : ∀ root r, c.pc.root = some root → s.Current root r → s'.Current root r := by
    intro root r hpc hr
    rcases hroot root hpc with ⟨htimer, hcontexts, hsame⟩
    refine ⟨hr.timer, ?_, ?_, ?_⟩
    . rw [hsame, hr.install]
    . rw [htimer, hr.dpc]
    . rw [hcontexts, hr.contexts]
  rcases c with ⟨pc, now, removals, satisfied, called⟩
  cases pc with
  | idle => exact h
  | clock => exact h
  | peek => exact h
  | satisfy root =>
    rcases h with ⟨r, rest, hremovals, hr, hwaiters, hrest⟩
    refine ⟨r, rest, hremovals, hcurrent root r rfl hr, ?_, hrest⟩
    rw [(hroot root rfl).1]
    exact hwaiters
  | call root =>
    rcases h with ⟨r, rest, hremovals, hr, hrest⟩
    exact ⟨r, rest, hremovals, hcurrent root r rfl hr, hrest⟩

theorem CallInv.frame (h : s.CallInv cpu) (hcall : s'.call cpu = s.call cpu)
    (hroot : ∀ root, (s.call cpu).pc.root = some root →
      s'.machine.timer root = s.machine.timer root ∧ s'.contexts root = s.contexts root ∧
        s'.installs root = s.installs root) (hinstalls : ∀ u, s.installs u ≤ s'.installs u)
    (hengine : ∀ u, (s'.machine.timer u).engine ≠ none →
      (s.machine.timer u).engine ≠ none ∨ s.installs u < s'.installs u)
    (hheap : (s.call cpu).pc ≠ .idle → ∀ tp ∈ s'.machine.heap cpu,
      (tp ∈ s.machine.heap cpu ∧ (s'.machine.timer tp).deadline = (s.machine.timer tp).deadline) ∨
        (s.call cpu).now < (s'.machine.timer tp).deadline)
    : s'.CallInv cpu := by
  refine h.keep (by rw [hcall]) (by rw [hcall]) hinstalls hengine ?_ ?_
  . rw [hcall]
    exact fun hpc => ⟨hpc, hheap hpc⟩
  . rw [hcall]
    exact h.logged.frame hroot

theorem Own.frame (h : s.Own)
    (hheld : ∀ u, s'.Held u → s.Held u ∧ (s'.machine.timer u).dpc = (s.machine.timer u).dpc ∧
      s'.contexts u = s.contexts u)
    (hcontext : ∀ u dpc, s.Held u → (s.machine.timer u).dpc = some dpc →
      s'.machine.context dpc = s.machine.context dpc)
    : s'.Own := by
  constructor
  . intro tp u dpc htp hu hdpc hdpc'
    rcases hheld tp htp with ⟨htp, hsame, _⟩
    rcases hheld u hu with ⟨hu, hsame', _⟩
    exact h.unshared tp u dpc htp hu (hsame ▸ hdpc) (hsame' ▸ hdpc')
  . intro tp dpc htp hdpc
    rcases hheld tp htp with ⟨htp, hsame, hcontexts⟩
    rw [hsame] at hdpc
    rw [hcontext tp dpc htp hdpc, hcontexts]
    exact h.stored tp dpc htp hdpc

theorem Inv.change [DecidableEq τ] (h : s.Inv) (hfree : s.Free tp) (hcall : s'.call = s.call)
    (hqueue : s'.machine.QueueInv) (hwaits : s'.machine.WaitInv) (hown : s'.Own)
    (hother : ∀ u, u ≠ tp → s'.machine.timer u = s.machine.timer u ∧ s'.contexts u = s.contexts u ∧
      s'.installs u = s.installs u) (hinstalls : s.installs tp ≤ s'.installs tp)
    (hengine : (s'.machine.timer tp).engine ≠ none →
      (s.machine.timer tp).engine ≠ none ∨ s.installs tp < s'.installs tp)
    (hheap : ∀ cpu, (s.call cpu).pc ≠ .idle → tp ∈ s'.machine.heap cpu →
      (tp ∈ s.machine.heap cpu ∧ (s'.machine.timer tp).deadline = (s.machine.timer tp).deadline) ∨
        (s.call cpu).now < (s'.machine.timer tp).deadline)
    : s'.Inv := by
  have hne : ∀ cpu u, (s.call cpu).pc.root = some u → u ≠ tp := by
    rintro cpu u hu rfl
    exact hfree cpu hu
  refine ⟨hqueue, hwaits, hown, ?_, hcall ▸ h.one, ?_⟩
  . intro cpu u hu
    rw [hcall] at hu
    rw [(hother u (hne cpu u hu)).1]
    exact h.locked cpu u hu
  . intro cpu
    refine (h.calls cpu).frame (by rw [hcall]) ?_ ?_ ?_ ?_
    . intro root hroot
      exact hother root (hne cpu root hroot)
    . intro u
      by_cases hu : u = tp
      . exact hu ▸ hinstalls
      . rw [(hother u hu).2.2]
    . intro u hu'
      by_cases hu : u = tp
      . subst hu
        exact hengine hu'
      . rw [(hother u hu).1] at hu'
        exact .inl hu'
    . intro hpc u hu'
      by_cases hu : u = tp
      . subst hu
        exact hheap cpu hpc hu'
      . have hsame := (hother u hu).1
        rw [hqueue.heap, hsame, ← h.queue.heap] at hu'
        exact .inl ⟨hu', by rw [hsame]⟩

theorem Inv.dropped [DecidableEq τ] (h : s.Inv) (hfree : s.Free tp) (hd : Machine.Dropped s.machine m' tp)
    : Inv { s with machine := m' } := by
  have hheld : ∀ u, EngineSys.Held { s with machine := m' } u → u ≠ tp ∧ s.Held u := by
    intro u hu
    have hne : u ≠ tp := by
      rintro rfl
      rcases hu with hu | hu
      . exact hu hd.engine
      . exact hu hfree
    refine ⟨hne, ?_⟩
    unfold EngineSys.Held at hu
    dsimp only at hu
    rw [hd.other u hne] at hu
    exact hu
  refine h.change hfree rfl hd.queue (hd.waitInv h.waits) ?_ ?_ (le_refl _) ?_ ?_
  . refine h.own.frame ?_ ?_
    . intro u hu
      rcases hheld u hu with ⟨hne, hu⟩
      exact ⟨hu, congrArg Timer.dpc (hd.other u hne), rfl⟩
    . intro u dpc _ _
      exact congrFun hd.context dpc
  . exact fun u hu => ⟨hd.other u hu, rfl, rfl⟩
  . exact fun hne => absurd hd.engine hne
  . intro cpu _ hmem
    rw [hd.queue.heap, hd.engine] at hmem
    cases hmem

theorem Inv.installed {contexts : Nat × Nat} [DecidableEq τ] (h : s.Inv) (hfree : s.Free tp)
    (hlater : (s.call cpu).pc ≠ .idle → (s.call cpu).now < (s.machine.timer tp).deadline)
    (hunshared : ∀ u dpc, u ≠ tp → s.Held u → (s.machine.timer u).dpc = some dpc →
      (s.machine.timer tp).dpc ≠ some dpc) (hi : Machine.Installed s.machine m' cpu tp contexts)
    : Inv { s with
        machine := m'
        contexts := Function.update s.contexts tp contexts
        installs := Function.update s.installs tp (s.installs tp + 1) } := by
  generalize hs' : EngineSys.mk m' s.call (Function.update s.contexts tp contexts)
    (Function.update s.installs tp (s.installs tp + 1)) = s'
  have hmachine : s'.machine = m' := hs' ▸ rfl
  have hcall : s'.call = s.call := hs' ▸ rfl
  have hself : s'.contexts tp = contexts ∧ s'.installs tp = s.installs tp + 1 := by
    subst hs'
    exact ⟨Function.update_self .., Function.update_self ..⟩
  have hother : ∀ u, u ≠ tp → s'.machine.timer u = s.machine.timer u ∧
      s'.contexts u = s.contexts u ∧ s'.installs u = s.installs u := by
    subst hs'
    exact fun u hu => ⟨hi.other u hu, Function.update_of_ne hu .., Function.update_of_ne hu ..⟩
  have hheld : ∀ u, u ≠ tp → s'.Held u → s.Held u := by
    intro u hne hu
    unfold EngineSys.Held EngineSys.Free at hu
    rw [(hother u hne).1, hcall] at hu
    exact hu
  clear hs'
  subst hmachine
  refine h.change hfree hcall hi.queue (hi.waitInv h.waits) ⟨?_, ?_⟩ hother ?_ ?_ ?_
  . -- the new timer shares its dpc with none of the others
    intro u v dpc hu hv hdpc hdpc'
    by_cases hutp : u = tp
    . by_cases hvtp : v = tp
      . exact hutp.trans hvtp.symm
      . rw [hutp, hi.dpc] at hdpc
        rw [hi.other v hvtp] at hdpc'
        exact absurd hdpc (hunshared v dpc hvtp (hheld v hvtp hv) hdpc')
    . rw [hi.other u hutp] at hdpc
      by_cases hvtp : v = tp
      . rw [hvtp, hi.dpc] at hdpc'
        exact absurd hdpc' (hunshared u dpc hutp (hheld u hutp hu) hdpc)
      . rw [hi.other v hvtp] at hdpc'
        exact h.own.unshared u v dpc (hheld u hutp hu) (hheld v hvtp hv) hdpc hdpc'
  . intro u dpc hu hdpc
    by_cases hutp : u = tp
    . rw [hutp, hi.dpc] at hdpc
      rw [hi.context, if_pos hdpc, hutp, hself.1]
    . rw [hi.other u hutp] at hdpc
      rw [hi.context, if_neg (hunshared u dpc hutp (hheld u hutp hu) hdpc), (hother u hutp).2.1]
      exact h.own.stored u dpc (hheld u hutp hu) hdpc
  . omega
  . intro _
    right
    omega
  . intro cpu' hpc hmem
    rw [hi.queue.heap, hi.engine] at hmem
    cases hmem
    right
    rw [hi.deadline]
    exact hlater hpc

theorem Inv.store {dpc context1 context2 : Nat} (h : s.Inv)
    (hunshared : ∀ u, s.Held u → (s.machine.timer u).dpc ≠ some dpc)
    : Inv { s with machine := { s.machine with
        context := Function.update s.machine.context dpc (context1, context2) } } := by
  refine ⟨⟨h.queue.nodup, h.queue.heap, h.queue.state⟩, ⟨h.waits.ok, h.waits.apart⟩, ?_, h.locked,
    h.one, ?_⟩
  . refine h.own.frame (fun u hu => ⟨hu, rfl, rfl⟩) ?_
    intro u dpc' hu hdpc
    apply Function.update_of_ne
    rintro rfl
    exact hunshared u hu hdpc
  . intro cpu
    refine (h.calls cpu).frame rfl (fun _ _ => ⟨rfl, rfl, rfl⟩) (fun _ => le_refl _) ?_ ?_
    . exact fun u hu => .inl hu
    . exact fun _ tp htp => .inl ⟨htp, rfl⟩

theorem Inv.wait {tp : τ} {t : θ} [DecidableEq τ] [DecidableEq θ] (h : s.Inv) (hfree : s.Free tp)
    (ht : ∀ u, t ∉ (s.machine.timer u).hdr.waitblockList)
    : Inv { s with machine := { s.machine.setTimer tp { s.machine.timer tp with
          hdr := (schedWaitSingle (s.machine.disp tp) t).2.hdr } with
        wait := (schedWaitSingle (s.machine.disp tp) t).2.wait } } := by
  have hwaits := @Machine.WaitInv.wait τ θ s.machine _ _ tp t h.waits ht
  generalize (schedWaitSingle (s.machine.disp tp) t).2 = d at hwaits ⊢
  have hself := Machine.setTimer_self s.machine tp { s.machine.timer tp with hdr := d.hdr }
  have hother : ∀ u, u ≠ tp →
      (s.machine.setTimer tp { s.machine.timer tp with hdr := d.hdr }).timer u = s.machine.timer u :=
    fun u hu => Machine.setTimer_of_ne _ _ hu
  -- only the header of the timer changes
  have hsame : ∀ u,
      let timer := (s.machine.setTimer tp { s.machine.timer tp with hdr := d.hdr }).timer u
      timer.engine = (s.machine.timer u).engine ∧ timer.timerState = (s.machine.timer u).timerState ∧
        timer.dpc = (s.machine.timer u).dpc ∧ timer.deadline = (s.machine.timer u).deadline := by
    intro u
    dsimp only
    by_cases hu : u = tp
    . rw [hu, hself]
      exact ⟨rfl, rfl, rfl, rfl⟩
    . rw [hother u hu]
      exact ⟨rfl, rfl, rfl, rfl⟩
  refine h.change hfree rfl ?_ hwaits ?_ (fun u hu => ⟨hother u hu, rfl, rfl⟩) (le_refl _) ?_ ?_
  . refine h.queue.of_same (fun _ => rfl) (fun u => (hsame u).1) ?_
    intro u
    rw [(hsame u).2.1]
  . refine h.own.frame ?_ (fun _ _ _ _ => rfl)
    intro u hu
    refine ⟨?_, (hsame u).2.2.1, rfl⟩
    rcases hu with hu | hu
    . exact .inl ((hsame u).1 ▸ hu)
    . exact .inr hu
  . intro hne
    exact .inl ((hsame tp).1 ▸ hne)
  . intro cpu _ hmem
    exact .inl ⟨hmem, (hsame tp).2.2.2⟩

theorem Inv.engine (h : s.Inv) (hcalls : ∀ cpu', cpu' ≠ cpu → s'.call cpu' = s.call cpu')
    (hcontexts : s'.contexts = s.contexts) (hinstalls : s'.installs = s.installs)
    (hqueue : s'.machine.QueueInv) (hwaits : s'.machine.WaitInv)
    (hcontext : s'.machine.context = s.machine.context)
    (hother : ∀ u, (s'.call cpu).pc.root ≠ some u → s'.machine.timer u = s.machine.timer u)
    (hroot : ∀ u, (s'.call cpu).pc.root = some u →
      (s'.machine.timer u).engine = none ∧ (s'.machine.timer u).dpc = (s.machine.timer u).dpc ∧
        ((s.call cpu).pc.root = some u ∨ (s.machine.timer u).engine ≠ none)) (hcall : s'.CallInv cpu)
    : s'.Inv := by
  have hsame : ∀ u, (s'.machine.timer u).engine ≠ none → s'.machine.timer u = s.machine.timer u := by
    intro u hu
    exact hother u (fun hr => hu (hroot u hr).1)
  -- the engines of other processors hold other timers
  have hapart : ∀ cpu' u, cpu' ≠ cpu → (s.call cpu').pc.root = some u →
      (s'.call cpu).pc.root ≠ some u := by
    intro cpu' u hcpu hu hr
    rcases (hroot u hr).2.2 with hold | hne
    . exact hcpu (h.one cpu' cpu u hu hold)
    . exact hne (h.locked cpu' u hu)
  refine ⟨hqueue, hwaits, ?_, ?_, ?_, ?_⟩
  . refine h.own.frame ?_ (fun u dpc _ _ => congrFun hcontext dpc)
    intro u hu
    have hdpc : (s'.machine.timer u).dpc = (s.machine.timer u).dpc := by
      by_cases hr : (s'.call cpu).pc.root = some u
      . exact (hroot u hr).2.1
      . rw [hother u hr]
    refine ⟨?_, hdpc, congrFun hcontexts u⟩
    rcases hu with hu | hu
    . exact .inl (hsame u hu ▸ hu)
    . unfold EngineSys.Free at hu
      push Not at hu
      rcases hu with ⟨cpu', hr⟩
      by_cases hcpu : cpu' = cpu
      . subst hcpu
        rcases (hroot u hr).2.2 with hold | hne
        . exact .inr (fun hfree => hfree cpu' hold)
        . exact .inl hne
      . rw [hcalls cpu' hcpu] at hr
        exact .inr (fun hfree => hfree cpu' hr)
  . intro cpu' u hu
    by_cases hcpu : cpu' = cpu
    . subst hcpu
      exact (hroot u hu).1
    . rw [hcalls cpu' hcpu] at hu
      rw [hother u (hapart cpu' u hcpu hu)]
      exact h.locked cpu' u hu
  . intro cpu1 cpu2 u h1 h2
    by_cases hcpu1 : cpu1 = cpu
    . by_cases hcpu2 : cpu2 = cpu
      . exact hcpu1.trans hcpu2.symm
      . rw [hcalls cpu2 hcpu2] at h2
        exact absurd (hcpu1 ▸ h1) (hapart cpu2 u hcpu2 h2)
    . rw [hcalls cpu1 hcpu1] at h1
      by_cases hcpu2 : cpu2 = cpu
      . exact absurd (hcpu2 ▸ h2) (hapart cpu1 u hcpu1 h1)
      . rw [hcalls cpu2 hcpu2] at h2
        exact h.one cpu1 cpu2 u h1 h2
  . intro cpu'
    by_cases hcpu : cpu' = cpu
    . exact hcpu ▸ hcall
    . refine (h.calls cpu').frame (hcalls cpu' hcpu) ?_ ?_ ?_ ?_
      . intro root hr
        exact ⟨hother root (hapart cpu' root hcpu hr), congrFun hcontexts root, congrFun hinstalls root⟩
      . exact fun u => (congrFun hinstalls u).ge
      . exact fun u hu => .inl (hsame u hu ▸ hu)
      . intro _ u hu
        have hne : (s'.machine.timer u).engine ≠ none := by simp [(hqueue.heap u cpu').mp hu]
        rw [hqueue.heap, hsame u hne, ← h.queue.heap] at hu
        exact .inl ⟨hu, by rw [hsame u hne]⟩

end EngineSys
end Nyy
