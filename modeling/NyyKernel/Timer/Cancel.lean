import NyyKernel.Timer.Queue

namespace Nyy

structure CancelSys (τ θ : Type) where
  machine : Machine τ θ
  call : Nat → Option (τ × Option Nat)
  entered : τ → Nat
  left : τ → Nat

inductive CancelOp (τ : Type) where
  | read (call : Nat) (tp : τ)
  | uninstall (call cpu : Nat)
  | pop (cpu now : Nat) (root : Option τ)
  | install (cpu : Nat) (tp : τ) (context1 context2 : Nat)

namespace CancelSys

variable {τ θ : Type}

def Enabled (s : CancelSys τ θ) : CancelOp τ → Prop
  | .read call _ => s.call call = none
  | .uninstall call _ => s.call call ≠ none
  | .pop cpu _ root => s.machine.Peek cpu root
  | .install _ _ _ _ => True

def Current (s : CancelSys τ θ) : CancelOp τ → Prop
  | .uninstall call _ => ∀ tp ep, s.call call = some (tp, ep) → (s.machine.timer tp).engine = ep
  | _ => True

def Init (s : CancelSys τ θ) : Prop :=
  (∀ ep, s.machine.heap ep = []) ∧ (∀ call, s.call call = none) ∧
    ∀ tp, (s.machine.timer tp).engine = none ∧ (s.machine.timer tp).timerState = .unused ∧
      s.entered tp = 0 ∧ s.left tp = 0

variable [DecidableEq τ]

def count (f : τ → Nat) (tp : τ) (once : Bool) : τ → Nat :=
  if once then Function.update f tp (f tp + 1) else f

def step (cfg : Config) (s : CancelSys τ θ) : CancelOp τ → Except Fault (CancelSys τ θ)
  | .read call tp => return { s with
      call := Function.update s.call call (some (tp, (s.machine.timer tp).engine)) }
  | .uninstall call cpu =>
    match s.call call with
    | none => return s
    | some (tp, ep) => do
      let m ← Machine.timerUninstallSection cpu s.machine tp ep
      return { s with
        machine := m
        call := Function.update s.call call none
        left := count s.left tp ep.isSome }
  | .pop cpu now root => do
    let (fired, m) ← Machine.timeEngineProgressPop cpu s.machine now root
    return { s with
      machine := m
      left := match fired with
        | some tp => count s.left tp true
        | none => s.left }
  | .install cpu tp context1 context2 => do
    let m ← Machine.timerInstall cfg cpu s.machine tp context1 context2
    return { s with
      machine := m
      entered := count s.entered tp (s.machine.timer tp).engine.isNone }

def Step (cfg : Config) (s : CancelSys τ θ) (op : CancelOp τ) (s' : CancelSys τ θ) : Prop :=
  s.Enabled op ∧ s.step cfg op = .ok s'

structure Inv (s : CancelSys τ θ) : Prop where
  queue : s.machine.QueueInv
  balance : ∀ tp, s.entered tp =
    s.left tp + if (s.machine.timer tp).engine.isSome then 1 else 0

variable {cfg : Config} {s s' : CancelSys τ θ} {tp : τ}

omit [DecidableEq τ] in
theorem Inv.init (h : Init s) : Inv s := by
  refine ⟨⟨?_, ?_, ?_⟩, ?_⟩
  . intro ep
    simp [h.1 ep]
  . intro tp ep
    simp [h.1 ep, (h.2.2 tp).1]
  . intro tp
    simp [h.2.2 tp]
  . intro tp
    simp [h.2.2 tp]

theorem count_of_ne (f : τ → Nat) {u : τ} (once : Bool) (h : u ≠ tp) : count f tp once u = f u := by
  unfold count
  split
  . rw [Function.update_of_ne h]
  . rfl

theorem count_self (f : τ → Nat) (tp : τ) (once : Bool)
    : count f tp once tp = f tp + if once then 1 else 0 := by
  unfold count
  split
  . rw [Function.update_self]
  . rfl

theorem Inv.change {entered left : τ → Nat} {m' : Machine τ θ} (h : Inv s) (hqueue : m'.QueueInv)
    (htouches : Machine.Touches s.machine m' tp)
    (hother : ∀ u, u ≠ tp → entered u = s.entered u ∧ left u = s.left u)
    (hself : entered tp = left tp + if (m'.timer tp).engine.isSome then 1 else 0)
    (call : Nat → Option (τ × Option Nat))
    : Inv ⟨m', call, entered, left⟩ := by
  refine ⟨hqueue, ?_⟩
  intro u
  by_cases hu : u = tp
  . subst hu
    exact hself
  . dsimp only
    rw [(hother u hu).1, (hother u hu).2, htouches.other u hu]
    exact h.balance u

theorem Inv.step {op : CancelOp τ} (h : Inv s) (hstep : Guarded Current (Step cfg) s op s')
    : Inv s' := by
  rcases hstep with ⟨hcurrent, henabled, he⟩
  unfold CancelSys.step at he
  cases op with
  | read call tp =>
    cases he
    exact ⟨h.queue, h.balance⟩
  | uninstall call cpu =>
    dsimp only at he
    split at he
    . cases he
      exact h
    . next tp ep hcall =>
      have hep := hcurrent tp ep hcall
      have hbalance := h.balance tp
      rcases h.queue.timerUninstall cpu tp with ⟨m', heq, h', htouches, hnone, _⟩
      unfold Machine.timerUninstall at heq
      rw [hep] at heq hbalance
      rw [heq] at he
      cases he
      refine h.change h' htouches (fun u hu => ⟨rfl, count_of_ne _ _ hu⟩) ?_ _
      rw [count_self, hnone, hbalance]
      rfl
  | pop cpu now root =>
    rcases h.queue.timeEngineProgressPop cpu now henabled with ⟨fired, m', heq, h', hfired⟩
    dsimp only at he
    rw [heq] at he
    cases he
    cases fired with
    | none =>
      refine ⟨h', ?_⟩
      intro u
      dsimp only
      rw [show m'.timer = s.machine.timer from hfired]
      exact h.balance u
    | some tp =>
      have hbalance := h.balance tp
      rcases hfired with ⟨htouches, hep, hnone⟩
      refine h.change h' htouches (fun u hu => ⟨rfl, count_of_ne _ _ hu⟩) ?_ _
      rw [hep] at hbalance
      rw [count_self, hnone, hbalance]
      rfl
  | install cpu tp context1 context2 =>
    dsimp only at he
    rcases h.queue.timerInstall cfg cpu tp context1 context2 with heq | ⟨m', heq, h', htouches, hsome⟩
    . rw [heq] at he
      cases he
    . have hbalance := h.balance tp
      rw [heq] at he
      cases he
      refine h.change h' htouches (fun u hu => ⟨count_of_ne _ _ hu, rfl⟩) ?_ _
      rw [count_self, hsome, hbalance]
      cases (s.machine.timer tp).engine <;> rfl

theorem cancel_safe {s : CancelSys τ θ} (hr : Reach Init (Guarded Current (Step cfg)) s)
    : (∀ op, s.Enabled op → s.Current op → s.step cfg op ≠ .error .undefined) ∧
      (∀ call cpu tp ep, s.Current (.uninstall call cpu) → s.call call = some (tp, some ep) →
        tp ∈ s.machine.heap ep ∧ (s.machine.timer tp).timerState = .queued) ∧
      ∀ tp, s.entered tp = s.left tp + (if (s.machine.timer tp).engine.isSome then 1 else 0) ∧
        ∀ ep, (s.machine.heap ep).count tp =
          if (s.machine.timer tp).engine = some ep then 1 else 0 := by
  have h : Inv s := hr.invariant (fun s hs => Inv.init hs) (fun s op s' h hstep => h.step hstep)
  refine ⟨?_, ?_, fun tp => ⟨h.balance tp, h.queue.count tp⟩⟩
  . intro op henabled hcurrent he
    unfold CancelSys.step at he
    cases op with
    | read call tp => cases he
    | uninstall call cpu =>
      dsimp only at he
      split at he
      . cases he
      . next tp ep hcall =>
        rcases h.queue.timerUninstall cpu tp with ⟨m', heq, _⟩
        unfold Machine.timerUninstall at heq
        rw [hcurrent tp ep hcall] at heq
        rw [heq] at he
        cases he
    | pop cpu now root =>
      rcases h.queue.timeEngineProgressPop cpu now henabled with ⟨fired, m', heq, _⟩
      dsimp only at he
      rw [heq] at he
      cases he
    | install cpu tp context1 context2 =>
      dsimp only at he
      rcases h.queue.timerInstall cfg cpu tp context1 context2 with heq | ⟨m', heq, _⟩
      . rw [heq] at he
        cases he
      . rw [heq] at he
        cases he
  . intro call cpu tp ep hcurrent hcall
    have hep := hcurrent tp (some ep) hcall
    exact ⟨(h.queue.heap tp ep).mpr hep, (h.queue.state tp).mpr (by simp [hep])⟩

def noCalls : CancelSys Nat Nat := ⟨TimerSys.unusedTimers.machine, fun _ => none, fun _ => 0, fun _ => 0⟩

theorem noCalls_init : Init noCalls := by
  exact ⟨fun _ => rfl, fun _ => rfl, fun _ => ⟨rfl, rfl, rfl, rfl⟩⟩

theorem cancel_safe_read
    : ∃ s : CancelSys Nat Nat, Reach Init (Guarded Current (Step ⟨false⟩)) s ∧
        s.call 0 = some (7, some 1) ∧ 7 ∈ s.machine.heap 1 := by
  have h0 : Reach Init (Guarded Current (Step ⟨false⟩)) noCalls := .start noCalls_init
  have h1 := h0.next (e := CancelOp.install 1 7 0 0) ⟨trivial, trivial, rfl⟩
  have h2 := h1.next (e := CancelOp.read 0 7) ⟨trivial, rfl, rfl⟩
  refine ⟨_, h2, rfl, ((cancel_safe h2).2.1 0 0 7 1 ?_ rfl).1⟩
  intro tp ep hcall
  cases hcall
  rfl

theorem fired_timer_uninstalled
    : ∃ s : CancelSys Nat Nat, Reach Init (Step ⟨false⟩) s ∧ s.call 0 = some (7, some 1) ∧
        (s.machine.timer 7).timerState = .fired ∧ 7 ∉ s.machine.heap 1 ∧
        s.step ⟨false⟩ (.uninstall 0 0) = .error .undefined := by
  have h0 : Reach Init (Step ⟨false⟩) noCalls := .start noCalls_init
  have h1 := h0.next (e := CancelOp.install 1 7 0 0) ⟨trivial, rfl⟩
  have h2 := h1.next (e := CancelOp.read 0 7) ⟨rfl, rfl⟩
  have h3 := h2.next (e := CancelOp.pop 1 0 (some 7)) ⟨⟨by decide, by decide⟩, rfl⟩
  exact ⟨_, h3, rfl, rfl, by decide, rfl⟩

end CancelSys
end Nyy
