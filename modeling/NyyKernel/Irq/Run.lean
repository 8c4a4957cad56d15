import Mathlib.Tactic
import NyyKernel.Lib.Run
import NyyKernel.Irq.Lemmas.Step

namespace Nyy
namespace Irq

variable {δ κ : Type} [DecidableEq δ] {cfg : Config} {s s' : Cpu δ κ} {op : Op δ κ}

omit [DecidableEq δ] in
theorem Inv.init (h : Init s) : Inv s := by
  obtain ⟨hirql, hints, hpending, hdpcq, henqueued, hstack, haccepted, hcalled⟩ := h
  constructor
  . rw [hstack]
    exact ⟨⟨hints, trivial⟩, rfl, hirql⟩
  . exact Or.inl hpending
  . rw [hdpcq]
    exact List.nodup_nil
  . intro dpc
    rw [henqueued, hdpcq]
    simp
  . intro hne
    exact absurd hdpcq hne
  . intro _ _ _ _
    exact ⟨hdpcq, hpending⟩
  . rw [haccepted, hcalled, hstack, hdpcq]
    rfl

theorem Inv.step (h : Inv s) (hstep : Step cfg s op s') : Inv s' := by
  obtain ⟨henabled, hexec⟩ := hstep
  cases op with
  | interrupt number =>
    cases hexec
    obtain ⟨hints, hlow, _, hlt⟩ := henabled
    have hshape := h.shape
    have h2 : 2 ≤ number >>> 4 := by
      rw [Nat.shiftRight_eq_div_pow]
      omega
    apply h.move
    . cases hs : s.stack with
      | nil =>
        rw [hs] at hshape
        exact hshape.elim
      | cons f rest =>
        rw [hs, hints] at hshape
        exact hshape.push ⟨rfl, rfl, hlt, h2⟩ trivial
    . rintro _ ⟨f, hf, hd⟩
      exact ⟨f, List.mem_cons_of_mem _ hf, hd⟩
    . intro f rest heq hf
      cases heq
      exact hf.elim
    . rfl
  | raise level =>
    obtain ⟨saved, rest, hs, hle, _⟩ := henabled
    have hat := h.at_top hs
    rw [exec_raise hs] at hexec
    obtain ⟨s₁, hraise, heq⟩ := Except.bind_eq_ok hexec
    obtain ⟨_, _, hraise⟩ := Except.bind_eq_ok hraise
    cases hraise
    cases heq
    refine h.goto (g := .code (s.irql :: saved)) hs ⟨hat.1, hle, hat.2⟩ rfl rfl rfl nofun rfl ?_
    intro hlt
    change level < 2 at hlt
    apply h.settled _ _ hs
    change s.irql < 2
    omega
  | lower =>
    obtain ⟨old, saved, rest, hs⟩ := henabled
    have hat := h.at_top hs
    rw [exec_lower hs] at hexec
    cases hexec
    exact h.call (u := .lower old .enter) (g := .code saved) hs hat.2.1 trivial ⟨hat.1, hat.2.2⟩ rfl rfl
      rfl nofun rfl rfl nofun
  | enqueue dpc context1 context2 =>
    obtain ⟨saved, rest, hs, hirql⟩ := henabled
    rw [exec_enqueue hs] at hexec
    cases hexec
    exact h.dpcEnqueue hs hirql dpc context1 context2
  | ret =>
    obtain ⟨f, rest, hs⟩ := henabled
    have hat := h.at_top hs
    rw [exec_ret hs] at hexec
    cases hexec
    refine h.ret hs (by simp) s.irql s.ints ?_ (fun _ => rfl) rfl ?_
    . rw [hat.1]
      rfl
    . intro b habove hbat hb
      cases b with
      | irq number old pc =>
        cases pc with
        | cli => exact hb.elim
        | _ => exact habove.elim
      | runQueue => exact hb.elim
      | _ => exact habove.elim
  | advance =>
    obtain ⟨f, rest, hs, hf⟩ := henabled
    cases f with
    | code saved => cases hf
    | irq number old pc =>
      rw [exec_irq hs] at hexec
      exact h.irqStep hs hexec
    | lower level pc =>
      rw [exec_lowerStep hs] at hexec
      exact h.lowerStep hs hexec
    | dispatch newirql old pc =>
      rw [exec_dispatch hs] at hexec
      cases hexec
      exact h.dispatchStep hs
    | runQueue =>
      rw [exec_runQueue hs] at hexec
      cases hexec
      exact h.runQueueStep hs
    | runCall dpc context1 context2 =>
      rw [exec_runCall hs] at hexec
      cases hexec
      exact h.runCallStep hs

theorem inv_of_reach (h : Reach Init (Step cfg) s) : Inv s :=
  h.invariant (fun _ => Inv.init) (fun _ _ _ hinv hstep => hinv.step hstep)

omit [DecidableEq δ] in
theorem Inv.called_of_settled {f : Frame δ κ} {rest : List (Frame δ κ)} (h : Inv s)
    (hs : s.stack = f :: rest) (hf : f.Settled s.irql) (htaken : f.taken = [])
    (hlt : (f.resume s.irql s.ints).1 < 2)
    : s.called = s.accepted := by
  have hshape := h.shape
  rw [hs] at hshape
  have hrest := inflight_of_not_drains (hshape.not_drains_of_resume hlt)
  have hstack : inflight s.stack = [] := by
    rw [hs]
    change f.taken ++ inflight rest = []
    rw [htaken, hrest]
    rfl
  rw [h.history, hstack, (h.settled _ _ hs hf).1]
  simp

theorem exec_ok (h : Inv s) (henabled : Enabled s op) : ∃ s', exec cfg s op = .ok s' := by
  cases op with
  | interrupt number => exact ⟨_, rfl⟩
  | raise level =>
    obtain ⟨saved, rest, hs, hle, _⟩ := henabled
    rw [exec_raise hs]
    simp only [irqlRaise, check_of cfg (decide_eq_true hle), Except.ok_bind]
    exact ⟨_, rfl⟩
  | lower =>
    obtain ⟨old, saved, rest, hs⟩ := henabled
    exact ⟨_, exec_lower hs⟩
  | enqueue dpc context1 context2 =>
    obtain ⟨saved, rest, hs, _⟩ := henabled
    exact ⟨_, exec_enqueue hs⟩
  | ret =>
    obtain ⟨f, rest, hs⟩ := henabled
    exact ⟨_, exec_ret hs⟩
  | advance =>
    obtain ⟨f, rest, hs, hf⟩ := henabled
    have hat := h.at_top hs
    cases f with
    | code saved => cases hf
    | irq number old pc =>
      rw [exec_irq hs]
      cases pc with
      | raise =>
        obtain ⟨hirql, _, hlt, _⟩ := hat
        have hle : s.irql ≤ number >>> 4 := by omega
        simp only [irqStep, irqlRaise, check_of cfg (decide_eq_true hle), Except.ok_bind]
        exact ⟨_, rfl⟩
      | _ => exact ⟨_, rfl⟩
    | lower level pc =>
      rw [exec_lowerStep hs]
      cases pc with
      | enter =>
        have hle : level ≤ s.irql := hat
        simp only [lowerStep, check_of cfg (decide_eq_true hle), Except.ok_bind]
        exact ⟨_, rfl⟩
      | test =>
        simp only [lowerStep]
        split
        . exact ⟨_, rfl⟩
        . exact ⟨_, rfl⟩
      | _ => exact ⟨_, rfl⟩
    | dispatch newirql old pc => exact ⟨_, exec_dispatch hs⟩
    | runQueue => exact ⟨_, exec_runQueue hs⟩
    | runCall dpc context1 context2 => exact ⟨_, exec_runCall hs⟩

end Irq
end Nyy
