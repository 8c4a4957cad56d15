import Mathlib.Tactic
import Mathlib.Logic.Relation
import NyyKernel.Irq.Run

namespace Nyy
namespace Irq

variable {δ κ : Type} [DecidableEq δ] {cfg : Config} {s s' : Cpu δ κ} {rest stack : List (Frame δ κ)}
  {f : Frame δ κ} {level number old : Nat} {pc : LowerPc}

def Quiet (cfg : Config) (s s' : Cpu δ κ) : Prop :=
  ∃ op, nextOp s = some op ∧ exec cfg s op = .ok s'

omit [DecidableEq δ] in
theorem enabled_of_nextOp {op : Op δ κ} (h : nextOp s = some op) : Enabled s op := by
  unfold nextOp at h
  split at h
  . cases h
  . cases h
  . next hs =>
    cases h
    exact ⟨_, _, hs⟩
  . next hs =>
    cases h
    exact ⟨_, _, _, hs⟩
  . next h1 h2 h3 h4 =>
    cases h
    cases hs : s.stack with
    | nil => exact absurd hs h1
    | cons f rest =>
      refine ⟨f, rest, hs, ?_⟩
      cases f with
      | code saved =>
        cases saved with
        | nil =>
          cases rest with
          | nil => exact absurd hs h2
          | cons g rest => exact absurd hs (h3 g rest)
        | cons old saved => exact absurd hs (h4 old saved rest)
      | _ => rfl

theorem Inv.quiet (h : Inv s) (hq : Quiet cfg s s') : Inv s' := by
  obtain ⟨op, hop, hexec⟩ := hq
  exact h.step ⟨enabled_of_nextOp hop, hexec⟩

theorem accepted_of_quiet (hq : Quiet cfg s s') : s'.accepted = s.accepted := by
  obtain ⟨op, hop, hexec⟩ := hq
  have henabled := enabled_of_nextOp hop
  cases op with
  | interrupt number =>
    unfold nextOp at hop
    split at hop <;> cases hop
  | raise level =>
    unfold nextOp at hop
    split at hop <;> cases hop
  | enqueue dpc context1 context2 =>
    unfold nextOp at hop
    split at hop <;> cases hop
  | lower =>
    obtain ⟨old, saved, rest, hs⟩ := henabled
    rw [exec_lower hs] at hexec
    cases hexec
    rfl
  | ret =>
    obtain ⟨f, rest, hs⟩ := henabled
    rw [exec_ret hs] at hexec
    cases hexec
    rfl
  | advance =>
    obtain ⟨f, rest, hs, hf⟩ := henabled
    cases f with
    | code saved => cases hf
    | irq number old pc =>
      rw [exec_irq hs] at hexec
      cases pc with
      | raise =>
        obtain ⟨s₁, hraise, heq⟩ := Except.bind_eq_ok hexec
        obtain ⟨_, _, hraise⟩ := Except.bind_eq_ok hraise
        cases hraise
        cases heq
        rfl
      | _ =>
        cases hexec
        rfl
    | lower level pc =>
      rw [exec_lowerStep hs] at hexec
      cases pc with
      | enter =>
        obtain ⟨_, _, heq⟩ := Except.bind_eq_ok hexec
        cases heq
        rfl
      | test =>
        simp only [lowerStep] at hexec
        split at hexec <;> cases hexec <;> rfl
      | _ =>
        cases hexec
        rfl
    | dispatch newirql old pc =>
      rw [exec_dispatch hs] at hexec
      cases hexec
      cases pc with
      | test =>
        simp only [dispatchStep]
        split
        . rfl
        . split <;> rfl
      | _ => rfl
    | runQueue =>
      rw [exec_runQueue hs] at hexec
      cases hexec
      unfold runQueueStep
      split <;> rfl
    | runCall dpc context1 context2 =>
      rw [exec_runCall hs] at hexec
      cases hexec
      rfl

def Returns (cfg : Config) (s : Cpu δ κ) (stack : List (Frame δ κ)) : Prop :=
  ∃ s', Relation.ReflTransGen (Quiet cfg) s s' ∧ Inv s' ∧ s'.stack = stack

def Pops (cfg : Config) (f : Frame δ κ) (rest : List (Frame δ κ)) : Prop :=
  ∀ s, Inv s → s.stack = f :: rest → Returns cfg s rest

theorem Returns.head (h : Inv s) (hq : Quiet cfg s s') (hr : Inv s' → Returns cfg s' stack)
    : Returns cfg s stack := by
  obtain ⟨s₁, hrun, hinv, hs⟩ := hr (h.quiet hq)
  exact ⟨s₁, Relation.ReflTransGen.head hq hrun, hinv, hs⟩

theorem Returns.trans {stack' : List (Frame δ κ)} (hr : Returns cfg s stack)
    (hr' : ∀ s', Inv s' → s'.stack = stack → Returns cfg s' stack')
    : Returns cfg s stack' := by
  obtain ⟨s₁, hrun, hinv, hs⟩ := hr
  obtain ⟨s₂, hrun', hinv', hs'⟩ := hr' s₁ hinv hs
  exact ⟨s₂, hrun.trans hrun', hinv', hs'⟩

theorem quiet_advance (hs : s.stack = f :: rest) (hf : f.isCode = false)
    (hexec : exec cfg s .advance = .ok s')
    : Quiet cfg s s' := by
  refine ⟨.advance, ?_, hexec⟩
  cases f with
  | code saved => cases hf
  | _ => simp [nextOp, hs]

theorem returns_ret (h : Inv s) (hs : s.stack = .code [] :: f :: rest)
    : Returns cfg s (f :: rest) := by
  have hquiet : Quiet cfg s { s with stack := f :: rest } := by
    refine ⟨.ret, ?_, ?_⟩
    . simp [nextOp, hs]
    . exact exec_ret hs
  exact ⟨_, Relation.ReflTransGen.single hquiet, h.quiet hquiet, rfl⟩

theorem returns_runQueue (cfg : Config) (h : Inv s) (hs : s.stack = .runQueue :: rest)
    : ∃ s', Relation.ReflTransGen (Quiet cfg) s s' ∧ Inv s' ∧ s'.stack = rest
        ∧ s'.softintPending = s.softintPending := by
  induction hn : s.dpcq.length generalizing s with
  | zero =>
    have hq : s.dpcq = [] := List.length_eq_zero_iff.mp hn
    have hquiet : Quiet cfg s { s with stack := rest } := by
      apply quiet_advance hs rfl
      rw [exec_runQueue hs, runQueueStep, hq]
    exact ⟨_, Relation.ReflTransGen.single hquiet, h.quiet hquiet, rfl, rfl⟩
  | succ n ih =>
    obtain ⟨dpc, dpcq, hq⟩ := List.exists_cons_of_length_eq_add_one hn
    have htake : Quiet cfg s (runQueueStep s rest) :=
      quiet_advance hs rfl (exec_runQueue hs)
    have hstack : (runQueueStep s rest).stack
        = .runCall dpc (s.context1 dpc) (s.context2 dpc) :: rest := by
      simp [runQueueStep, hq]
    have hcall : Quiet cfg (runQueueStep s rest)
        (runCallStep (runQueueStep s rest) rest dpc (s.context1 dpc) (s.context2 dpc)) :=
      quiet_advance hstack rfl (exec_runCall hstack)
    have hret : Quiet cfg
        (runCallStep (runQueueStep s rest) rest dpc (s.context1 dpc) (s.context2 dpc))
        { runCallStep (runQueueStep s rest) rest dpc (s.context1 dpc) (s.context2 dpc) with
          stack := .runQueue :: rest } :=
      ⟨.ret, rfl, rfl⟩
    have hinv := ((h.quiet htake).quiet hcall).quiet hret
    obtain ⟨s₁, hrun, hinv₁, hs₁, hp₁⟩ := ih hinv rfl (by
      simp [runCallStep, runQueueStep, hq] at hn ⊢
      exact hn)
    refine ⟨s₁, ?_, hinv₁, hs₁, ?_⟩
    . exact ((hrun.head hret).head hcall).head htake
    . rw [hp₁]
      simp [runCallStep, runQueueStep, hq]

theorem quiet_dispatch {newirql : Nat} {old : Bool} {pc : DispatchPc}
    (hs : s.stack = .dispatch newirql old pc :: rest)
    : Quiet cfg s (dispatchStep s rest newirql old pc) :=
  quiet_advance hs rfl (exec_dispatch hs)

theorem quiet_lower (hs : s.stack = .lower level pc :: rest)
    (hexec : lowerStep cfg s rest level pc = .ok s')
    : Quiet cfg s s' :=
  quiet_advance hs rfl ((exec_lowerStep hs).trans hexec)

theorem quiet_irq {pc : IrqPc} (hs : s.stack = .irq number old pc :: rest)
    (hexec : irqStep cfg s rest number old pc = .ok s')
    : Quiet cfg s s' :=
  quiet_advance hs rfl ((exec_irq hs).trans hexec)

section

variable {newirql : Nat} {old : Bool} (announced : BitVec 64 → Prop)
  (htest : ∀ s : Cpu δ κ, Inv s → s.stack = .dispatch newirql old .test :: rest
    → announced s.softintPending → Returns cfg s rest)

include htest

theorem returns_disable (h : Inv s) (hs : s.stack = .dispatch newirql old .disable :: rest)
    (hp : announced s.softintPending)
    : Returns cfg s rest := by
  apply Returns.head h (quiet_dispatch hs)
  intro hinv
  exact htest _ hinv rfl hp

theorem returns_run (h : Inv s) (hs : s.stack = .dispatch newirql old .run :: rest)
    (hp : announced s.softintPending)
    : Returns cfg s rest := by
  apply Returns.head h (quiet_dispatch hs)
  intro hinv
  obtain ⟨s₁, hrun, hinv₁, hs₁, hp₁⟩ := returns_runQueue cfg hinv rfl
  obtain ⟨s₂, hrun₂, hinv₂, hs₂⟩ := returns_disable announced htest hinv₁ hs₁ (by rw [hp₁]; exact hp)
  exact ⟨s₂, hrun.trans hrun₂, hinv₂, hs₂⟩

theorem returns_enable (h : Inv s) (hs : s.stack = .dispatch newirql old .enable :: rest)
    (hp : announced s.softintPending)
    : Returns cfg s rest := by
  apply Returns.head h (quiet_dispatch hs)
  intro hinv
  exact returns_run announced htest hinv rfl hp

theorem returns_raise (h : Inv s) (hs : s.stack = .dispatch newirql old .raise :: rest)
    (hp : announced s.softintPending)
    : Returns cfg s rest := by
  apply Returns.head h (quiet_dispatch hs)
  intro hinv
  exact returns_enable announced htest hinv rfl hp

end

section

variable {newirql : Nat} {old : Bool}

theorem returns_restore (h : Inv s) (hs : s.stack = .dispatch newirql old .restore :: rest)
    : Returns cfg s rest := by
  apply Returns.head h (quiet_dispatch hs)
  intro hinv
  exact ⟨_, Relation.ReflTransGen.refl, hinv, rfl⟩

theorem returns_set (h : Inv s) (hs : s.stack = .dispatch newirql old .set :: rest)
    : Returns cfg s rest := by
  apply Returns.head h (quiet_dispatch hs)
  intro hinv
  exact returns_restore hinv rfl

theorem returns_test_clear (h : Inv s) (hs : s.stack = .dispatch newirql old .test :: rest)
    (hp : s.softintPending = 0)
    : Returns cfg s rest := by
  apply Returns.head h (quiet_dispatch hs)
  intro hinv
  have hs' : (dispatchStep s rest newirql old .test).stack
      = .dispatch newirql old .set :: rest := by
    simp [dispatchStep, hp]
  exact returns_set hinv hs'

theorem returns_ack (h : Inv s) (hs : s.stack = .dispatch newirql old .ack :: rest)
    : Returns cfg s rest := by
  apply Returns.head h (quiet_dispatch hs)
  intro hinv
  apply returns_raise (· = 0) (fun _ => returns_test_clear) hinv rfl
  change s.softintPending &&& ~~~(pendingBit irqlDispatch) = 0
  cases h.pending with
  | inl h0 =>
    rw [h0]
    decide
  | inr h2 =>
    rw [h2]
    decide

theorem returns_test (h : Inv s) (hs : s.stack = .dispatch newirql old .test :: rest)
    : Returns cfg s rest := by
  cases h.pending with
  | inl h0 => exact returns_test_clear h hs h0
  | inr h2 =>
    have hlt := (h.at_top hs).1
    have hmask : s.softintPending &&& (0xff <<< newirql) ≠ 0 := by
      rw [h2]
      interval_cases newirql
      . decide
      . decide
    have hbit : s.softintPending &&& pendingBit irqlDispatch ≠ 0 := by
      rw [h2]
      decide
    apply Returns.head h (quiet_dispatch hs)
    intro hinv
    have hs' : (dispatchStep s rest newirql old .test).stack
        = .dispatch newirql old .ack :: rest := by
      simp only [dispatchStep, if_neg hmask, if_pos hbit]
    exact returns_ack hinv hs'

theorem returns_dispatch {pc : DispatchPc} (h : Inv s) (hs : s.stack = .dispatch newirql old pc :: rest)
    : Returns cfg s rest := by
  cases pc with
  | cli =>
    apply Returns.head h (quiet_dispatch hs)
    intro hinv
    exact returns_test hinv rfl
  | test => exact returns_test h hs
  | ack => exact returns_ack h hs
  | raise => exact returns_raise (fun _ => True) (fun _ h hs _ => returns_test h hs) h hs trivial
  | enable => exact returns_enable (fun _ => True) (fun _ h hs _ => returns_test h hs) h hs trivial
  | run => exact returns_run (fun _ => True) (fun _ h hs _ => returns_test h hs) h hs trivial
  | disable => exact returns_disable (fun _ => True) (fun _ h hs _ => returns_test h hs) h hs trivial
  | set => exact returns_set h hs
  | restore => exact returns_restore h hs

end

theorem returns_lower (h : Inv s) (hs : s.stack = .lower level pc :: rest)
    : Returns cfg s rest := by
  have hret : Pops cfg (.lower level .ret) rest := by
    intro s h hs
    apply Returns.head h (quiet_lower hs rfl)
    intro hinv
    exact ⟨_, Relation.ReflTransGen.refl, hinv, rfl⟩
  have htest : Pops cfg (.lower level .test) rest := by
    intro s h hs
    by_cases hp : s.softintPending >>> level ≠ 0
    . apply Returns.head h (quiet_lower hs (by simp only [lowerStep]; rw [if_pos hp]))
      intro hinv
      apply (returns_dispatch hinv rfl).trans
      exact hret
    . apply Returns.head h (quiet_lower hs (by simp only [lowerStep]; rw [if_neg hp]))
      intro hinv
      exact hret _ hinv rfl
  have hset : Pops cfg (.lower level .set) rest := by
    intro s h hs
    apply Returns.head h (quiet_lower hs rfl)
    intro hinv
    exact htest _ hinv rfl
  cases pc with
  | enter =>
    have hle : level ≤ s.irql := h.at_top hs
    apply Returns.head h (quiet_lower hs (by
      simp only [lowerStep, check_of cfg (decide_eq_true hle), Except.ok_bind]
      rfl))
    intro hinv
    exact hset _ hinv rfl
  | set => exact hset s h hs
  | test => exact htest s h hs
  | ret => exact hret s h hs

theorem returns_lowered {saved : List Nat} (h : Inv s) (hs : s.stack = .code saved :: rest)
    : Returns cfg s (.code [] :: rest) := by
  induction saved generalizing s with
  | nil => exact ⟨s, Relation.ReflTransGen.refl, h, hs⟩
  | cons old saved ih =>
    have hquiet : Quiet cfg s { s with stack := .lower old .enter :: .code saved :: rest } := by
      refine ⟨.lower, ?_, ?_⟩
      . simp [nextOp, hs]
      . exact exec_lower hs
    apply Returns.head h hquiet
    intro hinv
    apply (returns_lower hinv rfl).trans
    intro s' hinv' hs'
    exact ih hinv' hs'

theorem returns_irq {pc : IrqPc} (h : Inv s) (hs : s.stack = .irq number old pc :: rest)
    : Returns cfg s rest := by
  have hiret : Pops cfg (.irq number old .iret) rest := by
    intro s h hs
    apply Returns.head h (quiet_irq hs rfl)
    intro hinv
    exact ⟨_, Relation.ReflTransGen.refl, hinv, rfl⟩
  have hlower : Pops cfg (.irq number old .lower) rest := by
    intro s h hs
    apply Returns.head h (quiet_irq hs rfl)
    intro hinv
    apply (returns_lower hinv rfl).trans
    exact hiret
  have hcli : Pops cfg (.irq number old .cli) rest := by
    intro s h hs
    apply Returns.head h (quiet_irq hs rfl)
    intro hinv
    exact hlower _ hinv rfl
  have hcall : Pops cfg (.irq number old .call) rest := by
    intro s h hs
    apply Returns.head h (quiet_irq hs rfl)
    intro hinv
    apply (returns_ret hinv rfl).trans
    exact hcli
  have hsti : Pops cfg (.irq number old .sti) rest := by
    intro s h hs
    apply Returns.head h (quiet_irq hs rfl)
    intro hinv
    exact hcall _ hinv rfl
  cases pc with
  | raise =>
    obtain ⟨hirql, _, hlt, _⟩ := h.at_top hs
    have hle : s.irql ≤ number >>> 4 := by omega
    apply Returns.head h (quiet_irq hs (by
      simp only [irqStep, irqlRaise, check_of cfg (decide_eq_true hle), Except.ok_bind]
      rfl))
    intro hinv
    exact hsti _ hinv (by rw [hirql])
  | sti => exact hsti s h hs
  | call => exact hcall s h hs
  | cli => exact hcli s h hs
  | lower => exact hlower s h hs
  | iret => exact hiret s h hs

theorem returns_frame {g : Frame δ κ} (h : Inv s) (hs : s.stack = f :: g :: rest)
    : Returns cfg s (g :: rest) := by
  cases f with
  | code saved =>
    apply (returns_lowered h hs).trans
    intro s' hinv hs'
    exact returns_ret hinv hs'
  | irq number old pc => exact returns_irq h hs
  | lower level pc => exact returns_lower h hs
  | dispatch newirql old pc => exact returns_dispatch h hs
  | runQueue =>
    obtain ⟨s', hrun, hinv, hs', _⟩ := returns_runQueue cfg h hs
    exact ⟨s', hrun, hinv, hs'⟩
  | runCall dpc context1 context2 =>
    have hcall : Quiet cfg s (runCallStep s (g :: rest) dpc context1 context2) :=
      quiet_advance hs rfl (exec_runCall hs)
    apply Returns.head h hcall
    intro hinv
    apply (returns_ret hinv rfl).trans
    intro s' hinv' hs'
    obtain ⟨s₁, hrun, hinv₁, hs₁, _⟩ := returns_runQueue cfg hinv' hs'
    exact ⟨s₁, hrun, hinv₁, hs₁⟩

theorem returns_idle (cfg : Config) (h : Inv s) : Returns cfg s [.code []] := by
  induction hstack : s.stack generalizing s with
  | nil =>
    have hshape := h.shape
    rw [hstack] at hshape
    exact hshape.elim
  | cons f rest ih =>
    cases rest with
    | nil =>
      have hshape := h.shape
      rw [hstack] at hshape
      have hcode := hshape.2.1
      cases f with
      | code saved => exact returns_lowered h hstack
      | _ => cases hcode
    | cons g rest =>
      apply (returns_frame h hstack).trans
      intro s' hinv hs'
      exact ih hinv hs'

theorem settle_of_quiet (h : Relation.ReflTransGen (Quiet cfg) s s')
    : ∃ n, settle cfg n s = .ok s' := by
  induction h using Relation.ReflTransGen.head_induction_on with
  | refl => exact ⟨0, rfl⟩
  | head hq _ ih =>
    obtain ⟨op, hop, hexec⟩ := hq
    obtain ⟨n, hn⟩ := ih
    refine ⟨n + 1, ?_⟩
    unfold settle
    rw [hop]
    dsimp only
    rw [hexec]
    exact hn

theorem accepted_of_run (h : Relation.ReflTransGen (Quiet cfg) s s')
    : s'.accepted = s.accepted := by
  induction h with
  | refl => rfl
  | tail _ hq ih => rw [accepted_of_quiet hq, ih]

theorem settles (h : Inv s)
    : ∃ n s', settle cfg n s = .ok s' ∧ nextOp s' = none ∧ s'.accepted = s.accepted
        ∧ s'.called = s.accepted := by
  obtain ⟨s', hrun, hinv, hs'⟩ := returns_idle cfg h
  obtain ⟨n, hn⟩ := settle_of_quiet hrun
  have hlt : s'.irql < 2 := by
    have hshape := hinv.shape
    rw [hs'] at hshape
    exact hshape.2.2
  refine ⟨n, s', hn, ?_, accepted_of_run hrun, ?_⟩
  . simp [nextOp, hs']
  . rw [← accepted_of_run hrun]
    exact hinv.called_of_settled hs' hlt rfl hlt

/--
In every run accepted DPCs are called once and in order, the queue is empty whenever `irql_lower`
returns below their level, and a CPU that is left alone comes to rest.
-/
theorem dpc_called_once (h : Reach Init (Step cfg) s)
    : (∃ taken, taken.length ≤ 1
        ∧ s.accepted = s.called ++ taken
          ++ s.dpcq.map (fun dpc => (dpc, s.context1 dpc, s.context2 dpc)))
      ∧ (∀ level rest, s.stack = .lower level .ret :: rest → level < irqlDispatch
        → s.dpcq = [] ∧ s.softintPending &&& pendingBit irqlDispatch = 0
          ∧ s.called = s.accepted)
      ∧ (∀ op, Enabled s op → ∃ s', exec cfg s op = .ok s')
      ∧ (∃ n s', settle cfg n s = .ok s' ∧ nextOp s' = none ∧ s'.accepted = s.accepted
        ∧ s'.called = s.accepted) := by
  have hinv := inv_of_reach h
  refine ⟨⟨inflight s.stack, ?_, hinv.history⟩, ?_, fun op => exec_ok hinv, settles hinv⟩
  . exact hinv.shape.inflight_length
  . intro level rest hs hlevel
    obtain ⟨hq, hp⟩ := hinv.settled _ _ hs hlevel
    refine ⟨hq, ?_, hinv.called_of_settled hs hlevel rfl hlevel⟩
    rw [hp]
    decide

def sampleCpu : Cpu Nat Nat where
  irql := 0
  ints := true
  softintPending := 0
  dpcq := []
  enqueued := fun _ => false
  context1 := fun _ => 0
  context2 := fun _ => 0
  stack := [.code []]
  accepted := []
  called := []

theorem reach_settle {init : Cpu δ κ → Prop} {n : Nat} (h : Reach init (Step cfg) s)
    (hsettle : settle cfg n s = .ok s')
    : Reach init (Step cfg) s' := by
  induction n generalizing s with
  | zero =>
    cases hsettle
    exact h
  | succ n ih =>
    unfold settle at hsettle
    split at hsettle
    . cases hsettle
      exact h
    . next op hop =>
      obtain ⟨s₁, hexec, hsettle⟩ := Except.bind_eq_ok hsettle
      exact ih (h.next ⟨enabled_of_nextOp hop, hexec⟩) hsettle

theorem dpc_called_once_sample
    : ∃ s : Cpu Nat Nat, ∃ rest, Reach Init (Step ⟨false⟩) s ∧ s.stack = .lower 0 .ret :: rest
        ∧ s.dpcq = [] ∧ s.accepted = [(7, 1, 2)] ∧ s.called = s.accepted := by
  have h0 : Reach Init (Step ⟨false⟩) sampleCpu :=
    .start ⟨by decide, rfl, rfl, rfl, fun _ => rfl, rfl, rfl, rfl⟩
  have h1 := h0.next (e := Op.interrupt 208) ⟨⟨rfl, by decide, by decide, by decide⟩, rfl⟩
  have h4 := reach_settle (n := 3) h1 rfl
  have h5 := h4.next (e := Op.enqueue 7 1 2) ⟨⟨_, _, rfl, by decide⟩, rfl⟩
  have h25 := reach_settle (n := 20) h5 rfl
  obtain ⟨hq, _, hcalled⟩ := (dpc_called_once h25).2.1 0 _ rfl (by decide)
  exact ⟨_, _, h25, rfl, hq, rfl, hcalled⟩

end Irq
end Nyy
