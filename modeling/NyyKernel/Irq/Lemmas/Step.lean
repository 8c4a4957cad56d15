import Mathlib.Tactic
import Mathlib.Data.List.Nodup
import NyyKernel.Irq.Lemmas.Shape

namespace Nyy
namespace Irq

variable {δ κ : Type}

def payload (s : Cpu δ κ) (dpc : δ) : δ × κ × κ := (dpc, s.context1 dpc, s.context2 dpc)

structure Inv (s : Cpu δ κ) : Prop where
  shape : Shape s.stack s.irql s.ints
  pending : s.softintPending = 0 ∨ s.softintPending = 2
  nodup : s.dpcq.Nodup
  enqueued : ∀ dpc, s.enqueued dpc = true ↔ dpc ∈ s.dpcq
  bit : s.dpcq ≠ [] → s.softintPending = 2 ∨ ∃ f ∈ s.stack, f.drains = true
  settled : ∀ f rest, s.stack = f :: rest → f.Settled s.irql
    → s.dpcq = [] ∧ s.softintPending = 0
  history : s.accepted = s.called ++ inflight s.stack ++ s.dpcq.map (payload s)

namespace Inv

variable {s s' : Cpu δ κ} {f g u : Frame δ κ} {rest : List (Frame δ κ)} {irql level : Nat} {ints : Bool}
  {cfg : Config}

theorem at_top (h : Inv s) (hs : s.stack = f :: rest) : f.At s.irql s.ints := by
  have := h.shape
  rw [hs] at this
  exact this.at_top

theorem move (h : Inv s) {stack : List (Frame δ κ)} (hshape : Shape stack irql ints)
    (hdrains : s.dpcq ≠ [] → (∃ f ∈ s.stack, f.drains = true) → ∃ f ∈ stack, f.drains = true)
    (hsettled : ∀ f rest, stack = f :: rest → f.Settled irql
      → s.dpcq = [] ∧ s.softintPending = 0) (hinflight : inflight stack = inflight s.stack)
    : Inv { s with irql := irql, ints := ints, stack := stack } := by
  constructor
  . exact hshape
  . exact h.pending
  . exact h.nodup
  . exact h.enqueued
  . intro hne
    cases h.bit hne with
    | inl hp => exact Or.inl hp
    | inr hd => exact Or.inr (hdrains hne hd)
  . exact hsettled
  . change s.accepted = s.called ++ inflight stack ++ s.dpcq.map (payload s)
    rw [hinflight]
    exact h.history

section

variable (h : Inv s) (hs : s.stack = f :: rest)

include h hs

theorem goto (hat : g.At irql ints) (hcode : g.isCode = f.isCode)
    (hresume : g.resume irql ints = f.resume s.irql s.ints) (habove : g.Above = f.Above)
    (hdrains : f.drains = true → g.drains = true) (htaken : g.taken = f.taken)
    (hsettled : g.Settled irql → s.dpcq = [] ∧ s.softintPending = 0)
    : Inv { s with irql := irql, ints := ints, stack := g :: rest } := by
  have hshape := h.shape
  rw [hs] at hshape
  apply h.move
  . exact hshape.goto hat hcode hresume habove
  . rintro _ ⟨b, hb, hbd⟩
    rw [hs] at hb
    cases hb with
    | head => exact ⟨g, List.mem_cons_self, hdrains hbd⟩
    | tail _ hb => exact ⟨b, List.mem_cons_of_mem _ hb, hbd⟩
  . intro b rest' heq hb
    cases heq
    exact hsettled hb
  . rw [hs]
    unfold inflight
    rw [List.flatMap_cons, List.flatMap_cons, htaken]

theorem call (hu : u.At s.irql s.ints) (habove : u.Above g)
    (hat : g.At (u.resume s.irql s.ints).1 (u.resume s.irql s.ints).2) (hcode : g.isCode = f.isCode)
    (hresume : g.resume (u.resume s.irql s.ints).1 (u.resume s.irql s.ints).2
      = f.resume s.irql s.ints) (hbelow : g.Above = f.Above) (hdrains : f.drains = true → u.drains = true)
    (hutaken : u.taken = []) (htaken : g.taken = f.taken) (hsettled : ¬ u.Settled s.irql)
    : Inv { s with stack := u :: g :: rest } := by
  have hshape := h.shape
  rw [hs] at hshape
  apply h.move
  . exact (hshape.goto hat hcode hresume hbelow).push hu habove
  . rintro _ ⟨b, hb, hbd⟩
    rw [hs] at hb
    cases hb with
    | head => exact ⟨u, List.mem_cons_self, hdrains hbd⟩
    | tail _ hb => exact ⟨b, List.mem_cons_of_mem _ (List.mem_cons_of_mem _ hb), hbd⟩
  . intro b rest' heq hb
    cases heq
    exact absurd hb hsettled
  . rw [hs]
    unfold inflight
    rw [List.flatMap_cons, List.flatMap_cons, List.flatMap_cons, hutaken, htaken]
    rfl

theorem ret (hne : rest ≠ []) (irql : Nat) (ints : Bool) (hresume : f.resume s.irql s.ints = (irql, ints))
    (hdrains : s.dpcq ≠ [] → f.drains = false)
    (htaken : f.taken = []) (hsettled : ∀ b, f.Above b → b.At irql ints → b.Settled irql
      → s.dpcq = [] ∧ s.softintPending = 0)
    : Inv { s with irql := irql, ints := ints, stack := rest } := by
  have hshape := h.shape
  rw [hs] at hshape
  cases rest with
  | nil => exact absurd rfl hne
  | cons b rest =>
    have hpop := hshape.pop
    rw [hresume] at hpop
    apply h.move
    . exact hpop
    . rintro hq ⟨c, hc, hcd⟩
      rw [hs] at hc
      cases hc with
      | head =>
        rw [hdrains hq] at hcd
        cases hcd
      | tail _ hc => exact ⟨c, hc, hcd⟩
    . intro c rest' heq hc
      cases heq
      exact hsettled b hshape.above hpop.at_top hc
    . rw [hs]
      change inflight (b :: rest) = f.taken ++ inflight (b :: rest)
      rw [htaken]
      rfl

theorem pending_of_resume (hf : f.drains = false) (hlt : (f.resume s.irql s.ints).1 < 2)
    (hp : s.softintPending = 0)
    : s.dpcq = [] := by
  by_contra hne
  cases h.bit hne with
  | inl h2 =>
    rw [hp] at h2
    cases h2
  | inr hd =>
    have hshape := h.shape
    rw [hs] at hshape hd
    obtain ⟨b, hb, hbd⟩ := hd
    cases hb with
    | head =>
      rw [hf] at hbd
      cases hbd
    | tail _ hb =>
      rw [hshape.not_drains_of_resume hlt b hb] at hbd
      cases hbd

end

theorem lt_of_settled {b : Frame δ κ} (hat : b.At irql true) (hb : b.Settled irql) : irql < 2 := by
  cases b with
  | code saved => exact hb
  | irq number old pc =>
    cases pc with
    | iret => cases hat.2
    | _ => exact hb.elim
  | lower level pc =>
    cases pc with
    | ret => exact Nat.lt_of_le_of_lt (Nat.le_of_eq hat) hb
    | _ => exact hb.elim
  | dispatch newirql old pc =>
    cases pc with
    | set => cases hat.2.2
    | restore => cases hat.2.2
    | _ => exact hb.elim
  | _ => exact hb.elim

theorem irqStep (h : Inv s) {number old : Nat} {pc : IrqPc} (hs : s.stack = .irq number old pc :: rest)
    (hstep : irqStep cfg s rest number old pc = .ok s')
    : Inv s' := by
  have hat := h.at_top hs
  cases pc with
  | raise =>
    obtain ⟨s₁, hraise, heq⟩ := Except.bind_eq_ok hstep
    obtain ⟨_, _, hraise⟩ := Except.bind_eq_ok hraise
    cases hraise
    cases heq
    obtain ⟨rfl, hints, hlt, h2⟩ := hat
    exact h.goto (g := .irq number s.irql .sti) hs ⟨rfl, hints, hlt, h2⟩ rfl rfl rfl nofun rfl nofun
  | sti =>
    cases hstep
    obtain ⟨hirql, _, hlt, h2⟩ := hat
    exact h.goto (g := .irq number old .call) hs ⟨hirql, rfl, hlt, h2⟩ rfl rfl rfl nofun rfl nofun
  | call =>
    cases hstep
    obtain ⟨hirql, hints, hlt, h2⟩ := hat
    refine h.call (u := .code []) (g := .irq number old .cli) hs ⟨hints, trivial⟩ trivial
      ⟨hirql, rfl, hlt, h2⟩ rfl rfl rfl nofun rfl rfl ?_
    change ¬ s.irql < 2
    omega
  | cli =>
    cases hstep
    obtain ⟨hirql, _, hlt, h2⟩ := hat
    exact h.goto (g := .irq number old .lower) hs ⟨hirql, rfl, hlt, h2⟩ rfl rfl rfl nofun rfl nofun
  | lower =>
    cases hstep
    obtain ⟨hirql, hints, hlt, h2⟩ := hat
    exact h.call (u := .lower old .enter) (g := .irq number old .iret) hs (show old ≤ s.irql by omega)
      trivial ⟨rfl, hints⟩ rfl rfl rfl nofun rfl rfl nofun
  | iret =>
    cases hstep
    obtain ⟨hirql, hints⟩ := hat
    subst hirql
    have hshape := h.shape
    rw [hs] at hshape
    refine h.ret hs (hshape.ne_nil_of_not_code rfl) _ _ rfl (fun _ => rfl) rfl ?_
    intro b _ hbat hb
    exact h.settled _ _ hs (lt_of_settled hbat hb)

theorem shiftRight_two (h : (2 : BitVec 64) >>> level ≠ 0) : level < 2 := by
  by_contra hge
  apply h
  apply BitVec.eq_of_toNat_eq
  rw [BitVec.toNat_ushiftRight, Nat.shiftRight_eq_div_pow]
  have : 2 ^ 2 ≤ 2 ^ level := Nat.pow_le_pow_right (by omega) (by omega)
  exact Nat.div_eq_of_lt (Nat.lt_of_lt_of_le (by decide) this)

theorem lowerStep (h : Inv s) {pc : LowerPc} (hs : s.stack = .lower level pc :: rest)
    (hstep : lowerStep cfg s rest level pc = .ok s')
    : Inv s' := by
  have hat := h.at_top hs
  cases pc with
  | enter =>
    obtain ⟨_, _, heq⟩ := Except.bind_eq_ok hstep
    cases heq
    exact h.goto (g := .lower level .set) hs hat rfl rfl rfl nofun rfl nofun
  | set =>
    cases hstep
    exact h.goto (g := .lower level .test) hs rfl rfl rfl rfl nofun rfl nofun
  | test =>
    simp only [Irq.lowerStep] at hstep
    split at hstep
    . next hp =>
      cases hstep
      have hlevel : level < 2 := by
        cases h.pending with
        | inl h0 =>
          rw [h0] at hp
          simp at hp
        | inr h2 =>
          rw [h2] at hp
          exact shiftRight_two hp
      exact h.call (u := .dispatch level false .cli) (g := .lower level .ret) hs ⟨hlevel, hat⟩ trivial
        rfl rfl rfl rfl nofun rfl rfl nofun
    . next hp =>
      cases hstep
      refine h.goto (g := .lower level .ret) hs hat rfl rfl rfl nofun rfl ?_
      intro hlevel
      have h0 : s.softintPending = 0 := by
        cases h.pending with
        | inl h0 => exact h0
        | inr h2 =>
          exfalso
          apply hp
          rw [h2]
          change level < 2 at hlevel
          interval_cases level
          . decide
          . decide
      exact ⟨h.pending_of_resume hs rfl hlevel h0, h0⟩
  | ret =>
    cases hstep
    change s.irql = level at hat
    subst hat
    have hshape := h.shape
    rw [hs] at hshape
    refine h.ret hs (hshape.ne_nil_of_not_code rfl) _ _ rfl (fun _ => rfl) rfl ?_
    intro b habove hbat hb
    apply h.settled _ _ hs
    cases b with
    | code saved => exact hb
    | irq number old pc =>
      cases pc with
      | iret => exact Nat.lt_of_le_of_lt (Nat.le_of_eq hbat.1) hb
      | _ => exact habove.elim
    | _ => exact habove.elim

theorem dispatchStep (h : Inv s) {newirql : Nat} {old : Bool} {pc : DispatchPc}
    (hs : s.stack = .dispatch newirql old pc :: rest)
    : Inv (dispatchStep s rest newirql old pc) := by
  have hat := h.at_top hs
  cases pc with
  | cli =>
    exact h.goto (g := .dispatch newirql s.ints .test) hs ⟨hat.1, Nat.le_of_eq hat.2.symm, rfl⟩ rfl rfl
      rfl nofun rfl nofun
  | test =>
    simp only [Irq.dispatchStep]
    split
    . next hp =>
      refine h.goto (g := .dispatch newirql old .set) hs hat rfl rfl rfl nofun rfl ?_
      intro _
      have h0 : s.softintPending = 0 := by
        cases h.pending with
        | inl h0 => exact h0
        | inr h2 =>
          exfalso
          rw [h2] at hp
          have hlt := hat.1
          interval_cases newirql
          . exact absurd hp (by decide)
          . exact absurd hp (by decide)
      exact ⟨h.pending_of_resume hs rfl hat.1 h0, h0⟩
    . split
      . exact h.goto (g := .dispatch newirql old .ack) hs hat rfl rfl rfl nofun rfl nofun
      . exact h.goto (g := .dispatch newirql old .test) hs hat rfl rfl rfl nofun rfl nofun
  | ack =>
    -- the announcement is taken back, from here on the queue counts as being run
    have hgoto := h.goto (g := .dispatch newirql old .raise) hs hat rfl rfl rfl nofun rfl nofun
    constructor
    . exact hgoto.shape
    . left
      change s.softintPending &&& ~~~(pendingBit irqlDispatch) = 0
      cases h.pending with
      | inl h0 =>
        rw [h0]
        decide
      | inr h2 =>
        rw [h2]
        decide
    . exact hgoto.nodup
    . exact hgoto.enqueued
    . intro _
      exact Or.inr ⟨_, List.mem_cons_self, rfl⟩
    . intro f rest' heq hf
      cases heq
      exact hf.elim
    . exact hgoto.history
  | raise =>
    exact h.goto (g := .dispatch newirql old .enable) hs ⟨hat.1, rfl, hat.2.2⟩ rfl rfl rfl
      (fun _ => rfl) rfl nofun
  | enable =>
    exact h.goto (g := .dispatch newirql old .run) hs ⟨hat.1, hat.2.1, rfl⟩ rfl rfl rfl (fun _ => rfl)
      rfl nofun
  | run =>
    exact h.call (u := .runQueue) (g := .dispatch newirql old .disable) hs hat.2 trivial
      ⟨hat.1, rfl, rfl⟩ rfl rfl rfl (fun _ => rfl) rfl rfl nofun
  | disable =>
    have hle : newirql ≤ s.irql := by
      have := hat.1
      have := hat.2.1
      omega
    exact h.goto (g := .dispatch newirql old .test) hs ⟨hat.1, hle, rfl⟩ rfl rfl rfl nofun rfl nofun
  | set =>
    exact h.goto (g := .dispatch newirql old .restore) hs ⟨hat.1, rfl, hat.2.2⟩ rfl rfl rfl nofun rfl
      (fun _ => h.settled _ _ hs trivial)
  | restore =>
    have hshape := h.shape
    rw [hs] at hshape
    refine h.ret hs (hshape.ne_nil_of_not_code rfl) _ old ?_ (fun _ => rfl) rfl ?_
    . change (newirql, old) = (s.irql, old)
      rw [hat.2.1]
    . intro b _ _ _
      exact h.settled _ _ hs trivial

section

variable [DecidableEq δ]

theorem runQueueStep (h : Inv s) (hs : s.stack = .runQueue :: rest)
    : Inv (runQueueStep s rest) := by
  have hat := h.at_top hs
  have hshape := h.shape
  rw [hs] at hshape
  cases hq : s.dpcq with
  | nil =>
    simp only [Irq.runQueueStep, hq]
    have hret := h.ret hs (hshape.ne_nil_of_not_code rfl) s.irql s.ints
      (by rw [hat.1, hat.2]; rfl) (fun hne => absurd hq hne) rfl
      (by
        intro b habove _ hb
        cases b with
        | dispatch newirql old pc =>
          cases pc with
          | disable => exact hb.elim
          | _ => exact habove.elim
        | _ => exact habove.elim)
    rw [hq] at hret
    exact hret
  | cons dpc dpcq =>
    simp only [Irq.runQueueStep, hq]
    have hnodup := h.nodup
    rw [hq] at hnodup
    obtain ⟨hnot, hnodup'⟩ := List.nodup_cons.mp hnodup
    have hrest := hshape.not_drains_of_runs (Or.inl rfl)
    constructor
    . exact hshape.goto hat rfl rfl rfl
    . exact h.pending
    . exact hnodup'
    . intro d
      change Function.update s.enqueued dpc false d = true ↔ d ∈ dpcq
      by_cases hd : d = dpc
      . subst hd
        rw [Function.update_self]
        simp [hnot]
      . rw [Function.update_of_ne hd, h.enqueued, hq]
        simp [hd]
    . intro _
      exact Or.inr ⟨_, List.mem_cons_self, rfl⟩
    . intro f rest' heq hf
      cases heq
      exact hf.elim
    . have hhist := h.history
      rw [hs, hq] at hhist
      change s.accepted = s.called ++ ([payload s dpc] ++ inflight rest) ++ dpcq.map (payload s)
      rw [hhist]
      change s.called ++ inflight rest ++ (payload s dpc :: dpcq.map (payload s)) = _
      rw [inflight_of_not_drains hrest]
      simp

omit [DecidableEq δ] in
theorem runCallStep (h : Inv s) {dpc : δ} {context1 context2 : κ}
    (hs : s.stack = .runCall dpc context1 context2 :: rest)
    : Inv (runCallStep s rest dpc context1 context2) := by
  have hat := h.at_top hs
  have hshape := h.shape
  rw [hs] at hshape
  have hrest := hshape.not_drains_of_runs (Or.inr ⟨dpc, context1, context2, rfl⟩)
  constructor
  . change Shape (.code [] :: .runQueue :: rest) s.irql s.ints
    have hgoto : Shape (Frame.runQueue :: rest) s.irql s.ints :=
      hshape.goto hat rfl rfl rfl
    rw [hat.2] at hgoto ⊢
    exact hgoto.push ⟨rfl, trivial⟩ trivial
  . exact h.pending
  . exact h.nodup
  . exact h.enqueued
  . intro _
    exact Or.inr ⟨.runQueue, List.mem_cons_of_mem _ List.mem_cons_self, rfl⟩
  . intro f rest' heq hf
    cases heq
    change s.irql < 2 at hf
    have := hat.1
    omega
  . have hhist := h.history
    rw [hs] at hhist
    change s.accepted = s.called ++ ([(dpc, context1, context2)] ++ inflight rest)
      ++ s.dpcq.map (payload s) at hhist
    change s.accepted = s.called ++ [(dpc, context1, context2)] ++ inflight rest
      ++ s.dpcq.map (payload s)
    rw [hhist]
    simp

theorem dpcEnqueue (h : Inv s) {saved : List Nat} (hs : s.stack = .code saved :: rest) (hirql : 2 ≤ s.irql)
    (dpc : δ) (context1 context2 : κ)
    : Inv (dpcEnqueue s dpc context1 context2) := by
  unfold Irq.dpcEnqueue
  split
  . exact h
  . next henq =>
    have hnot : dpc ∉ s.dpcq := by
      rw [← h.enqueued]
      exact henq
    constructor
    . exact h.shape
    . right
      change s.softintPending ||| pendingBit irqlDispatch = 2
      cases h.pending with
      | inl h0 =>
        rw [h0]
        decide
      | inr h2 =>
        rw [h2]
        decide
    . change (s.dpcq ++ [dpc]).Nodup
      rw [List.nodup_append]
      refine ⟨h.nodup, List.nodup_singleton dpc, ?_⟩
      intro a ha b hb
      rw [List.mem_singleton] at hb
      rintro rfl
      exact hnot (hb ▸ ha)
    . intro d
      change Function.update s.enqueued dpc true d = true ↔ d ∈ s.dpcq ++ [dpc]
      by_cases hd : d = dpc
      . subst hd
        simp
      . rw [Function.update_of_ne hd, h.enqueued]
        simp [hd]
    . intro _
      left
      change s.softintPending ||| pendingBit irqlDispatch = 2
      cases h.pending with
      | inl h0 =>
        rw [h0]
        decide
      | inr h2 =>
        rw [h2]
        decide
    . intro f rest' heq hf
      change s.stack = f :: rest' at heq
      rw [hs] at heq
      cases heq
      change s.irql < 2 at hf
      omega
    . -- what is on the queue keeps its contexts
      have hmap : s.dpcq.map (payload (δ := δ)
          { s with
            context1 := Function.update s.context1 dpc context1
            context2 := Function.update s.context2 dpc context2 })
          = s.dpcq.map (payload s) := by
        apply List.map_congr_left
        intro d hd
        have hne : d ≠ dpc := by
          rintro rfl
          exact hnot hd
        simp [payload, hne]
      change s.accepted ++ [(dpc, context1, context2)] = s.called ++ inflight s.stack
        ++ (s.dpcq ++ [dpc]).map (payload
          { s with
            context1 := Function.update s.context1 dpc context1
            context2 := Function.update s.context2 dpc context2 })
      rw [List.map_append, hmap, h.history]
      simp [payload]

end

end Inv

end Irq
end Nyy
