import NyyKernel.Dispatch.Blocks

namespace Nyy
namespace WaitSys

variable {ο θ : Type}

def Orderly (s : WaitSys ο θ) : WaitOp ο θ → Prop
  | .round o => ∀ t ts, (s.obj o).waitblockList = t :: ts → (s.wait t).state = .waiting
  | .timeout _ => False
  | _ => True

structure Queued (s : WaitSys ο θ) (t : θ) (o : ο) : Prop where
  status : (s.wait t).waitStatus = statusWaiting
  count : (s.wait t).waitCount = 1
  unwaited : (s.wait t).unwaited = false
  wakes : s.wakes t = 0
  state : s.pc t = .blocked o → (s.wait t).state = .waiting

structure Satisfied (s : WaitSys ο θ) (t : θ) (o : ο) : Prop where
  pc : s.pc t = .blocked o
  status : (s.wait t).waitStatus = statusRangeWait + 0
  state : (s.wait t).state = .ready
  wakes : s.wakes t = 1

structure Fair (s : WaitSys ο θ) : Prop where
  blocks : Blocks s
  waiting : ∀ t, (s.wait t).state = .waiting → ∃ o, s.pc t = .blocked o
  queued : ∀ t o, s.On t o → (s.wait t).dequeued = false → Queued s t o
  satisfied : ∀ t o, s.On t o → (s.wait t).dequeued = true → Satisfied s t o

variable {s s' : WaitSys ο θ} {t : θ} {o : ο} {ts : List θ}

theorem Fair.init (h : Init s) : Fair s := by
  have hon : ∀ t o, ¬ s.On t o := by
    intro t o
    simp [On, (h.2.2 t).1]
  refine ⟨Blocks.init h, ?_, ?_, ?_⟩
  . intro t ht
    exact absurd ht (h.2.2 t).2
  . intro t o ht
    exact absurd ht (hon t o)
  . intro t o ht
    exact absurd ht (hon t o)

theorem Fair.change (h : Fair s) (hblocks : Blocks s')
    (hother : ∀ u, u ≠ t → s'.pc u = s.pc u ∧ s'.wait u = s.wait u ∧ s'.wakes u = s.wakes u)
    (hwaiting : (s'.wait t).state = .waiting → ∃ o, s'.pc t = .blocked o)
    (hqueued : ∀ o, s'.On t o → (s'.wait t).dequeued = false → Queued s' t o)
    (hsatisfied : ∀ o, s'.On t o → (s'.wait t).dequeued = true → Satisfied s' t o)
    : Fair s' := by
  have hon : ∀ u o, u ≠ t → s'.On u o → s.On u o := by
    intro u o hu ho
    unfold On at ho ⊢
    rwa [(hother u hu).1] at ho
  refine ⟨hblocks, ?_, ?_, ?_⟩
  . intro u hu
    by_cases hut : u = t
    . exact hut ▸ hwaiting (hut ▸ hu)
    . rw [(hother u hut).1]
      exact h.waiting u ((hother u hut).2.1 ▸ hu)
  . intro u o ho hflag
    by_cases hut : u = t
    . exact hut ▸ hqueued o (hut ▸ ho) (hut ▸ hflag)
    . rcases hother u hut with ⟨hpc, hwait, hwakes⟩
      rcases h.queued u o (hon u o hut ho) (hwait ▸ hflag) with ⟨h1, h2, h3, h4, h5⟩
      rw [← hwait] at h1 h2 h3 h5
      exact ⟨h1, h2, h3, hwakes.trans h4, fun hb => h5 (hpc ▸ hb)⟩
  . intro u o ho hflag
    by_cases hut : u = t
    . exact hut ▸ hsatisfied o (hut ▸ ho) (hut ▸ hflag)
    . rcases hother u hut with ⟨hpc, hwait, hwakes⟩
      rcases h.satisfied u o (hon u o hut ho) (hwait ▸ hflag) with ⟨h1, h2, h3, h4⟩
      rw [← hwait] at h2 h3
      exact ⟨hpc.trans h1, h2, h3, hwakes.trans h4⟩

theorem Fair.of_same (h : Fair s) (hblocks : Blocks s') (hpc : s'.pc = s.pc) (hwait : s'.wait = s.wait)
    (hwakes : s'.wakes = s.wakes)
    : Fair s' := by
  rcases s with ⟨obj, wait, pc, satisfying, wakes⟩
  rcases s' with ⟨obj', wait', pc', satisfying', wakes'⟩
  cases hpc
  cases hwait
  cases hwakes
  refine ⟨hblocks, h.waiting, ?_, ?_⟩
  . intro t o ho hflag
    rcases h.queued t o ho hflag with ⟨h1, h2, h3, h4, h5⟩
    exact ⟨h1, h2, h3, h4, h5⟩
  . intro t o ho hflag
    rcases h.satisfied t o ho hflag with ⟨h1, h2, h3, h4⟩
    exact ⟨h1, h2, h3, h4⟩

theorem Fair.waits (h : Fair s) (hlist : (s.obj o).waitblockList = t :: ts)
    (hstate : (s.wait t).state = .waiting)
    : s.pc t = .blocked o ∧ s.wakes t = 0 ∧ Disp.Waits (s.wait t) := by
  rcases (h.blocks.listed o t).mp (by simp [hlist]) with ⟨hon, hflag⟩
  have hq := h.queued t o hon hflag
  rcases h.waiting t hstate with ⟨p, hp⟩
  have hop : o = p := hon.unique (.inr hp)
  subst hop
  exact ⟨hp, hq.wakes, hstate, hq.status, hq.count, hflag, hq.unwaited⟩

variable [DecidableEq ο] [DecidableEq θ] {cfg : Config}

theorem Fair.wait {t : θ} {o : ο} (h : Fair s) (hidle : s.pc t = .idle) (hblocks : Blocks s')
    (he : s.step cfg (.wait t o) = .ok s')
    : Fair s' := by
  have hnot : (s.wait t).state ≠ .waiting := by
    intro hw
    rcases h.waiting t hw with ⟨p, hp⟩
    rw [hidle] at hp
    cases hp
  unfold WaitSys.step at he
  dsimp only at he
  rcases Disp.waitSection_cases (s.disp o) t with
    ⟨d, hother, ⟨heq, _, _, _, hstate⟩ | ⟨heq, _, hhdr, hself⟩⟩
  . rw [heq] at he
    cases he
    have hon : ∀ p, ¬ (s.put o d).On t p := by
      intro p
      simp [On, put, hidle]
    apply h.change (t := t) hblocks
    . intro u hu
      exact ⟨rfl, hother u hu, rfl⟩
    . intro hw
      exact absurd (hstate ▸ hw) hnot
    . exact fun p hp => absurd hp (hon p)
    . exact fun p hp => absurd hp (hon p)
  . rw [heq] at he
    cases he
    apply h.change (t := t) hblocks
    . intro u hu
      exact ⟨goto_pc_of_ne _ _ hu, hother u hu, by simp [hu]⟩
    . intro hw
      change (d.wait t).state = .waiting at hw
      rw [hself] at hw
      exact absurd hw hnot
    . intro p _ _
      refine ⟨?_, ?_, ?_, by simp, ?_⟩
      . change (d.wait t).waitStatus = _
        rw [hself]
      . change (d.wait t).waitCount = _
        rw [hself]
      . change (d.wait t).unwaited = _
        rw [hself]
      . intro hp
        have : ((s.put o d).goto t (.enqueued o)).pc t = .blocked p := hp
        rw [goto_pc_self] at this
        cases this
    . intro p _ hflag
      change (d.wait t).dequeued = true at hflag
      rw [hself] at hflag
      cases hflag

theorem Fair.block {t : θ} (h : Fair s) (hblocks : Blocks s') (he : s.step cfg (.block t) = .ok s')
    : Fair s' := by
  unfold WaitSys.step at he
  dsimp only at he
  split at he
  . next o hpc =>
    cases he
    have hflag : (s.wait t).dequeued = false := by
      -- a satisfied thread is blocked
      by_contra hd
      have := (h.satisfied t o (.inl hpc) (by simpa using hd)).pc
      rw [hpc] at this
      cases this
    have hq := h.queued t o (.inl hpc) hflag
    have hself : (waitBlock (s.disp o) t).wait t = { s.wait t with state := .waiting } := by
      unfold waitBlock
      rw [Disp.setWait_self]
      rfl
    apply h.change (t := t) hblocks
    . intro u hu
      exact ⟨goto_pc_of_ne _ _ hu, Disp.setWait_of_ne _ _ hu, rfl⟩
    . intro _
      exact ⟨o, goto_pc_self ..⟩
    . intro p hp _
      refine ⟨?_, ?_, ?_, hq.wakes, ?_⟩
      . change ((waitBlock (s.disp o) t).wait t).waitStatus = _
        rw [hself]
        exact hq.status
      . change ((waitBlock (s.disp o) t).wait t).waitCount = _
        rw [hself]
        exact hq.count
      . change ((waitBlock (s.disp o) t).wait t).unwaited = _
        rw [hself]
        exact hq.unwaited
      . intro _
        change ((waitBlock (s.disp o) t).wait t).state = _
        rw [hself]
    . intro p _ hd
      change ((waitBlock (s.disp o) t).wait t).dequeued = true at hd
      rw [hself] at hd
      simp [hflag] at hd
  . cases he
    exact h

theorem Fair.resume (h : Fair s) (hstate : (s.wait t).state ≠ .waiting) (hblocks : Blocks s')
    (he : s.step cfg (.resume t) = .ok s')
    : Fair s' := by
  unfold WaitSys.step at he
  dsimp only at he
  split at he
  . next o hpc =>
    rcases Disp.waitReturn_cases (h.blocks.not_underflow hpc) with ⟨d, heq, hwait, _⟩
    rw [heq] at he
    cases he
    have hon : ∀ p, ¬ ((s.put o d).goto t .idle).On t p := by
      intro p
      simp [On, goto_pc_self]
    apply h.change (t := t) hblocks
    . intro u hu
      exact ⟨goto_pc_of_ne _ _ hu, congrFun hwait u, rfl⟩
    . intro hw
      have hw' : (d.wait t).state = .waiting := hw
      rw [hwait] at hw'
      exact absurd hw' hstate
    . exact fun p hp => absurd hp (hon p)
    . exact fun p hp => absurd hp (hon p)
  . cases he
    exact h

theorem Fair.round (h : Fair s) (horderly : s.Orderly (.round o)) (hblocks : Blocks s')
    (he : s.step cfg (.round o) = .ok s')
    : Fair s' := by
  unfold WaitSys.step at he
  dsimp only at he
  split at he
  . next all t ts _ hlist =>
    rcases h.waits hlist (horderly t ts hlist) with ⟨hpc, hwakes, hw⟩
    rw [Disp.Waits.satisfyRound cfg all (d := s.disp o) hw hlist] at he
    cases he
    have hover := Disp.handedOver_handed (s.disp o) t ts
    have hself := hover.self
    apply h.change (t := t) hblocks
    . intro u hu
      exact ⟨rfl, hover.other u hu, by simp [hu]⟩
    . intro _
      exact ⟨o, hpc⟩
    . intro p _ hflag
      change ((Disp.handed (s.disp o) t ts).wait t).dequeued = false at hflag
      rw [hself] at hflag
      cases hflag
    . intro p hp _
      have hop : p = o := by
        have hp' : s.On t p := hp
        exact hp'.unique (.inr hpc)
      subst hop
      refine ⟨hpc, ?_, ?_, ?_⟩
      . change ((Disp.handed (s.disp p) t ts).wait t).waitStatus = _
        rw [hself]
      . change ((Disp.handed (s.disp p) t ts).wait t).state = _
        rw [hself]
      . simp only [Function.update_self, hwakes, unwaited, hself, hw.status]
        decide
  . cases he
    exact h.of_same hblocks rfl rfl rfl

theorem Fair.step {op : WaitOp ο θ} (h : Fair s) (hstep : Guarded Orderly (Step cfg) s op s')
    : Fair s' := by
  rcases hstep with ⟨horderly, hstep⟩
  have hblocks := h.blocks.step hstep
  rcases hstep with ⟨henabled, he⟩
  cases op with
  | wait t o => exact h.wait henabled.1 hblocks he
  | block t => exact h.block hblocks he
  | resume t =>
    rcases henabled with ⟨o, _, _, hstate⟩
    exact h.resume hstate hblocks he
  | satisfy o all =>
    cases he
    exact h.of_same hblocks rfl rfl rfl
  | round o => exact h.round horderly hblocks he
  | signal o n =>
    cases he
    exact h.of_same hblocks rfl rfl rfl
  | timeout t => exact absurd horderly id

/--
If `obj_satisfy` only finds threads that are waiting, none of its assertions fails, and a thread in
its wait is on the list or was satisfied once.
-/
theorem signal_race_safe {s : WaitSys ο θ} (hr : Reach Init (Guarded Orderly (Step cfg)) s)
    : (∀ o, s.Orderly (.round o) → ∃ s', s.step cfg (.round o) = .ok s') ∧
      (∀ o, (∀ t ∈ (s.obj o).waitblockList, (s.wait t).state = .waiting) →
        ∃ r, eventSignal cfg (s.disp o) = .ok r) ∧
      ∀ t o, s.On t o →
        (t ∈ (s.obj o).waitblockList ∧ s.wakes t = 0 ∧ (s.wait t).waitStatus = statusWaiting ∧
          (s.pc t = .blocked o → (s.wait t).state = .waiting)) ∨
        ((∀ p, t ∉ (s.obj p).waitblockList) ∧ s.wakes t = 1 ∧
          (s.wait t).waitStatus = statusRangeWait + 0 ∧ s.pc t = .blocked o ∧
          (s.wait t).state = .ready) := by
  have h : Fair s := hr.invariant (fun s hs => Fair.init hs) (fun s op s' h hstep => h.step hstep)
  refine ⟨?_, ?_, ?_⟩
  . intro o horderly
    unfold WaitSys.step
    dsimp only
    split
    . next all t ts _ hlist =>
      rcases h.waits hlist (horderly t ts hlist) with ⟨_, _, hw⟩
      rw [Disp.Waits.satisfyRound cfg all (d := s.disp o) hw hlist]
      exact ⟨_, rfl⟩
    . exact ⟨_, rfl⟩
  . intro o hstate
    have hok : (s.disp o).Ok := by
      refine ⟨h.blocks.nodup o, h.blocks.count o, ?_⟩
      intro t ht
      rcases (h.blocks.listed o t).mp ht with ⟨hon, hflag⟩
      have hq := h.queued t o hon hflag
      exact ⟨hstate t ht, hq.status, hq.count, hflag, hq.unwaited⟩
    rcases hok.signalOutcome cfg with ⟨r, d, heq, _⟩
    exact ⟨_, heq⟩
  . intro t o hon
    cases hflag : (s.wait t).dequeued with
    | false =>
      have hq := h.queued t o hon hflag
      exact .inl ⟨(h.blocks.listed o t).mpr ⟨hon, hflag⟩, hq.wakes, hq.status, hq.state⟩
    | true =>
      have hs := h.satisfied t o hon hflag
      refine .inr ⟨?_, hs.wakes, hs.status, hs.pc, hs.state⟩
      intro p hmem
      have := ((h.blocks.listed p t).mp hmem).2
      simp [hflag] at this

theorem signal_race_safe_satisfied
    : ∃ s : WaitSys Unit Unit, Reach Init (Guarded Orderly (Step ⟨false⟩)) s ∧ s.On () () ∧
        s.wakes () = 1 ∧ () ∉ (s.obj ()).waitblockList := by
  have h0 : Reach Init (Guarded Orderly (Step ⟨false⟩)) oneWaiter := .start oneWaiter_init
  have h1 := h0.next (e := WaitOp.wait () ()) ⟨trivial, ⟨rfl, rfl⟩, rfl⟩
  have h2 := h1.next (e := WaitOp.block ()) ⟨trivial, ⟨(), rfl⟩, rfl⟩
  have h3 := h2.next (e := WaitOp.satisfy () false) ⟨trivial, rfl, rfl⟩
  have h4 := h3.next (e := WaitOp.round ()) ⟨fun _ _ _ => rfl, Option.some_ne_none false, rfl⟩
  rcases (signal_race_safe h4).2.2 () () (.inr rfl) with hcase | hcase
  . exact absurd hcase.2.1 (by decide)
  . exact ⟨_, h4, .inr rfl, hcase.2.1, hcase.1 ()⟩

theorem Fair.round_fails (hcfg : cfg.disableAsserts = false) {all : Bool} (h : Fair s)
    (hsat : s.satisfying o = some all) (hlist : (s.obj o).waitblockList = t :: ts)
    (hstate : (s.wait t).state ≠ .waiting)
    : s.step cfg (.round o) = .error .assertion := by
  rcases (h.blocks.listed o t).mp (by simp [hlist]) with ⟨hon, hflag⟩
  have hq := h.queued t o hon hflag
  have hcheck : check cfg ((1 : Int) != -1) = .ok () := check_of cfg (by decide)
  have hfails : check cfg ((s.wait t).state == .waiting) = .error .assertion := by
    rw [beq_eq_false_iff_ne.mpr hstate]
    simp [check, hcfg]
  unfold WaitSys.step
  dsimp only
  rw [hsat, hlist]
  dsimp only
  unfold satisfyRound schedUnwait
  simp only [disp, hq.count, hq.unwaited, hcheck, Except.ok_bind, Disp.setWait_self, hfails,
    Bool.false_eq_true, if_false]
  rfl

/--
A round trips an assertion exactly if the thread it takes from the list does not wait yet.
-/
theorem satisfy_fails_iff (hcfg : cfg.disableAsserts = false) {all : Bool}
    (hr : Reach Init (Guarded Orderly (Step cfg)) s) (hsat : s.satisfying o = some all)
    : s.step cfg (.round o) = .error .assertion ↔
        ∃ t ts, (s.obj o).waitblockList = t :: ts ∧ (s.wait t).state ≠ .waiting := by
  have h : Fair s := hr.invariant (fun s hs => Fair.init hs) (fun s op s' h hstep => h.step hstep)
  constructor
  . intro herror
    unfold WaitSys.step at herror
    dsimp only at herror
    split at herror
    . next all t ts _ hlist =>
      refine ⟨t, ts, hlist, ?_⟩
      intro hstate
      rcases h.waits hlist hstate with ⟨_, _, hw⟩
      rw [Disp.Waits.satisfyRound cfg all (d := s.disp o) hw hlist] at herror
      cases herror
    . cases herror
  . rintro ⟨t, ts, hlist, hstate⟩
    exact h.round_fails hcfg hsat hlist hstate

theorem satisfy_fails_iff_running
    : ∃ s : WaitSys Unit Unit, s.pc () = .enqueued () ∧ s.step ⟨false⟩ (.round ()) = .error .assertion := by
  have h0 : Reach Init (Guarded Orderly (Step ⟨false⟩)) oneWaiter := .start oneWaiter_init
  have h1 := h0.next (e := WaitOp.wait () ()) ⟨trivial, ⟨rfl, rfl⟩, rfl⟩
  have h2 := h1.next (e := WaitOp.satisfy () false) ⟨trivial, rfl, rfl⟩
  exact ⟨_, rfl, (satisfy_fails_iff rfl h2 rfl).mpr ⟨(), [], rfl, by decide⟩⟩

theorem signal_meets_running_waiter
    : ∃ s : WaitSys Unit Unit, Reach Init (Step ⟨false⟩) s ∧ s.pc () = .enqueued () ∧
        s.satisfying () = some false ∧ s.step ⟨false⟩ (.round ()) = .error .assertion ∧
        eventSignal ⟨false⟩ (s.disp ()) = .error .assertion := by
  have h0 : Reach Init (Step ⟨false⟩) oneWaiter := .start oneWaiter_init
  have h1 := h0.next (e := WaitOp.wait () ()) ⟨⟨rfl, rfl⟩, rfl⟩
  have h2 := h1.next (e := WaitOp.satisfy () false) ⟨rfl, rfl⟩
  exact ⟨_, h2, rfl, rfl, rfl, rfl⟩

end WaitSys
end Nyy
