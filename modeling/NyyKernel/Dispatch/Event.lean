import NyyKernel.Dispatch.Lemmas
import NyyKernel.Lib.Run

/-!
This module contains the events of `kernel/lib/event.c` as a system of threads that signal, reset and
wait.
-/

namespace Nyy

structure EventSys (θ : Type) where
  event : Disp θ
  blocked : θ → Bool
  since : θ → Nat
  clock : Nat
  signals : Nat
  completed : Nat

inductive EventOp (θ : Type) where
  | signal
  | reset
  | wait (t : θ)
  | resume (t : θ)

namespace EventSys

variable {θ : Type}

def Waiting (s : EventSys θ) (t : θ) : Prop :=
  s.blocked t = true ∧ (s.event.wait t).state = .waiting

def ended (d d' : Disp θ) : Nat :=
  d.hdr.waitblockList.countP fun t => decide ((d'.wait t).state ≠ .waiting)

def step [DecidableEq θ] (cfg : Config) (s : EventSys θ) : EventOp θ → Except Fault (EventSys θ)
  | .signal => do
    let (r, event) ← eventSignal cfg s.event
    return { s with
      event := event
      signals := if r = 0 then s.signals + 1 else s.signals
      completed := s.completed + ended s.event event }
  | .reset => return { s with event := (eventReset s.event).2 }
  | .wait t =>
    match schedWaitSingle s.event t with
    | (true, event) => return { s with event := event, completed := s.completed + 1 }
    | (false, event) => return { s with
        event := event
        blocked := Function.update s.blocked t true
        since := Function.update s.since t s.clock
        clock := s.clock + 1 }
  | .resume t => do
    let (_, event) ← waitReturn s.event t
    return { s with event := event, blocked := Function.update s.blocked t false }

def Enabled (s : EventSys θ) : EventOp θ → Prop
  | .wait t => s.blocked t = false
  | .resume t => s.blocked t = true ∧ (s.event.wait t).state ≠ .waiting
  | _ => True

def Init (notif signaled : Bool) (s : EventSys θ) : Prop :=
  s.event.hdr = eventInit notif signaled ∧ (∀ t, s.blocked t = false) ∧ s.signals = 0 ∧
    s.completed = 0

def Step [DecidableEq θ] (cfg : Config) (s : EventSys θ) (op : EventOp θ) (s' : EventSys θ) : Prop :=
  s.Enabled op ∧ s.step cfg op = .ok s'

structure Inv (notif signaled : Bool) (s : EventSys θ) : Prop where
  type : s.event.hdr.type = if notif then .eventNotif else .event
  disp : s.event.Ok
  listed : ∀ t, t ∈ s.event.hdr.waitblockList ↔ s.Waiting t
  resumed : ∀ t, s.blocked t = true → (s.event.wait t).state ≠ .waiting →
    (s.event.wait t).dequeued = true
  signalcount : s.event.hdr.signalcount = 0 ∨ s.event.hdr.signalcount = 1
  exclusive : s.event.hdr.waitblockList ≠ [] → s.event.hdr.signalcount = 0
  arrival : s.event.hdr.waitblockList.Pairwise (fun t u => s.since t < s.since u)
  before : ∀ t ∈ s.event.hdr.waitblockList, s.since t < s.clock
  bound : notif = false →
    s.completed + s.event.hdr.signalcount ≤ (if signaled then 1 else 0) + s.signals

variable {cfg : Config} {notif signaled : Bool} {s s' : EventSys θ} {t : θ} {ts : List θ} {d' d : Disp θ}
  {n r : Int}

theorem Inv.init (h : Init notif signaled s) : Inv notif signaled s := by
  rcases h with ⟨hhdr, hblocked, hsignals, hcompleted⟩
  have hlist : s.event.hdr.waitblockList = [] := by
    rw [hhdr]
    rfl
  have hsig : s.event.hdr.signalcount = if signaled then 1 else 0 := by
    rw [hhdr]
    rfl
  refine ⟨?_, ⟨?_, ?_, ?_⟩, ?_, ?_, ?_, ?_, ?_, ?_, ?_⟩
  . rw [hhdr]
    rfl
  . simp [hlist]
  . rw [hhdr]
    rfl
  . simp [hlist]
  . intro t
    simp [hlist, Waiting, hblocked]
  . intro t ht
    simp [hblocked] at ht
  . rw [hsig]
    cases signaled <;> simp
  . intro hne
    exact absurd hlist hne
  . simp [hlist]
  . simp [hlist]
  . intro _
    simp [hsig, hsignals, hcompleted]

theorem Inv.longest (h : Inv notif signaled s) {u : θ} (hlist : s.event.hdr.waitblockList = t :: ts)
    (hu : s.Waiting u)
    : s.since t ≤ s.since u := by
  have harrival := h.arrival
  have hmem := (h.listed u).mpr hu
  rw [hlist, List.pairwise_cons] at harrival
  rw [hlist, List.mem_cons] at hmem
  rcases hmem with rfl | hmem
  . exact Nat.le_refl _
  . exact Nat.le_of_lt (harrival.1 u hmem)

theorem ended_of_unchanged (h : d.Ok) (hwait : ∀ t ∈ d.hdr.waitblockList, d'.wait t = d.wait t)
    : ended d d' = 0 := by
  unfold ended
  rw [List.countP_eq_zero]
  intro t ht
  simp [hwait t ht, (h.waits t ht).state]

theorem ended_of_handedOver (h : d.Ok) (hlist : d.hdr.waitblockList = t :: ts)
    (hd : Disp.HandedOver d d' t ts)
    : ended d d' = 1 := by
  have hnodup := h.nodup
  rw [hlist, List.nodup_cons] at hnodup
  have hrest : ts.countP (fun u => decide ((d'.wait u).state ≠ .waiting)) = 0 := by
    rw [List.countP_eq_zero]
    intro u hu
    have hut : u ≠ t := by
      rintro rfl
      exact hnodup.1 hu
    simp [hd.other u hut, (h.waits u (by simp [hlist, hu])).state]
  unfold ended
  rw [hlist, List.countP_cons, hrest, hd.self]
  rfl

theorem Inv.handed (h : Inv notif signaled s) (hlist : s.event.hdr.waitblockList = t :: ts)
    (hd : Disp.HandedOver s.event d' t ts)
    : Inv notif signaled { s with
        event := d', signals := s.signals + 1, completed := s.completed + ended s.event d' } := by
  have hnodup := h.disp.nodup
  rw [hlist, List.nodup_cons] at hnodup
  have hts : d'.hdr.waitblockList = ts := by rw [hd.hdr]
  have hsig : d'.hdr.signalcount = s.event.hdr.signalcount := by rw [hd.hdr]
  have hzero : s.event.hdr.signalcount = 0 := h.exclusive (by simp [hlist])
  constructor
  . rw [hd.hdr]
    exact h.type
  . exact hd.ok h.disp hlist
  . intro u
    change u ∈ d'.hdr.waitblockList ↔ s.blocked u = true ∧ (d'.wait u).state = .waiting
    rw [hts]
    by_cases hut : u = t
    . subst hut
      simp [hnodup.1, hd.self]
    . have := h.listed u
      rw [hlist, List.mem_cons] at this
      rw [hd.other u hut]
      simpa [hut, Waiting] using this
  . intro u hblocked hstate
    change (d'.wait u).dequeued = true
    by_cases hut : u = t
    . rw [hut, hd.self]
    . change (d'.wait u).state ≠ .waiting at hstate
      rw [hd.other u hut] at hstate ⊢
      exact h.resumed u hblocked hstate
  . exact hsig ▸ h.signalcount
  . intro _
    exact hsig ▸ hzero
  . have harrival := h.arrival
    rw [hlist, List.pairwise_cons] at harrival
    exact hts ▸ harrival.2
  . intro u hu
    change u ∈ d'.hdr.waitblockList at hu
    rw [hts] at hu
    exact h.before u (by simp [hlist, hu])
  . intro hnotif
    have hbound := h.bound hnotif
    change ((s.completed + ended s.event d' : Nat) : Int) + d'.hdr.signalcount ≤
      (if signaled then 1 else 0) + ((s.signals + 1 : Nat) : Int)
    rw [ended_of_handedOver h.disp hlist hd, hsig]
    push_cast
    omega

theorem Inv.all (h : Inv true signaled s) (hd : Disp.AllHandedOver s.event d') (signals completed : Nat)
    : Inv true signaled { s with
        event := { d' with hdr := { d'.hdr with signalcount := 1 } }
        signals := signals, completed := completed } := by
  have hlist : d'.hdr.waitblockList = [] := by rw [hd.hdr]
  constructor
  . change d'.hdr.type = _
    rw [hd.hdr]
    exact h.type
  . refine ⟨?_, ?_, ?_⟩
    . simp [hlist]
    . simp [hd.hdr]
    . simp [hlist]
  . intro u
    change u ∈ d'.hdr.waitblockList ↔ s.blocked u = true ∧ (d'.wait u).state = .waiting
    rw [hlist]
    by_cases hu : u ∈ s.event.hdr.waitblockList
    . simp [hd.self u hu]
    . have := h.listed u
      rw [hd.other u hu]
      simpa [hu, Waiting] using this
  . intro u hblocked hstate
    change (d'.wait u).dequeued = true
    change (d'.wait u).state ≠ .waiting at hstate
    by_cases hu : u ∈ s.event.hdr.waitblockList
    . rw [hd.self u hu]
    . rw [hd.other u hu] at hstate ⊢
      exact h.resumed u hblocked hstate
  . exact .inr rfl
  . intro hne
    exact absurd hlist hne
  . change d'.hdr.waitblockList.Pairwise _
    simp [hlist]
  . intro u hu
    change u ∈ d'.hdr.waitblockList at hu
    simp [hlist] at hu
  . intro hnotif
    cases hnotif

theorem Inv.setSignalcount (h : Inv notif signaled s) {signals : Nat} (hn : n = 0 ∨ n = 1)
    (hempty : n = 1 → s.event.hdr.waitblockList = [])
    (hbound : n + s.signals ≤ s.event.hdr.signalcount + signals)
    : Inv notif signaled { s with
        event := { s.event with hdr := { s.event.hdr with signalcount := n } }, signals := signals } := by
  refine ⟨h.type, ⟨h.disp.nodup, h.disp.count, h.disp.waits⟩, h.listed, h.resumed, hn, ?_,
    h.arrival, h.before, ?_⟩
  . intro hne
    rcases hn with hn | hn
    . exact hn
    . exact absurd (hempty hn) hne
  . intro hnotif
    have := h.bound hnotif
    change (s.completed : Int) + n ≤ (if signaled then 1 else 0) + (signals : Int)
    omega

theorem Inv.signal (h : Inv notif signaled s) (hout : Disp.SignalOutcome s.event r d')
    : Inv notif signaled { s with
        event := d'
        signals := if r = 0 then s.signals + 1 else s.signals
        completed := s.completed + ended s.event d' } := by
  cases hout with
  | again hsig =>
    rw [ended_of_unchanged h.disp (fun _ _ => rfl)]
    exact h
  | handed _ t ts _ _ hlist hd => exact h.handed hlist hd
  | all d' htype _ hd =>
    have hnotif : notif = true := by
      have := h.type
      rw [htype] at this
      cases notif with
      | true => rfl
      | false => cases this
    subst hnotif
    exact h.all hd _ _
  | set hsig hlist =>
    rw [show ended s.event { s.event with hdr := { s.event.hdr with signalcount := 1 } } = 0 from
      ended_of_unchanged h.disp (fun _ _ => rfl)]
    exact h.setSignalcount (.inr rfl) (fun _ => hlist) (by
      rw [hsig]
      simp
      omega)

theorem Inv.reset (h : Inv notif signaled s)
    : Inv notif signaled { s with event := (eventReset s.event).2 } := by
  refine h.setSignalcount (.inl rfl) ?_ ?_
  . intro hzero
    cases hzero
  . have := h.signalcount
    omega

theorem Inv.consume (h : Inv notif signaled s) (hsig : s.event.hdr.signalcount ≠ 0)
    (hblocked : s.blocked t = false) (hhdr : d'.hdr = { s.event.hdr with signalcount := n })
    (hn : n = 0 ∨ n = 1) (hless : notif = false → n + 1 = s.event.hdr.signalcount)
    (hother : ∀ u, u ≠ t → d'.wait u = s.event.wait u)
    : Inv notif signaled { s with event := d', completed := s.completed + 1 } := by
  have hlist : s.event.hdr.waitblockList = [] := by
    by_contra hne
    exact hsig (h.exclusive hne)
  have hlist' : d'.hdr.waitblockList = [] := by
    rw [hhdr]
    exact hlist
  -- the thread itself is not blocked, and the others are as before
  have hstate : ∀ u, s.blocked u = true → d'.wait u = s.event.wait u := by
    intro u hu
    apply hother
    rintro rfl
    simp [hblocked] at hu
  constructor
  . rw [hhdr]
    exact h.type
  . refine ⟨?_, ?_, ?_⟩
    . simp [hlist']
    . simp [hhdr, h.disp.count]
    . simp [hlist']
  . intro u
    have := h.listed u
    change u ∈ d'.hdr.waitblockList ↔ s.blocked u = true ∧ (d'.wait u).state = .waiting
    rw [hlist']
    rw [hlist] at this
    simp only [List.not_mem_nil, false_iff] at this ⊢
    rintro ⟨hu, hwaiting⟩
    exact this ⟨hu, hstate u hu ▸ hwaiting⟩
  . intro u hu hwaiting
    change (d'.wait u).dequeued = true
    change (d'.wait u).state ≠ .waiting at hwaiting
    rw [hstate u hu] at hwaiting ⊢
    exact h.resumed u hu hwaiting
  . rw [hhdr]
    exact hn
  . intro hne
    exact absurd hlist' hne
  . change d'.hdr.waitblockList.Pairwise _
    simp [hlist']
  . intro u hu
    change u ∈ d'.hdr.waitblockList at hu
    simp [hlist'] at hu
  . intro hnotif
    have hbound := h.bound hnotif
    have := hless hnotif
    change ((s.completed + 1 : Nat) : Int) + d'.hdr.signalcount ≤ _ + (s.signals : Int)
    rw [hhdr]
    push_cast
    omega

structure Completed (w : WaitInfo) : Prop where
  state : w.state = .ready
  status : w.waitStatus = statusRangeWait + 0
  dequeued : w.dequeued = true

theorem Inv.auto (h : Inv false signaled s) (hout : Disp.SignalOutcome s.event 0 d')
    : (∃ t, s.Waiting t ∧ (∀ u, s.Waiting u → s.since t ≤ s.since u) ∧ Completed (d'.wait t) ∧
        (∀ u, u ≠ t → d'.wait u = s.event.wait u) ∧ d'.hdr.signalcount = 0) ∨
      ((∀ u, ¬ s.Waiting u) ∧ d'.wait = s.event.wait ∧ d'.hdr.signalcount = 1) := by
  cases hout with
  | handed _ t ts _ hsig hlist hd =>
    left
    refine ⟨t, (h.listed t).mp (by simp [hlist]), fun u hu => h.longest hlist hu, ?_, hd.other, ?_⟩
    . rw [hd.self]
      exact ⟨rfl, rfl, rfl⟩
    . rw [hd.hdr]
      exact hsig
  | all _ htype _ _ =>
    have := h.type
    rw [htype] at this
    cases this
  | set _ hlist =>
    right
    refine ⟨?_, rfl, rfl⟩
    intro u hu
    have := (h.listed u).mpr hu
    simp [hlist] at this

theorem Inv.notify (h : Inv true signaled s) (hout : Disp.SignalOutcome s.event r d')
    : (∀ t, s.Waiting t → Completed (d'.wait t)) ∧ d'.hdr.waitblockList = [] ∧
        d'.hdr.signalcount = 1 := by
  have hnobody : s.event.hdr.waitblockList = [] → ∀ t, ¬ s.Waiting t := by
    intro hlist t ht
    have := (h.listed t).mpr ht
    simp [hlist] at this
  cases hout with
  | again hsig =>
    have hlist : s.event.hdr.waitblockList = [] := by
      by_contra hne
      exact hsig (h.exclusive hne)
    exact ⟨fun t ht => absurd ht (hnobody hlist t), hlist, h.signalcount.resolve_left hsig⟩
  | handed _ t ts htype _ _ _ => exact absurd h.type htype
  | all d1 _ _ hd =>
    refine ⟨?_, ?_, rfl⟩
    . intro t ht
      change Completed (d1.wait t)
      rw [hd.self t ((h.listed t).mpr ht)]
      exact ⟨rfl, rfl, rfl⟩
    . change d1.hdr.waitblockList = []
      rw [hd.hdr]
  | set _ hlist => exact ⟨fun t ht => absurd ht (hnobody hlist t), hlist, rfl⟩

variable [DecidableEq θ]

theorem Inv.enqueue (h : Inv notif signaled s) (hsig : s.event.hdr.signalcount = 0)
    (hblocked : s.blocked t = false) (hhdr : d'.hdr = { s.event.hdr with
      waitblockList := s.event.hdr.waitblockList ++ [t]
      waitercount := s.event.hdr.waitercount + 1 }) (hself : Disp.Waits (d'.wait t))
    (hother : ∀ u, u ≠ t → d'.wait u = s.event.wait u)
    : Inv notif signaled { s with
        event := d'
        blocked := Function.update s.blocked t true
        since := Function.update s.since t s.clock
        clock := s.clock + 1 } := by
  have hnot : t ∉ s.event.hdr.waitblockList := by
    rw [h.listed]
    simp [Waiting, hblocked]
  have hlist : d'.hdr.waitblockList = s.event.hdr.waitblockList ++ [t] := by rw [hhdr]
  have hsince : ∀ u ∈ s.event.hdr.waitblockList,
      Function.update s.since t s.clock u = s.since u := by
    intro u hu
    apply Function.update_of_ne
    rintro rfl
    exact hnot hu
  constructor
  . rw [hhdr]
    exact h.type
  . exact h.disp.enqueue hnot hhdr hself hother
  . intro u
    change u ∈ d'.hdr.waitblockList ↔
      Function.update s.blocked t true u = true ∧ (d'.wait u).state = .waiting
    rw [hlist, List.mem_append, List.mem_singleton]
    by_cases hut : u = t
    . subst hut
      simp [hself.state]
    . rw [Function.update_of_ne hut, hother u hut, h.listed u]
      simp [hut, Waiting]
  . intro u hu hstate
    change (d'.wait u).dequeued = true
    change (d'.wait u).state ≠ .waiting at hstate
    by_cases hut : u = t
    . subst hut
      exact absurd hself.state hstate
    . change Function.update s.blocked t true u = true at hu
      rw [Function.update_of_ne hut] at hu
      rw [hother u hut] at hstate ⊢
      exact h.resumed u hu hstate
  . rw [hhdr]
    exact h.signalcount
  . intro _
    rw [hhdr]
    exact hsig
  . change d'.hdr.waitblockList.Pairwise
      (fun u v => Function.update s.since t s.clock u < Function.update s.since t s.clock v)
    rw [hlist, List.pairwise_append]
    refine ⟨?_, List.pairwise_singleton _ _, ?_⟩
    . apply h.arrival.imp_of_mem
      intro u v hu hv huv
      rwa [hsince u hu, hsince v hv]
    . intro u hu v hv
      rw [List.mem_singleton] at hv
      rw [hsince u hu, hv, Function.update_self]
      exact h.before u hu
  . intro u hu
    change Function.update s.since t s.clock u < s.clock + 1
    change u ∈ d'.hdr.waitblockList at hu
    rw [hlist, List.mem_append, List.mem_singleton] at hu
    rcases hu with hu | rfl
    . rw [hsince u hu]
      exact Nat.lt_succ_of_lt (h.before u hu)
    . rw [Function.update_self]
      exact Nat.lt_succ_self _
  . intro hnotif
    have := h.bound hnotif
    change (s.completed : Int) + d'.hdr.signalcount ≤ _
    rw [hhdr]
    exact this

theorem Inv.resume (h : Inv notif signaled s) (hstate : (s.event.wait t).state ≠ .waiting)
    : Inv notif signaled { s with blocked := Function.update s.blocked t false } := by
  refine ⟨h.type, h.disp, ?_, ?_, h.signalcount, h.exclusive, h.arrival, h.before, h.bound⟩
  . intro u
    rw [h.listed u]
    unfold Waiting
    by_cases hut : u = t
    . subst hut
      simp [hstate]
    . simp [hut]
  . intro u hu
    change Function.update s.blocked t false u = true at hu
    by_cases hut : u = t
    . subst hut
      simp at hu
    . rw [Function.update_of_ne hut] at hu
      exact h.resumed u hu

theorem Inv.step {op : EventOp θ} (h : Inv notif signaled s) (hstep : Step cfg s op s')
    : Inv notif signaled s' := by
  rcases hstep with ⟨henabled, he⟩
  cases op with
  | signal =>
    rcases h.disp.signalOutcome cfg with ⟨r, d', heq, hout⟩
    unfold EventSys.step at he
    dsimp only at he
    rw [heq] at he
    cases he
    exact h.signal hout
  | reset =>
    cases he
    exact h.reset
  | wait t =>
    unfold EventSys.step at he
    dsimp only at he
    by_cases hsig : s.event.hdr.signalcount = 0
    . rcases Disp.schedWaitSingle_of_not_signaled t hsig with ⟨d', heq, hhdr, hself, hother⟩
      rw [heq] at he
      cases he
      exact h.enqueue hsig henabled hhdr hself hother
    . have hone := h.signalcount.resolve_left hsig
      by_cases htype : s.event.hdr.type = .eventNotif
      . rcases Disp.schedWaitSingle_of_notif t hsig htype with ⟨d', heq, hhdr, hother⟩
        rw [heq] at he
        cases he
        have hnotif : notif ≠ false := by
          rintro rfl
          have := h.type
          rw [htype] at this
          cases this
        refine h.consume (n := 1) hsig henabled ?_ (.inr rfl) (fun hn => absurd hn hnotif) hother
        rw [hhdr, ← hone]
      . rcases Disp.schedWaitSingle_of_signaled t hsig htype with ⟨d', heq, hhdr, hother⟩
        rw [heq] at he
        cases he
        refine h.consume (n := 0) hsig henabled ?_ (.inl rfl) ?_ hother
        . rw [hhdr, hone]
          rfl
        . intro _
          exact hone.symm
  | resume t =>
    unfold EventSys.step at he
    dsimp only at he
    rw [Disp.waitReturn_of_dequeued (h.resumed t henabled.1 henabled.2)] at he
    cases he
    exact h.resume henabled.2

structure Semantics (cfg : Config) (notif signaled : Bool) (s : EventSys θ) : Prop where
  signalcount : s.event.hdr.signalcount = 0 ∨ s.event.hdr.signalcount = 1
  exclusive : s.event.hdr.waitblockList ≠ [] → s.event.hdr.signalcount = 0
  queued : ∀ t, t ∈ s.event.hdr.waitblockList ↔ s.Waiting t
  returns : ∃ r d', eventSignal cfg s.event = .ok (r, d')
  auto : notif = false → ∀ d', eventSignal cfg s.event = .ok (0, d') →
    (∃ t, s.Waiting t ∧ (∀ u, s.Waiting u → s.since t ≤ s.since u) ∧ Completed (d'.wait t) ∧
      (∀ u, u ≠ t → d'.wait u = s.event.wait u) ∧ d'.hdr.signalcount = 0) ∨
    ((∀ u, ¬ s.Waiting u) ∧ d'.wait = s.event.wait ∧ d'.hdr.signalcount = 1)
  notify : notif = true → ∀ r d', eventSignal cfg s.event = .ok (r, d') →
    (∀ t, s.Waiting t → Completed (d'.wait t)) ∧ d'.hdr.waitblockList = [] ∧
      d'.hdr.signalcount = 1
  bound : notif = false → s.completed ≤ (if signaled then 1 else 0) + s.signals

theorem event_semantics (cfg : Config) (notif signaled : Bool) {s : EventSys θ}
    (hr : Reach (Init notif signaled) (Step cfg) s)
    : Semantics cfg notif signaled s := by
  have h : Inv notif signaled s :=
    hr.invariant (fun s hs => Inv.init hs) (fun s op s' h hstep => h.step hstep)
  rcases h.disp.signalOutcome cfg with ⟨r, d, heq, hout⟩
  constructor
  . exact h.signalcount
  . exact h.exclusive
  . exact h.listed
  . exact ⟨r, d, heq⟩
  . rintro rfl d' he
    rw [heq] at he
    cases he
    exact h.auto hout
  . rintro rfl r' d' he
    rw [heq] at he
    cases he
    exact h.notify hout
  . intro hnotif
    have hbound := h.bound hnotif
    have hsig := h.signalcount
    cases signaled with
    | true =>
      simp only [if_true] at hbound ⊢
      omega
    | false =>
      simp only [Bool.false_eq_true, if_false] at hbound ⊢
      omega

def twoThreads : EventSys Bool :=
  ⟨⟨eventInit false false, fun _ => ⟨.running, statusOk, 0, false, false⟩⟩, fun _ => false,
    fun _ => 0, 0, 0, 0⟩

theorem event_semantics_waiter
    : ∃ s : EventSys Bool, Reach (Init false false) (Step ⟨false⟩) s ∧ s.Waiting true ∧
        Semantics ⟨false⟩ false false s := by
  have h0 : Reach (Init false false) (Step ⟨false⟩) twoThreads :=
    .start ⟨rfl, fun _ => rfl, rfl, rfl⟩
  have h1 := h0.next (e := EventOp.wait true) ⟨rfl, rfl⟩
  exact ⟨_, h1, ⟨rfl, rfl⟩, event_semantics ⟨false⟩ false false h1⟩

end EventSys
end Nyy
