import NyyKernel.Dispatch.Impl

namespace Nyy
namespace Disp

variable {θ : Type} [DecidableEq θ] {t : θ} {d d' : Disp θ} {ts : List θ} {cfg : Config} {all : Bool}
  {e : Fault} {status : Int}

structure Waits (w : WaitInfo) : Prop where
  state : w.state = .waiting
  status : w.waitStatus = statusWaiting
  count : w.waitCount = 1
  dequeued : w.dequeued = false
  unwaited : w.unwaited = false

structure Ok (d : Disp θ) : Prop where
  nodup : d.hdr.waitblockList.Nodup
  count : d.hdr.waitercount = d.hdr.waitblockList.length
  waits : ∀ t ∈ d.hdr.waitblockList, Waits (d.wait t)

omit [DecidableEq θ] in
theorem Ok.of_empty {d : Disp θ} (hlist : d.hdr.waitblockList = []) (hcount : d.hdr.waitercount = 0)
    : d.Ok := by
  refine ⟨by simp [hlist], by simp [hlist, hcount], by simp [hlist]⟩

@[simp]
theorem setWait_self (d : Disp θ) (t : θ) (w : WaitInfo) : (d.setWait t w).wait t = w := by
  simp [setWait]

theorem setWait_of_ne (d : Disp θ) {u : θ} (w : WaitInfo) (h : u ≠ t)
    : (d.setWait t w).wait u = d.wait u := by
  simp [setWait, h]

@[simp]
theorem setWait_hdr (d : Disp θ) (t : θ) (w : WaitInfo) : (d.setWait t w).hdr = d.hdr := by
  rfl

theorem waitSection_cases (d : Disp θ) (t : θ)
    : ∃ d', (∀ u, u ≠ t → d'.wait u = d.wait u) ∧
        ((waitSection d t = (true, d') ∧ d.hdr.signalcount ≠ 0 ∧
            d'.hdr.waitblockList = d.hdr.waitblockList ∧
            d'.hdr.waitercount = d.hdr.waitercount ∧ (d'.wait t).state = (d.wait t).state) ∨
          (waitSection d t = (false, d') ∧ d.hdr.signalcount = 0 ∧
            d'.hdr = { d.hdr with
              waitblockList := d.hdr.waitblockList ++ [t]
              waitercount := d.hdr.waitercount + 1 } ∧
            d'.wait t = ⟨(d.wait t).state, statusWaiting, 1, false, false⟩)) := by
  unfold waitSection
  simp only [setWait_hdr]
  by_cases hsig : d.hdr.signalcount = 0
  . rw [if_neg (show ¬ d.hdr.signalcount ≠ 0 from not_not_intro hsig)]
    refine ⟨_, ?_, .inr ⟨rfl, hsig, rfl, setWait_self ..⟩⟩
    intro u hu
    exact setWait_of_ne _ _ hu
  . rw [if_pos hsig]
    refine ⟨_, ?_, .inl ⟨rfl, hsig, ?_, ?_, ?_⟩⟩
    . intro u hu
      exact (setWait_of_ne _ _ hu).trans (setWait_of_ne _ _ hu)
    . rw [setWait_hdr]
      dsimp only
      split <;> rfl
    . rw [setWait_hdr]
      dsimp only
      split <;> rfl
    . simp only [setWait_self]

theorem schedWaitSingle_of_signaled (t : θ) (h : d.hdr.signalcount ≠ 0) (htype : d.hdr.type ≠ .eventNotif)
    : ∃ d', schedWaitSingle d t = (true, d') ∧
        d'.hdr = { d.hdr with signalcount := d.hdr.signalcount - 1 } ∧
        (∀ u, u ≠ t → d'.wait u = d.wait u) := by
  unfold schedWaitSingle waitSection
  simp only [setWait_hdr, if_pos h, if_pos htype]
  refine ⟨_, rfl, rfl, ?_⟩
  intro u hu
  exact (setWait_of_ne _ _ hu).trans (setWait_of_ne _ _ hu)

theorem schedWaitSingle_of_notif (t : θ) (h : d.hdr.signalcount ≠ 0) (htype : d.hdr.type = .eventNotif)
    : ∃ d', schedWaitSingle d t = (true, d') ∧ d'.hdr = d.hdr ∧
        (∀ u, u ≠ t → d'.wait u = d.wait u) := by
  unfold schedWaitSingle waitSection
  simp only [setWait_hdr, if_pos h, htype, ne_eq, not_true_eq_false, if_false]
  refine ⟨_, rfl, rfl, ?_⟩
  intro u hu
  exact (setWait_of_ne _ _ hu).trans (setWait_of_ne _ _ hu)

theorem schedWaitSingle_of_not_signaled (t : θ) (h : d.hdr.signalcount = 0)
    : ∃ d', schedWaitSingle d t = (false, d') ∧
        d'.hdr = { d.hdr with
          waitblockList := d.hdr.waitblockList ++ [t]
          waitercount := d.hdr.waitercount + 1 } ∧
        Waits (d'.wait t) ∧ (∀ u, u ≠ t → d'.wait u = d.wait u) := by
  unfold schedWaitSingle waitSection
  simp only [setWait_hdr, h, ne_eq, not_true_eq_false, if_false]
  refine ⟨_, rfl, rfl, ?_, ?_⟩
  . unfold waitBlock
    simp only [setWait_self]
    exact ⟨rfl, rfl, rfl, rfl, rfl⟩
  . intro u hu
    exact (setWait_of_ne _ _ hu).trans (setWait_of_ne _ _ hu)

theorem schedWaitSingle_cases (d : Disp θ) (t : θ)
    : (∀ u, u ≠ t → (schedWaitSingle d t).2.wait u = d.wait u) ∧
        (((schedWaitSingle d t).2.hdr.waitblockList = d.hdr.waitblockList ∧
            (schedWaitSingle d t).2.hdr.waitercount = d.hdr.waitercount) ∨
          ((schedWaitSingle d t).2.hdr = { d.hdr with
              waitblockList := d.hdr.waitblockList ++ [t]
              waitercount := d.hdr.waitercount + 1 } ∧
            Waits ((schedWaitSingle d t).2.wait t))) := by
  by_cases hsig : d.hdr.signalcount = 0
  . rcases schedWaitSingle_of_not_signaled t hsig with ⟨d', heq, hhdr, hwaits, hother⟩
    rw [heq]
    exact ⟨hother, .inr ⟨hhdr, hwaits⟩⟩
  . by_cases htype : d.hdr.type = .eventNotif
    . rcases schedWaitSingle_of_notif t hsig htype with ⟨d', heq, hhdr, hother⟩
      rw [heq]
      exact ⟨hother, .inl (by simp [hhdr])⟩
    . rcases schedWaitSingle_of_signaled t hsig htype with ⟨d', heq, hhdr, hother⟩
      rw [heq]
      exact ⟨hother, .inl (by simp [hhdr])⟩

theorem Ok.enqueue (h : d.Ok) (ht : t ∉ d.hdr.waitblockList) (hhdr : d'.hdr = { d.hdr with
      waitblockList := d.hdr.waitblockList ++ [t]
      waitercount := d.hdr.waitercount + 1 }) (hself : Waits (d'.wait t))
    (hother : ∀ u, u ≠ t → d'.wait u = d.wait u)
    : d'.Ok := by
  constructor
  . rw [hhdr]
    dsimp only
    rw [← List.concat_eq_append]
    exact h.nodup.concat ht
  . rw [hhdr]
    simp [h.count]
  . intro u hu
    rw [hhdr] at hu
    simp only [List.mem_append, List.mem_singleton] at hu
    by_cases hut : u = t
    . exact hut ▸ hself
    . rw [hother u hut]
      exact h.waits u (hu.resolve_right hut)

structure HandedOver (d d' : Disp θ) (t : θ) (ts : List θ) : Prop where
  hdr : d'.hdr = { d.hdr with waitblockList := ts, waitercount := d.hdr.waitercount - 1 }
  self : d'.wait t = ⟨.ready, statusRangeWait + 0, 1, true, true⟩
  other : ∀ u, u ≠ t → d'.wait u = d.wait u

def handed (d : Disp θ) (t : θ) (ts : List θ) : Disp θ :=
  ⟨{ d.hdr with waitblockList := ts, waitercount := d.hdr.waitercount - 1 },
    Function.update d.wait t ⟨.ready, statusRangeWait + 0, 1, true, true⟩⟩

theorem handedOver_handed (d : Disp θ) (t : θ) (ts : List θ) : HandedOver d (handed d t ts) t ts := by
  refine ⟨rfl, ?_, ?_⟩
  . simp [handed]
  . intro u hu
    simp [handed, hu]

theorem Waits.satisfyRound (cfg : Config) (all : Bool) (hw : Waits (d.wait t))
    (hlist : d.hdr.waitblockList = t :: ts)
    : Nyy.satisfyRound cfg all d t = .ok (all, handed d t ts) := by
  have hcheck : check cfg ((1 : Int) != -1) = .ok () := check_of cfg (by decide)
  have hstate : Disp.setWait
      ⟨{ d.hdr with waitblockList := ts, waitercount := d.hdr.waitercount - 1 },
        (d.setWait t ⟨.waiting, statusWaiting, 1, true, false⟩).wait⟩ t
        ⟨.ready, statusRangeWait + 0, 1, true, true⟩ = handed d t ts := by
    simp [setWait, handed]
  unfold Nyy.satisfyRound schedUnwait
  simp only [hw.count, hw.unwaited, hw.state, hw.status, setWait_self, setWait_hdr, hlist,
    List.erase_cons_head, hcheck, beq_self_eq_true, check_true, Except.ok_bind, ne_eq,
    not_true_eq_false, Bool.false_eq_true, if_false, pure_bind, hstate]
  rfl

theorem Ok.objSatisfyList_cons (cfg : Config) (all : Bool) (h : d.Ok)
    (hlist : d.hdr.waitblockList = t :: ts)
    : objSatisfyList cfg all d (t :: ts) =
        if all then objSatisfyList cfg all (handed d t ts) ts else .ok (handed d t ts) := by
  rw [objSatisfyList, (h.waits t (by simp [hlist])).satisfyRound cfg all hlist]
  rfl

theorem schedUnwait_eq_ok (h : schedUnwait cfg d t status = .ok d')
    : check cfg ((d.wait t).state == .waiting) = .ok () ∧
        (((d.wait t).waitStatus ≠ statusWaiting ∧ d' = d) ∨
          ((d.wait t).waitStatus = statusWaiting ∧ d' = d.setWait t { d.wait t with
            waitStatus := status, unwaited := true, state := .ready })) := by
  unfold schedUnwait at h
  rcases Except.bind_eq_ok h with ⟨_, hcheck, h⟩
  refine ⟨hcheck, ?_⟩
  split at h
  . next hstatus =>
    cases h
    exact .inl ⟨hstatus, rfl⟩
  . next hstatus =>
    cases h
    exact .inr ⟨by simpa using hstatus, rfl⟩

theorem satisfyRound_eq_ok {more : Bool} (h : satisfyRound cfg all d t = .ok (more, d'))
    : d'.hdr = { d.hdr with
          waitblockList := d.hdr.waitblockList.erase t, waitercount := d.hdr.waitercount - 1 } ∧
        (d'.wait t).dequeued = true ∧ ∀ u, u ≠ t → d'.wait u = d.wait u := by
  unfold satisfyRound at h
  rcases Except.bind_eq_ok h with ⟨_, _, h⟩
  dsimp only at h
  split at h
  . cases h
    refine ⟨rfl, ?_, fun u hu => setWait_of_ne _ _ hu⟩
    rw [setWait_self]
  . rcases Except.bind_eq_ok h with ⟨d1, hunwait, h⟩
    cases h
    rcases (schedUnwait_eq_ok hunwait).2 with ⟨_, rfl⟩ | ⟨_, rfl⟩
    . refine ⟨rfl, ?_, fun u hu => setWait_of_ne _ _ hu⟩
      rw [setWait_self]
    . refine ⟨rfl, ?_, ?_⟩
      . simp only [setWait_self]
      . intro u hu
        exact (setWait_of_ne _ _ hu).trans (setWait_of_ne _ _ hu)

theorem schedUnwait_error (h : schedUnwait cfg d t status = .error e) : e = .assertion := by
  unfold schedUnwait at h
  rcases check_cases cfg ((d.wait t).state == .waiting) with hcheck | hcheck
  . rw [hcheck, Except.ok_bind] at h
    split at h <;> cases h
  . rw [hcheck] at h
    cases h
    rfl

theorem satisfyRound_error (h : satisfyRound cfg all d t = .error e) : e = .assertion := by
  unfold satisfyRound at h
  rcases check_cases cfg ((d.wait t).waitCount != -1) with hcheck | hcheck
  . rw [hcheck, Except.ok_bind] at h
    dsimp only at h
    split at h
    . cases h
    . generalize hd : (Disp.mk _ _ : Disp θ) = d1 at h
      cases hunwait : schedUnwait cfg d1 t (statusRangeWait + 0) with
      | ok d2 =>
        rw [hunwait] at h
        cases h
      | error e1 =>
        rw [hunwait] at h
        cases h
        exact schedUnwait_error hunwait
  . rw [hcheck] at h
    cases h
    rfl

theorem objSatisfyList_error {l : List θ} (h : objSatisfyList cfg all d l = .error e)
    : e = .assertion := by
  induction l generalizing d with
  | nil => cases h
  | cons t ts ih =>
    rw [objSatisfyList] at h
    cases hround : satisfyRound cfg all d t with
    | error e1 =>
      rw [hround] at h
      cases h
      exact satisfyRound_error hround
    | ok r =>
      rw [hround, Except.ok_bind] at h
      dsimp only at h
      split at h
      . exact ih h
      . cases h

theorem waitTimerExp_eq_ok (h : waitTimerExp cfg d t = .ok d')
    : d'.hdr = d.hdr ∧ (d'.wait t).dequeued = (d.wait t).dequeued ∧
        ∀ u, u ≠ t → d'.wait u = d.wait u := by
  unfold waitTimerExp at h
  split at h
  . cases h
    exact ⟨rfl, rfl, fun _ _ => rfl⟩
  . rcases (schedUnwait_eq_ok h).2 with ⟨_, rfl⟩ | ⟨_, rfl⟩
    . exact ⟨rfl, rfl, fun _ _ => rfl⟩
    . refine ⟨rfl, ?_, fun u hu => setWait_of_ne _ _ hu⟩
      rw [setWait_self]

theorem Ok.objSatisfy (cfg : Config) (h : d.Ok) (hlist : d.hdr.waitblockList = t :: ts)
    : ∃ d', objSatisfy cfg d false = .ok d' ∧ HandedOver d d' t ts := by
  refine ⟨handed d t ts, ?_, handedOver_handed d t ts⟩
  unfold Nyy.objSatisfy
  rw [hlist, h.objSatisfyList_cons cfg false hlist]
  rfl

omit [DecidableEq θ] in
theorem HandedOver.ok (h : d.Ok) (hlist : d.hdr.waitblockList = t :: ts) (hd : HandedOver d d' t ts)
    : d'.Ok := by
  have hnodup := h.nodup
  rw [hlist, List.nodup_cons] at hnodup
  constructor
  . rw [hd.hdr]
    exact hnodup.2
  . rw [hd.hdr]
    simp [h.count, hlist]
  . intro u hu
    rw [hd.hdr] at hu
    have hut : u ≠ t := by
      rintro rfl
      exact hnodup.1 hu
    rw [hd.other u hut]
    exact h.waits u (by simp [hlist, hu])

structure AllHandedOver (d d' : Disp θ) : Prop where
  hdr : d'.hdr = { d.hdr with waitblockList := [], waitercount := 0 }
  self : ∀ t ∈ d.hdr.waitblockList, d'.wait t = ⟨.ready, statusRangeWait + 0, 1, true, true⟩
  other : ∀ t, t ∉ d.hdr.waitblockList → d'.wait t = d.wait t

theorem Ok.objSatisfyAll (cfg : Config) (h : d.Ok)
    : ∃ d', Nyy.objSatisfy cfg d true = .ok d' ∧ AllHandedOver d d' := by
  unfold Nyy.objSatisfy
  generalize hlist : d.hdr.waitblockList = l
  induction l generalizing d with
  | nil =>
    have hcount := h.count
    refine ⟨d, rfl, ?_, by simp [hlist], fun _ _ => rfl⟩
    rw [hlist] at hcount
    rw [← hlist, ← show d.hdr.waitercount = 0 from hcount]
  | cons t ts ih =>
    have hround := h.objSatisfyList_cons cfg true hlist
    have hover := handedOver_handed d t ts
    generalize handed d t ts = d1 at hround hover
    have hlist1 : d1.hdr.waitblockList = ts := by rw [hover.hdr]
    have hnodup := h.nodup
    rw [hlist, List.nodup_cons] at hnodup
    rcases ih (hover.ok h hlist) hlist1 with ⟨d2, hd2, hall⟩
    refine ⟨d2, hround.trans hd2, ?_, ?_, ?_⟩
    . rw [hall.hdr, hover.hdr]
    . intro u hu
      rw [hlist, List.mem_cons] at hu
      rcases hu with rfl | hu
      . rw [hall.other u (by rw [hlist1]; exact hnodup.1), hover.self]
      . exact hall.self u (by rwa [hlist1])
    . intro u hu
      rw [hlist, List.mem_cons, not_or] at hu
      rw [hall.other u (by rw [hlist1]; exact hu.2), hover.other u hu.1]

inductive SignalOutcome (d : Disp θ) : Int → Disp θ → Prop where
  | again (hsig : d.hdr.signalcount ≠ 0) : SignalOutcome d 1 d
  | handed (d' : Disp θ) (t : θ) (ts : List θ) (htype : d.hdr.type ≠ .eventNotif)
      (hsig : d.hdr.signalcount = 0) (hlist : d.hdr.waitblockList = t :: ts)
      (hd : HandedOver d d' t ts) : SignalOutcome d 0 d'
  | all (d' : Disp θ) (htype : d.hdr.type = .eventNotif) (hsig : d.hdr.signalcount = 0)
      (hd : AllHandedOver d d')
      : SignalOutcome d 0 { d' with hdr := { d'.hdr with signalcount := 1 } }
  | set (hsig : d.hdr.signalcount = 0) (hlist : d.hdr.waitblockList = [])
      : SignalOutcome d 0 { d with hdr := { d.hdr with signalcount := 1 } }

theorem Ok.signalOutcome (cfg : Config) (h : d.Ok)
    : ∃ r d', eventSignal cfg d = .ok (r, d') ∧ SignalOutcome d r d' := by
  unfold Nyy.eventSignal
  by_cases hsig : d.hdr.signalcount = 0
  . rw [if_neg (by simpa using hsig)]
    cases hlist : d.hdr.waitblockList with
    | nil =>
      have hcount : d.hdr.waitercount = 0 := by simp [h.count, hlist]
      rw [if_neg (by simpa using hcount)]
      exact ⟨_, _, rfl, .set hsig hlist⟩
    | cons t ts =>
      have hcount : d.hdr.waitercount ≠ 0 := by
        rw [h.count, hlist, List.length_cons]
        omega
      rw [if_pos hcount]
      by_cases htype : d.hdr.type = .eventNotif
      . rw [if_pos htype]
        rcases h.objSatisfyAll cfg with ⟨d', heq, hd⟩
        rw [heq]
        exact ⟨_, _, rfl, .all d' htype hsig hd⟩
      . rw [if_neg htype]
        rcases h.objSatisfy cfg hlist with ⟨d', heq, hd⟩
        rw [heq]
        exact ⟨_, _, rfl, .handed d' t ts htype hsig hlist hd⟩
  . rw [if_pos hsig]
    exact ⟨_, _, rfl, .again hsig⟩

inductive Signaled (d d' : Disp θ) : Prop where
  | again (hsig : d.hdr.signalcount ≠ 0) (heq : d' = d)
  | handed (t : θ) (ts : List θ) (hsig : d.hdr.signalcount = 0)
      (hlist : d.hdr.waitblockList = t :: ts) (hd : HandedOver d d' t ts)
  | set (hsig : d.hdr.signalcount = 0) (hlist : d.hdr.waitblockList = [])
      (heq : d' = { d with hdr := { d.hdr with signalcount := 1 } })

theorem Ok.eventSignal (cfg : Config) (h : d.Ok) (htype : d.hdr.type = .event)
    : ∃ r d', eventSignal cfg d = .ok (r, d') ∧ Signaled d d' := by
  rcases h.signalOutcome cfg with ⟨r, d', heq, hout⟩
  refine ⟨r, d', heq, ?_⟩
  cases hout with
  | again hsig => exact .again hsig rfl
  | handed _ t ts _ hsig hlist hd => exact .handed t ts hsig hlist hd
  | all _ hnotif _ _ => simp [htype] at hnotif
  | set hsig hlist => exact .set hsig hlist rfl

theorem waitReturn_cases (h : (d.wait t).dequeued = false →
      d.hdr.waitercount ≠ 0)
    : ∃ d', waitReturn d t = .ok ((d.wait t).waitStatus, d') ∧ d'.wait = d.wait ∧
        (((d.wait t).dequeued = true ∧ d' = d) ∨
          ((d.wait t).dequeued = false ∧ d'.hdr = { d.hdr with
            waitblockList := d.hdr.waitblockList.erase t
            waitercount := d.hdr.waitercount - 1 })) := by
  unfold waitReturn dequeueWb
  cases hflag : (d.wait t).dequeued with
  | true => exact ⟨d, rfl, rfl, .inl ⟨rfl, rfl⟩⟩
  | false =>
    rw [if_neg Bool.false_ne_true, if_neg (h hflag)]
    exact ⟨_, rfl, rfl, .inr ⟨rfl, rfl⟩⟩

theorem waitReturn_of_dequeued (h : (d.wait t).dequeued = true)
    : waitReturn d t = .ok ((d.wait t).waitStatus, d) := by
  unfold waitReturn dequeueWb
  rw [if_pos h]
  rfl

end Disp
end Nyy
