import NyyKernel.Dispatch.Lemmas

namespace Nyy
namespace Disp

variable {θ : Type} [DecidableEq θ] {d : Disp θ} {t : θ} {ts : List θ}

structure TimedOut (w : WaitInfo) : Prop where
  status : w.waitStatus = statusTimeout
  count : w.waitCount = 1
  dequeued : w.dequeued = false
  unwaited : w.unwaited = true

structure Mixed (d : Disp θ) : Prop where
  nodup : d.hdr.waitblockList.Nodup
  count : d.hdr.waitercount = d.hdr.waitblockList.length
  blocks : ∀ t ∈ d.hdr.waitblockList, Waits (d.wait t) ∨ TimedOut (d.wait t)

def skipped (d : Disp θ) (t : θ) (ts : List θ) : Disp θ :=
  ⟨{ d.hdr with waitblockList := ts, waitercount := d.hdr.waitercount - 1 },
    Function.update d.wait t { d.wait t with dequeued := true }⟩

theorem TimedOut.satisfyRound (cfg : Config) (all : Bool) (hw : TimedOut (d.wait t))
    (hlist : d.hdr.waitblockList = t :: ts)
    : Nyy.satisfyRound cfg all d t = .ok (true, skipped d t ts) := by
  have hcheck : check cfg ((d.wait t).waitCount != -1) = .ok () := by
    apply check_of
    rw [hw.count]
    rfl
  unfold Nyy.satisfyRound
  simp only [hcheck, Except.ok_bind, setWait_self, setWait_hdr, hlist, List.erase_cons_head]
  rw [if_pos hw.unwaited]
  rfl

theorem Mixed.skipped (h : d.Mixed) (hlist : d.hdr.waitblockList = t :: ts)
    : (d.skipped t ts).Mixed := by
  have hnodup := h.nodup
  rw [hlist, List.nodup_cons] at hnodup
  constructor
  . exact hnodup.2
  . have hcount := h.count
    rw [hlist, List.length_cons] at hcount
    show d.hdr.waitercount - 1 = ts.length
    omega
  . intro u hu
    have hut : u ≠ t := by
      rintro rfl
      exact hnodup.1 hu
    have hother : (d.skipped t ts).wait u = d.wait u := Function.update_of_ne hut ..
    rw [hother]
    exact h.blocks u (hlist ▸ List.mem_cons_of_mem _ hu)

structure OnlyWakes (d d' : Disp θ) (t : θ) : Prop where
  self : d'.wait t = ⟨.ready, statusRangeWait + 0, 1, true, true⟩
  state : ∀ u, u ≠ t → (d'.wait u).state = (d.wait u).state
  status : ∀ u, u ≠ t → (d'.wait u).waitStatus = (d.wait u).waitStatus
  unwaited : ∀ u, u ≠ t → (d'.wait u).unwaited = (d.wait u).unwaited

def FirstLive (d : Disp θ) (t : θ) : Prop :=
  ∃ stale rest, d.hdr.waitblockList = stale ++ t :: rest ∧
    (∀ u ∈ stale, (d.wait u).unwaited = true) ∧ (d.wait t).unwaited = false

theorem FirstLive.of_skipped {u : θ} (hnodup : d.hdr.waitblockList.Nodup)
    (hlist : d.hdr.waitblockList = t :: ts) (ht : (d.wait t).unwaited = true)
    (h : (d.skipped t ts).FirstLive u)
    : d.FirstLive u := by
  rcases h with ⟨stale, rest, hrest, hstale, hu⟩
  have hts : ts = stale ++ u :: rest := hrest
  rw [hlist, List.nodup_cons] at hnodup
  have hsame : ∀ v ∈ ts, (d.skipped t ts).wait v = d.wait v := by
    intro v hv
    apply Function.update_of_ne
    rintro rfl
    exact hnodup.1 hv
  refine ⟨t :: stale, rest, ?_, ?_, ?_⟩
  . rw [hlist, hts]
    rfl
  . intro v hv
    rcases List.mem_cons.mp hv with rfl | hv
    . exact ht
    . rw [← hsame v (by simp [hts, hv])]
      exact hstale v hv
  . rw [← hsame u (by simp [hts])]
    exact hu

theorem Mixed.objSatisfy (cfg : Config) (h : d.Mixed)
    : ∃ d', objSatisfyList cfg false d d.hdr.waitblockList = .ok d' ∧
        d'.hdr.signalcount = d.hdr.signalcount ∧
        ((∃ t, d.FirstLive t ∧ OnlyWakes d d' t) ∨
          ((∀ t ∈ d.hdr.waitblockList, (d.wait t).unwaited = true) ∧
            ∀ u, (d'.wait u).state = (d.wait u).state)) := by
  -- by induction on the list, one round for its first block
  generalize hl : d.hdr.waitblockList = l
  induction l generalizing d with
  | nil => exact ⟨d, rfl, rfl, .inr ⟨by simp, fun _ => rfl⟩⟩
  | cons t ts ih =>
    rw [objSatisfyList]
    rcases h.blocks t (by simp [hl]) with hw | hw
    . refine ⟨handed d t ts, ?_, rfl, .inl ⟨t, ⟨[], ts, hl, by simp, hw.unwaited⟩, ?_⟩⟩
      . rw [hw.satisfyRound cfg false hl]
        rfl
      . have hover := handedOver_handed d t ts
        refine ⟨hover.self, ?_, ?_, ?_⟩
        . intro u hu
          rw [hover.other u hu]
        . intro u hu
          rw [hover.other u hu]
        . intro u hu
          rw [hover.other u hu]
    . have hskip : ∀ u, (d.skipped t ts).wait u = d.wait u ∨
          (u = t ∧ (d.skipped t ts).wait u = { d.wait t with dequeued := true }) := by
        intro u
        by_cases hu : u = t
        . subst hu
          exact .inr ⟨rfl, Function.update_self ..⟩
        . exact .inl (Function.update_of_ne hu ..)
      rcases ih (h.skipped hl) rfl with ⟨d', he, hsig, hcase⟩
      refine ⟨d', ?_, hsig, ?_⟩
      . rw [hw.satisfyRound cfg false hl]
        exact he
      . rcases hcase with ⟨u, hlive, hwakes⟩ | ⟨hall, hstate⟩
        . left
          refine ⟨u, hlive.of_skipped h.nodup hl hw.unwaited, hwakes.self, ?_, ?_, ?_⟩
          . intro v hv
            rw [hwakes.state v hv]
            rcases hskip v with heq | ⟨rfl, heq⟩ <;> rw [heq]
          . intro v hv
            rw [hwakes.status v hv]
            rcases hskip v with heq | ⟨rfl, heq⟩ <;> rw [heq]
          . intro v hv
            rw [hwakes.unwaited v hv]
            rcases hskip v with heq | ⟨rfl, heq⟩ <;> rw [heq]
        . right
          refine ⟨?_, ?_⟩
          . intro v hv
            rcases hskip v with heq | ⟨rfl, _⟩
            . rcases List.mem_cons.mp hv with rfl | hv
              . exact hw.unwaited
              . rw [← heq]
                exact hall v hv
            . exact hw.unwaited
          . intro v
            rw [hstate v]
            rcases hskip v with heq | ⟨rfl, heq⟩ <;> rw [heq]

def Delivered (d d' : Disp θ) : Prop :=
  (∃ t, d.FirstLive t ∧ OnlyWakes d d' t) ∨
    ((∀ t ∈ d.hdr.waitblockList, (d.wait t).unwaited = true) ∧ d'.hdr.signalcount = 1 ∧
      ∀ t, (schedWaitSingle d' t).1 = true)

omit [DecidableEq θ] in
theorem FirstLive.mem (h : d.FirstLive t)
    : t ∈ d.hdr.waitblockList ∧ (d.wait t).unwaited = false := by
  rcases h with ⟨stale, rest, hlist, _, hlive⟩
  exact ⟨by simp [hlist], hlive⟩

theorem signal_delivered_iff (cfg : Config) {d : Disp θ} (h : d.Mixed) (htype : d.hdr.type = .event)
    (hsig : d.hdr.signalcount = 0)
    : (∃ d', eventSignal cfg d = .ok (0, d') ∧ Delivered d d') ↔
        d.hdr.waitblockList = [] ∨ ∃ t ∈ d.hdr.waitblockList, (d.wait t).unwaited = false := by
  unfold eventSignal
  rw [if_neg (not_not_intro hsig)]
  by_cases hempty : d.hdr.waitblockList = []
  . have hcount : d.hdr.waitercount = 0 := by
      rw [h.count, hempty]
      rfl
    rw [if_neg (not_not_intro hcount)]
    refine iff_of_true ⟨_, rfl, .inr ⟨by simp [hempty], rfl, ?_⟩⟩ (.inl hempty)
    intro t
    rcases schedWaitSingle_of_signaled (d := { d with hdr := { d.hdr with signalcount := 1 } }) t
      (by simp) (by simp [htype]) with ⟨d', hd', _⟩
    rw [hd']
  . have hcount : d.hdr.waitercount ≠ 0 := by
      rw [h.count]
      simpa using hempty
    rw [if_pos hcount, if_neg (by simp [htype])]
    rcases h.objSatisfy cfg with ⟨d', he, hsig', hcase⟩
    have hsatisfy : objSatisfy cfg d false = .ok d' := he
    rw [hsatisfy]
    constructor
    . rintro ⟨d1, heq, hdelivered⟩
      cases heq
      right
      rcases hdelivered with ⟨t, hlive, _⟩ | ⟨_, hone, _⟩
      . exact ⟨t, hlive.mem⟩
      . rw [hsig', hsig] at hone
        cases hone
    . rintro (hnil | ⟨t, ht, hlive⟩)
      . exact absurd hnil hempty
      . refine ⟨d', rfl, .inl ?_⟩
        rcases hcase with hwakes | ⟨hall, _⟩
        . exact hwakes
        . rw [hall t ht] at hlive
          cases hlive

def firstTimedOut : Disp Bool :=
  ⟨{ (eventInit false false : ObjHeader Bool) with
      waitercount := 2, waitblockList := [false, true] }, fun t =>
    if t then ⟨.waiting, statusWaiting, 1, false, false⟩ else ⟨.ready, statusTimeout, 1, false, true⟩⟩

theorem firstTimedOut_mixed : firstTimedOut.Mixed := by
  refine ⟨by simp [firstTimedOut], rfl, ?_⟩
  intro t _
  cases t with
  | false => exact .inr ⟨rfl, rfl, rfl, rfl⟩
  | true => exact .inl ⟨rfl, rfl, rfl, rfl, rfl⟩

theorem signal_delivered_iff_second
    : ∃ d', eventSignal ⟨false⟩ firstTimedOut = .ok (0, d') ∧ Delivered firstTimedOut d' :=
  (signal_delivered_iff ⟨false⟩ firstTimedOut_mixed rfl rfl).mpr
    (.inr ⟨true, by simp [firstTimedOut], rfl⟩)

theorem signal_lost_after_timeout
    : ∃ d d' : Disp Unit,
        waitTimerExp ⟨false⟩ (schedWaitSingle
          ⟨eventInit false false, fun _ => ⟨.running, -1, -1, false, false⟩⟩ ()).2 () = .ok d ∧
        d.Mixed ∧ d.hdr.type = .event ∧ d.hdr.signalcount = 0 ∧
        eventSignal ⟨false⟩ d = .ok (0, d') ∧ d'.hdr = eventInit false false ∧
        ¬ Delivered d d' := by
  refine ⟨_, _, rfl, ⟨by decide, rfl, ?_⟩, rfl, rfl, rfl, rfl, ?_⟩
  . intro t _
    exact .inr ⟨rfl, rfl, rfl, rfl⟩
  . rintro (⟨t, hlive, _⟩ | ⟨_, hone, _⟩)
    . have hmarked : true = false := hlive.mem.2
      cases hmarked
    . exact absurd hone (by decide)

end Disp
end Nyy
