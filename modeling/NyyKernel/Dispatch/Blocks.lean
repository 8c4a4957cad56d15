import NyyKernel.Dispatch.Lemmas
import NyyKernel.Lib.Run

/-!
This module contains the wait blocks of any number of threads and objects, where the sections under a lock
may happen in any order.
-/

namespace Nyy

inductive WaitPc (ο : Type) where
  | idle
  -- Its block is on the list of the object, but the thread did not block yet.
  | enqueued (o : ο)
  | blocked (o : ο)
  deriving DecidableEq

-- `satisfying` is set while a CPU is in the loop of `obj_satisfy`, `wakes` counts how often a thread was
-- unwaited in its present wait.
structure WaitSys (ο θ : Type) where
  obj : ο → ObjHeader θ
  wait : θ → WaitInfo
  pc : θ → WaitPc ο
  satisfying : ο → Option Bool
  wakes : θ → Nat

inductive WaitOp (ο θ : Type) where
  -- The section of `sched_wait_single` under the lock of the object.
  | wait (t : θ) (o : ο)
  -- The section of `wait_thread` under the lock of the thread.
  | block (t : θ)
  -- The rest of `wait_thread`, with the section of `dequeue_wb`.
  | resume (t : θ)
  | satisfy (o : ο) (all : Bool)
  | round (o : ο)
  -- A function of the object sets its count of signals.
  | signal (o : ο) (n : Int)
  | timeout (t : θ)

namespace WaitSys

variable {ο θ : Type}

def disp (s : WaitSys ο θ) (o : ο) : Disp θ := ⟨s.obj o, s.wait⟩

section

variable [DecidableEq ο] [DecidableEq θ]

omit [DecidableEq θ] in
def put (s : WaitSys ο θ) (o : ο) (d : Disp θ) : WaitSys ο θ :=
  { s with obj := Function.update s.obj o d.hdr, wait := d.wait }

omit [DecidableEq ο] in
def goto (s : WaitSys ο θ) (t : θ) (pc : WaitPc ο) : WaitSys ο θ :=
  { s with pc := Function.update s.pc t pc }

def unwaited (w w' : WaitInfo) : Nat :=
  if w.waitStatus = statusWaiting ∧ w'.waitStatus ≠ statusWaiting then 1 else 0

def step (cfg : Config) (s : WaitSys ο θ) : WaitOp ο θ → Except Fault (WaitSys ο θ)
  | .wait t o =>
    match waitSection (s.disp o) t with
    | (true, d) => return s.put o d
    | (false, d) => return { (s.put o d).goto t (.enqueued o) with
        wakes := Function.update s.wakes t 0 }
  | .block t =>
    match s.pc t with
    | .enqueued o => return (s.put o (waitBlock (s.disp o) t)).goto t (.blocked o)
    | _ => return s
  | .resume t =>
    match s.pc t with
    | .blocked o => do
      let (_, d) ← waitReturn (s.disp o) t
      return (s.put o d).goto t .idle
    | _ => return s
  | .satisfy o all => return { s with satisfying := Function.update s.satisfying o (some all) }
  | .round o =>
    match s.satisfying o, (s.obj o).waitblockList with
    | some all, t :: _ => do
      let (more, d) ← satisfyRound cfg all (s.disp o) t
      return { s.put o d with
        satisfying := if more then s.satisfying else Function.update s.satisfying o none
        wakes := Function.update s.wakes t (s.wakes t + unwaited (s.wait t) (d.wait t)) }
    | _, _ => return { s with satisfying := Function.update s.satisfying o none }
  | .signal o n =>
    return { s with obj := Function.update s.obj o { s.obj o with signalcount := n } }
  | .timeout t =>
    match s.pc t with
    | .idle => return s
    | .enqueued o | .blocked o => do
      let d ← waitTimerExp cfg (s.disp o) t
      return { s.put o d with
        wakes := Function.update s.wakes t (s.wakes t + unwaited (s.wait t) (d.wait t)) }

def Enabled (s : WaitSys ο θ) : WaitOp ο θ → Prop
  | .wait t o => s.pc t = .idle ∧ s.satisfying o = none
  | .block t => ∃ o, s.pc t = .enqueued o
  | .resume t => ∃ o, s.pc t = .blocked o ∧ s.satisfying o = none ∧ (s.wait t).state ≠ .waiting
  | .satisfy o _ => s.satisfying o = none
  | .round o => s.satisfying o ≠ none
  | .signal _ _ => True
  | .timeout _ => True

omit [DecidableEq ο] [DecidableEq θ] in
def Init (s : WaitSys ο θ) : Prop :=
  (∀ o, ∃ type n, s.obj o = { objInit type with signalcount := n }) ∧ (∀ o, s.satisfying o = none) ∧
    ∀ t, s.pc t = .idle ∧ (s.wait t).state ≠ .waiting

def Step (cfg : Config) (s : WaitSys ο θ) (op : WaitOp ο θ) (s' : WaitSys ο θ) : Prop :=
  s.Enabled op ∧ s.step cfg op = .ok s'

end

def On (s : WaitSys ο θ) (t : θ) (o : ο) : Prop := s.pc t = .enqueued o ∨ s.pc t = .blocked o

theorem On.unique {s : WaitSys ο θ} {t : θ} {o p : ο} (h : s.On t o) (h' : s.On t p) : o = p := by
  rcases h with h | h <;> rcases h' with h' | h' <;> rw [h] at h' <;> cases h' <;> rfl

structure Blocks (s : WaitSys ο θ) : Prop where
  nodup : ∀ o, (s.obj o).waitblockList.Nodup
  count : ∀ o, (s.obj o).waitercount = (s.obj o).waitblockList.length
  listed : ∀ o t, t ∈ (s.obj o).waitblockList ↔ s.On t o ∧ (s.wait t).dequeued = false

section Lists

variable {s s' : WaitSys ο θ} {o : ο} {t : θ}

theorem Blocks.init (h : Init s) : Blocks s := by
  have hlist : ∀ o, (s.obj o).waitblockList = [] ∧ (s.obj o).waitercount = 0 := by
    intro o
    rcases h.1 o with ⟨type, n, hobj⟩
    rw [hobj]
    exact ⟨rfl, rfl⟩
  constructor
  . intro o
    simp [hlist o]
  . intro o
    simp [hlist o]
  . intro o t
    simp [hlist o, On, (h.2.2 t).1]

theorem Blocks.of_same (h : Blocks s) (hlist : ∀ o, (s'.obj o).waitblockList = (s.obj o).waitblockList)
    (hcount : ∀ o, (s'.obj o).waitercount = (s.obj o).waitercount) (hon : ∀ t o, s'.On t o ↔ s.On t o)
    (hflag : ∀ t o, s.On t o → (s'.wait t).dequeued = (s.wait t).dequeued)
    : Blocks s' := by
  constructor
  . intro o
    rw [hlist]
    exact h.nodup o
  . intro o
    rw [hlist, hcount]
    exact h.count o
  . intro o t
    rw [hlist, h.listed, hon]
    constructor
    . rintro ⟨ht, hd⟩
      exact ⟨ht, hflag t o ht ▸ hd⟩
    . rintro ⟨ht, hd⟩
      exact ⟨ht, hflag t o ht ▸ hd⟩

theorem Blocks.remove [DecidableEq ο] [DecidableEq θ] {hdr : ObjHeader θ} (h : Blocks s) (hmem : t ∈ (s.obj o).waitblockList)
    (hobj : s'.obj = Function.update s.obj o hdr)
    (hlist : hdr.waitblockList = (s.obj o).waitblockList.erase t)
    (hcount : hdr.waitercount = (s.obj o).waitercount - 1) (hself : ¬ (s'.On t o ∧ (s'.wait t).dequeued = false))
    (hselfs : ∀ p, s'.On t p → s.On t p)
    (hother : ∀ u p, u ≠ t → (s'.On u p ↔ s.On u p) ∧ (s'.wait u).dequeued = (s.wait u).dequeued)
    : Blocks s' := by
  have hon := ((h.listed o t).mp hmem).1
  constructor
  . intro p
    by_cases hp : p = o
    . rw [hp, hobj, Function.update_self, hlist]
      exact (h.nodup o).erase t
    . rw [hobj, Function.update_of_ne hp]
      exact h.nodup p
  . intro p
    by_cases hp : p = o
    . rw [hp, hobj, Function.update_self, hlist, hcount, h.count, List.length_erase_of_mem hmem]
      have := List.length_pos_of_mem hmem
      omega
    . rw [hobj, Function.update_of_ne hp]
      exact h.count p
  . intro p u
    by_cases hut : u = t
    . subst hut
      by_cases hp : p = o
      . rw [hp, hobj, Function.update_self, hlist]
        simp [(h.nodup o).mem_erase_iff, hself]
      . -- its block was on one list only
        have hnot : ¬ s.On u p := fun hu => hp (hu.unique hon)
        rw [hobj, Function.update_of_ne hp, h.listed]
        simp only [hnot, false_and, false_iff]
        exact fun hu => hnot (hselfs p hu.1)
    . rw [(hother u p hut).1, (hother u p hut).2, ← h.listed]
      by_cases hp : p = o
      . rw [hp, hobj, Function.update_self, hlist, (h.nodup o).mem_erase_iff]
        simp [hut]
      . rw [hobj, Function.update_of_ne hp]

theorem Blocks.insert [DecidableEq ο] {hdr : ObjHeader θ} (h : Blocks s) (hidle : s.pc t = .idle)
    (hobj : s'.obj = Function.update s.obj o hdr)
    (hlist : hdr.waitblockList = (s.obj o).waitblockList ++ [t])
    (hcount : hdr.waitercount = (s.obj o).waitercount + 1) (hself : s'.pc t = .enqueued o)
    (hflag : (s'.wait t).dequeued = false)
    (hother : ∀ u, u ≠ t → s'.pc u = s.pc u ∧ (s'.wait u).dequeued = (s.wait u).dequeued)
    : Blocks s' := by
  have hnot : ∀ p, t ∉ (s.obj p).waitblockList := by
    intro p hmem
    have := ((h.listed p t).mp hmem).1
    simp [On, hidle] at this
  constructor
  . intro p
    by_cases hp : p = o
    . rw [hp, hobj, Function.update_self, hlist, ← List.concat_eq_append]
      exact (h.nodup o).concat (hnot o)
    . rw [hobj, Function.update_of_ne hp]
      exact h.nodup p
  . intro p
    by_cases hp : p = o
    . rw [hp, hobj, Function.update_self, hlist, hcount, h.count]
      simp
    . rw [hobj, Function.update_of_ne hp]
      exact h.count p
  . intro p u
    by_cases hut : u = t
    . subst hut
      by_cases hp : p = o
      . rw [hp, hobj, Function.update_self, hlist]
        simp [On, hself, hflag]
      . rw [hobj, Function.update_of_ne hp]
        simp only [hnot p, false_iff, On, hself, WaitPc.enqueued.injEq, reduceCtorEq, or_false,
          not_and]
        intro heq
        exact absurd heq.symm hp
    . have hu : s'.On u p ↔ s.On u p := by
        unfold On
        rw [(hother u hut).1]
      rw [hu, (hother u hut).2, ← h.listed]
      by_cases hp : p = o
      . rw [hp, hobj, Function.update_self, hlist]
        simp [hut]
      . rw [hobj, Function.update_of_ne hp]

theorem Blocks.not_underflow (h : Blocks s) (hpc : s.pc t = .blocked o)
    : ((s.disp o).wait t).dequeued = false → (s.disp o).hdr.waitercount ≠ 0 := by
  intro hflag
  have hmem := (h.listed o t).mpr ⟨.inr hpc, hflag⟩
  have hpos := List.length_pos_of_mem hmem
  have hcount : (s.disp o).hdr.waitercount = _ := h.count o
  omega

end Lists

section Run

variable [DecidableEq ο] [DecidableEq θ] {cfg : Config} {s s' : WaitSys ο θ} {o : ο} {t : θ}

omit [DecidableEq θ] in
theorem put_obj_self (s : WaitSys ο θ) (o : ο) (d : Disp θ) : (s.put o d).obj o = d.hdr := by
  simp [put]

omit [DecidableEq θ] in
theorem put_obj_of_ne (s : WaitSys ο θ) {p : ο} (d : Disp θ) (h : p ≠ o)
    : (s.put o d).obj p = s.obj p := by
  simp [put, h]

omit [DecidableEq ο] in
theorem goto_pc_self (s : WaitSys ο θ) (t : θ) (pc : WaitPc ο) : (s.goto t pc).pc t = pc := by
  simp [goto]

omit [DecidableEq ο] in
theorem goto_pc_of_ne (s : WaitSys ο θ) {u : θ} (pc : WaitPc ο) (h : u ≠ t)
    : (s.goto t pc).pc u = s.pc u := by
  simp [goto, h]

omit [DecidableEq θ] in
theorem Blocks.put {d : Disp θ} (h : Blocks s) (hlist : d.hdr.waitblockList = (s.obj o).waitblockList)
    (hcount : d.hdr.waitercount = (s.obj o).waitercount)
    (hflag : ∀ t p, s.On t p → (d.wait t).dequeued = (s.wait t).dequeued)
    : Blocks (s.put o d) := by
  apply h.of_same
  . intro p
    by_cases hp : p = o
    . rw [hp, put_obj_self, hlist]
    . rw [put_obj_of_ne _ _ hp]
  . intro p
    by_cases hp : p = o
    . rw [hp, put_obj_self, hcount]
    . rw [put_obj_of_ne _ _ hp]
  . intro t p
    rfl
  . exact hflag

theorem Blocks.wait {t : θ} {o : ο} (h : Blocks s) (hidle : s.pc t = .idle)
    (he : s.step cfg (.wait t o) = .ok s')
    : Blocks s' := by
  unfold WaitSys.step at he
  dsimp only at he
  rcases Disp.waitSection_cases (s.disp o) t with
    ⟨d, hother, ⟨heq, _, hlist, hcount, _⟩ | ⟨heq, _, hhdr, hself⟩⟩
  . rw [heq] at he
    cases he
    apply h.put hlist hcount
    intro u p hu
    rw [hother u]
    . rfl
    . rintro rfl
      simp [On, hidle] at hu
  . rw [heq] at he
    cases he
    apply h.insert (o := o) hidle rfl
    . rw [hhdr]
      rfl
    . rw [hhdr]
      rfl
    . exact goto_pc_self ..
    . change (d.wait t).dequeued = false
      rw [hself]
    . intro u hu
      refine ⟨goto_pc_of_ne _ _ hu, ?_⟩
      change (d.wait u).dequeued = _
      rw [hother u hu]
      rfl

theorem Blocks.block {t : θ} (h : Blocks s) (he : s.step cfg (.block t) = .ok s')
    : Blocks s' := by
  unfold WaitSys.step at he
  dsimp only at he
  split at he
  . next o hpc =>
    cases he
    have hput : Blocks (s.put o (waitBlock (s.disp o) t)) := by
      apply h.put rfl rfl
      intro u p _
      unfold waitBlock
      by_cases hut : u = t
      . subst hut
        rw [Disp.setWait_self]
        rfl
      . rw [Disp.setWait_of_ne _ _ hut]
        rfl
    refine hput.of_same (fun _ => rfl) (fun _ => rfl) ?_ (fun _ _ _ => rfl)
    . intro u p
      unfold On
      by_cases hut : u = t
      . subst hut
        rw [goto_pc_self]
        simp [WaitSys.put, hpc]
      . rw [goto_pc_of_ne _ _ hut]
  . cases he
    exact h

theorem Blocks.resume (h : Blocks s) (he : s.step cfg (.resume t) = .ok s') : Blocks s' := by
  unfold WaitSys.step at he
  dsimp only at he
  split at he
  . next o hpc =>
    rcases Disp.waitReturn_cases (h.not_underflow hpc) with ⟨d, heq, hwait, hcase⟩
    rw [heq] at he
    cases he
    have hidle : ∀ p, ¬ ((s.put o d).goto t .idle).On t p := by
      intro p
      simp [On, goto_pc_self]
    have hother : ∀ u p, u ≠ t → (((s.put o d).goto t .idle).On u p ↔ s.On u p) := by
      intro u p hu
      unfold On
      rw [goto_pc_of_ne _ _ hu]
      rfl
    rcases hcase with ⟨hflag, rfl⟩ | ⟨hflag, hhdr⟩
    . -- somebody else has dequeued the block
      have hgone : ∀ p, t ∉ (s.obj p).waitblockList := by
        intro p hmem
        have hflag' : (s.wait t).dequeued = true := hflag
        have := ((h.listed p t).mp hmem).2
        simp [hflag'] at this
      have hobj : ∀ p, (((s.put o (s.disp o)).goto t .idle).obj p) = s.obj p := by
        intro p
        by_cases hp : p = o
        . subst hp
          exact put_obj_self ..
        . exact put_obj_of_ne _ _ hp
      constructor
      . intro p
        rw [hobj]
        exact h.nodup p
      . intro p
        rw [hobj]
        exact h.count p
      . intro p u
        rw [hobj]
        by_cases hut : u = t
        . subst hut
          simp [hgone p, hidle p]
        . rw [hother u p hut]
          exact h.listed p u
    . have hmem : t ∈ (s.obj o).waitblockList := (h.listed o t).mpr ⟨.inr hpc, hflag⟩
      apply h.remove hmem rfl
      . rw [hhdr]
        rfl
      . rw [hhdr]
        rfl
      . exact fun hon => hidle o hon.1
      . exact fun p hon => absurd hon (hidle p)
      . intro u p hu
        refine ⟨hother u p hu, ?_⟩
        change (d.wait u).dequeued = _
        rw [hwait]
        rfl
  . cases he
    exact h

theorem Blocks.round (h : Blocks s) (he : s.step cfg (.round o) = .ok s') : Blocks s' := by
  unfold WaitSys.step at he
  dsimp only at he
  split at he
  . next all t ts _ hlist =>
    rcases Except.bind_eq_ok he with ⟨⟨more, d⟩, hround, he⟩
    cases he
    rcases Disp.satisfyRound_eq_ok hround with ⟨hhdr, hflag, hother⟩
    apply h.remove (o := o) (t := t) (by simp [hlist]) rfl
    . rw [hhdr]
      rfl
    . rw [hhdr]
      rfl
    . rintro ⟨_, hnot⟩
      change (d.wait t).dequeued = false at hnot
      simp [hflag] at hnot
    . exact fun p hon => hon
    . intro u p hu
      refine ⟨Iff.rfl, ?_⟩
      change (d.wait u).dequeued = _
      rw [hother u hu]
      rfl
  . cases he
    exact h.of_same (fun _ => rfl) (fun _ => rfl) (fun _ _ => Iff.rfl) (fun _ _ _ => rfl)

theorem Blocks.timeout (h : Blocks s) (he : s.step cfg (.timeout t) = .ok s') : Blocks s' := by
  have hput : ∀ o d, waitTimerExp cfg (s.disp o) t = .ok d → Blocks (s.put o d) := by
    intro o d hd
    rcases Disp.waitTimerExp_eq_ok hd with ⟨hhdr, hself, hother⟩
    apply h.put
    . rw [hhdr]
      rfl
    . rw [hhdr]
      rfl
    . intro u p _
      by_cases hut : u = t
      . subst hut
        exact hself
      . rw [hother u hut]
        rfl
  unfold WaitSys.step at he
  dsimp only at he
  split at he
  . cases he
    exact h
  . rcases Except.bind_eq_ok he with ⟨d, hd, he⟩
    cases he
    exact (hput _ d hd).of_same (fun _ => rfl) (fun _ => rfl) (fun _ _ => Iff.rfl) (fun _ _ _ => rfl)
  . rcases Except.bind_eq_ok he with ⟨d, hd, he⟩
    cases he
    exact (hput _ d hd).of_same (fun _ => rfl) (fun _ => rfl) (fun _ _ => Iff.rfl) (fun _ _ _ => rfl)

theorem Blocks.step {op : WaitOp ο θ} (h : Blocks s) (hstep : Step cfg s op s') : Blocks s' := by
  rcases hstep with ⟨henabled, he⟩
  cases op with
  | wait t o => exact h.wait henabled.1 he
  | block t => exact h.block he
  | resume t => exact h.resume he
  | satisfy o all =>
    cases he
    exact h.of_same (fun _ => rfl) (fun _ => rfl) (fun _ _ => Iff.rfl) (fun _ _ _ => rfl)
  | round o => exact h.round he
  | signal o n =>
    cases he
    exact h.put (d := ⟨{ s.obj o with signalcount := n }, s.wait⟩) rfl rfl (fun _ _ _ => rfl)
  | timeout t => exact h.timeout he

theorem no_dangling_block {s : WaitSys ο θ} (hr : Reach Init (Step cfg) s)
    : (∀ o, (s.obj o).waitercount = (s.obj o).waitblockList.length ∧
        (s.obj o).waitblockList.Nodup) ∧
      (∀ o t, t ∈ (s.obj o).waitblockList ↔ s.On t o ∧ (s.wait t).dequeued = false) ∧
      (∀ t, s.pc t = .idle → ∀ o, t ∉ (s.obj o).waitblockList) ∧
      (∀ t o, s.pc t = .blocked o → ∃ r, dequeueWb (s.disp o) t = .ok r) := by
  have h : Blocks s := hr.invariant (fun s hs => Blocks.init hs) (fun s op s' h hstep => h.step hstep)
  refine ⟨fun o => ⟨h.count o, h.nodup o⟩, h.listed, ?_, ?_⟩
  . intro t hidle o hmem
    have := ((h.listed o t).mp hmem).1
    simp [On, hidle] at this
  . intro t o hpc
    rcases Disp.waitReturn_cases (h.not_underflow hpc) with ⟨d, heq, _⟩
    rcases Except.bind_eq_ok heq with ⟨d', hd', _⟩
    exact ⟨d', hd'⟩

def oneWaiter : WaitSys Unit Unit :=
  ⟨fun _ => objInit .event, fun _ => ⟨.running, statusOk, 0, false, false⟩, fun _ => .idle,
    fun _ => none, fun _ => 0⟩

theorem oneWaiter_init : Init oneWaiter := by
  refine ⟨fun _ => ⟨.event, 0, rfl⟩, fun _ => rfl, fun _ => ⟨rfl, ?_⟩⟩
  simp [oneWaiter]

theorem no_dangling_block_timeout
    : ∃ s : WaitSys Unit Unit, Reach Init (Step ⟨false⟩) s ∧ s.pc () = .idle ∧
        (s.wait ()).waitStatus = statusTimeout ∧ () ∉ (s.obj ()).waitblockList := by
  have h0 : Reach Init (Step ⟨false⟩) oneWaiter := .start oneWaiter_init
  have h1 := h0.next (e := WaitOp.wait () ()) ⟨⟨rfl, rfl⟩, rfl⟩
  have h2 := h1.next (e := WaitOp.block ()) ⟨⟨(), rfl⟩, rfl⟩
  have h3 := h2.next (e := WaitOp.timeout ()) ⟨trivial, rfl⟩
  have h4 := h3.next (e := WaitOp.resume ()) ⟨⟨(), rfl, rfl, by decide⟩, rfl⟩
  exact ⟨_, h4, rfl, rfl, (no_dangling_block h4).2.2.1 () rfl ()⟩

end Run

end WaitSys
end Nyy
