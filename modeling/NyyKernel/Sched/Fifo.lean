import NyyKernel.Sched.Linked
import NyyKernel.Sched.Slice

namespace Nyy
namespace LinkedCpu

open Tailq

structure QueuesOk {θ : Type} (cpu : LinkedCpu θ) (q : QueueHead → List θ) : Prop where
  rep : Rep cpu.links q
  sorted : (cpu.view q).Sorted
  masked : (cpu.view q).Masked

variable {θ : Type} [DecidableEq θ] {cpu cpu' : LinkedCpu θ} {q : QueueHead → List θ} {t : θ} {b : Nat}

section Selection

omit [DecidableEq θ] in
theorem eq_update {q' : QueueHead → List θ} {p : Fin 16} {ts : List θ}
    (hdone : (cpu'.view q').doneQueue = (cpu.view q).doneQueue)
    (hrun : (cpu'.view q').runQueues = Function.update (cpu.view q).runQueues p ts)
    : q' = Function.update q (some p) ts := by
  funext h
  cases h with
  | none =>
    rw [Function.update_of_ne (by simp)]
    exact hdone
  | some i =>
    have hi : q' (some i) = _ := congrFun hrun i
    rw [hi]
    by_cases hip : i = p
    . subst hip
      simp
    . rw [Function.update_of_ne hip, Function.update_of_ne (by simpa using hip)]
      rfl

namespace QueuesOk

theorem next (hok : QueuesOk cpu q) (hnext : schedNext cpu b = some (t, cpu'))
    : ∃ p rest, b ≤ p.val ∧ q (some p) = t :: rest ∧ (∀ i, p < i → q (some i) = []) ∧
        QueuesOk cpu' (Function.update q (some p) rest) := by
  rcases schedNextIn_view hok.rep hnext with ⟨q', hrep, hview⟩
  rcases Cpu.schedNext_highest hview with ⟨p, hp, hpop, hhigh⟩
  rcases hpop.queue with ⟨rest, hq, hq'⟩
  have heq := eq_update hpop.done hq'
  subst heq
  exact ⟨p, rest, hp, hq, hhigh, hrep, hok.sorted.popped hpop,
    (Cpu.schedNextIn_masked hok.sorted hok.masked hview).1⟩

theorem next_eq_none (hok : QueuesOk cpu q)
    : schedNext cpu b = none ↔ ∀ p : Fin 16, b ≤ p.val → q (some p) = [] := by
  constructor
  . intro hnone p hp
    exact Cpu.schedNext_eq_none (schedNextIn_view_none hok.rep hnone) hp
  . intro hempty
    cases hnext : schedNext cpu b with
    | none => rfl
    | some r =>
      rcases hok.next hnext with ⟨p, rest, hp, hq, -⟩
      rw [hempty p hp] at hq
      cases hq

end QueuesOk

def Queues (cpu : LinkedCpu θ) (t : θ) : Prop :=
  cpu.priority t ≤ cpu.priority (cpu.threadNext.getD cpu.threadCurrent) ∨ cpu.threadNext.isSome

instance (cpu : LinkedCpu θ) (t : θ) : Decidable (cpu.Queues t) := inferInstanceAs (Decidable (_ ∨ _))

def pushed (cpu : LinkedCpu θ) (q : QueueHead → List θ) (t : θ) : QueueHead → List θ :=
  if cpu.Queues t then
    Function.update q (some (cpu.priority t)) (q (some (cpu.priority t)) ++ [t])
  else
    q

theorem schedInsert_eq_ok (cpu : LinkedCpu θ) (t : θ) : ∃ cpu', schedInsert 2 cpu t = .ok cpu' := by
  unfold schedInsert
  dsimp only
  split_ifs
  . exact ⟨_, rfl⟩
  . -- the second call compares `t` with itself
    unfold schedInsert
    dsimp only
    exact ⟨_, if_pos (by exact le_refl _)⟩
  . exact ⟨_, rfl⟩

theorem QueuesOk.insert (hok : QueuesOk cpu q) (ht : ∀ h, t ∉ q h)
    : ∃ cpu', schedInsert 2 cpu t = .ok cpu' ∧ QueuesOk cpu' (cpu.pushed q t) := by
  rcases schedInsert_eq_ok cpu t with ⟨cpu', hins⟩
  refine ⟨cpu', hins, ?_⟩
  rcases schedInsert_view hok.rep ht hins with ⟨q', hrep, hview⟩
  rcases Cpu.schedInsert_spec (cpu.view q) t with ⟨_, hspec, hframe, hcase⟩
  cases hview.symm.trans hspec
  have hsorted := hcase.sorted hframe hok.sorted
  have hmasked : (cpu'.view q').Masked := by
    rcases Cpu.schedInsert_timer hview with ⟨hqueues, hmask, _⟩ | ⟨hqueues, hmask, _⟩
    . exact hok.masked.of_eq hqueues hmask
    . exact (hok.masked.enqueue t).of_eq hqueues hmask
  have heq : q' = cpu.pushed q t := by
    unfold pushed
    cases hcase with
    | queued hprio _ hqueues =>
      rw [if_pos (.inl (by exact hprio))]
      exact eq_update hframe.done hqueues
    | next hnone hprio _ hqueues =>
      have hnot : ¬ cpu.Queues t := by
        have hnone : cpu.threadNext = none := hnone
        have hprio : cpu.priority cpu.threadCurrent < cpu.priority t := hprio
        simp [Queues, hnone, hprio]
      rw [if_neg hnot]
      refine (eq_update (p := 0) hframe.done ?_).trans (Function.update_eq_self (some 0) q)
      rw [hqueues]
      exact (Function.update_eq_self 0 (cpu.view q).runQueues).symm
    | both n hsome _ _ hqueues =>
      have hsome : cpu.threadNext = some n := hsome
      rw [if_pos (.inr (by rw [hsome]; rfl))]
      exact eq_update hframe.done hqueues
  subst heq
  exact ⟨hrep, hsorted, hmasked⟩

end Selection

section Run

structure FifoState (θ : Type) where
  cpu : LinkedCpu θ
  inserted : Fin 16 → List θ
  taken : Fin 16 → List θ

def queued (cpu : LinkedCpu θ) (t : θ) : Option θ := if cpu.Queues t then some t else none

def selected (cpu : LinkedCpu θ) (b : Nat) : Option θ := (schedNext cpu b).map Prod.fst

def insertion (cpu : LinkedCpu θ) : Cpu.Call θ → Option θ
  | .resume t => if (cpu.thread t).state = .ready then none else cpu.queued t
  | .preempt =>
    if cpu.threadCurrent ≠ cpu.idleThread then
      queued { cpu with threadNext := none } cpu.threadCurrent
    else
      none
  | _ => none

def removal (cpu : LinkedCpu θ) : Cpu.Call θ → Option θ
  | .reschedule => cpu.selected (cpu.priority cpu.threadCurrent).val
  | .yield => cpu.selected 0
  | .exit => selected { cpu with queues := cpu.links.insertTail none cpu.threadCurrent } 0
  | _ => none

omit [DecidableEq θ] in
def record (cpu : LinkedCpu θ) (log : Fin 16 → List θ) : Option θ → Fin 16 → List θ
  | none => log
  | some t => Function.update log (cpu.priority t) (log (cpu.priority t) ++ [t])

namespace FifoState

def exec (s : FifoState θ) (c : Cpu.Call θ) : Except Fault (FifoState θ) := do
  let cpu ← s.cpu.exec c
  return ⟨cpu, s.cpu.record s.inserted (s.cpu.insertion c), s.cpu.record s.taken (s.cpu.removal c)⟩

def Step (s : FifoState θ) (c : Cpu.Call θ) (s' : FifoState θ) : Prop := s.exec c = .ok s'

def Start (s : FifoState θ) : Prop :=
  ∃ q, QueuesOk s.cpu q ∧ (∀ p, s.inserted p = q (some p)) ∧ ∀ p, s.taken p = []

def InsertsUnlinked (s : FifoState θ) (c : Cpu.Call θ) : Prop := s.cpu.InsertsUnlinked c

def Fifo (s : FifoState θ) : Prop :=
  ∃ q, QueuesOk s.cpu q ∧ ∀ p, s.inserted p = s.taken p ++ q (some p)

end FifoState

variable {ins tak : Fin 16 → List θ}

omit [DecidableEq θ] in
theorem record_queued (hlog : ∀ p, ins p = tak p ++ q (some p)) (p : Fin 16)
    : cpu.record ins (cpu.queued t) p = tak p ++ cpu.pushed q t (some p) := by
  unfold queued pushed
  split
  . dsimp only [record]
    by_cases hp : p = cpu.priority t
    . subst hp
      simp [hlog]
    . rw [Function.update_of_ne hp, Function.update_of_ne (by simpa using hp), hlog]
  . exact hlog p

theorem QueuesOk.select (hok : QueuesOk cpu q) (hlog : ∀ p, ins p = tak p ++ q (some p)) (b : Nat)
    : (schedNext cpu b = none ∧ ∀ p, ins p = cpu.record tak (cpu.selected b) p ++ q (some p)) ∨
        ∃ t cpu' q', schedNext cpu b = some (t, cpu') ∧ QueuesOk cpu' q' ∧
          ∀ p, ins p = cpu.record tak (cpu.selected b) p ++ q' (some p) := by
  unfold selected
  cases hnext : schedNext cpu b with
  | none => exact .inl ⟨rfl, hlog⟩
  | some r =>
    rcases hok.next hnext with ⟨p, rest, _, hq, _, hok'⟩
    refine .inr ⟨r.1, r.2, _, rfl, hok', fun i => ?_⟩
    have hprio : cpu.priority r.1 = p := by
      refine hok.sorted p r.1 ?_
      show r.1 ∈ q (some p)
      simp [hq]
    dsimp only [Option.map, record]
    rw [hprio, hlog]
    by_cases hi : i = p
    . subst hi
      simp [hq]
    . rw [Function.update_of_ne hi, Function.update_of_ne (by simpa using hi)]

theorem QueuesOk.yield (hok : QueuesOk cpu q) (hlog : ∀ p, ins p = tak p ++ q (some p))
    : ∃ q', QueuesOk (schedYieldInternal cpu) q' ∧
        ∀ p, ins p = cpu.record tak (cpu.selected 0) p ++ q' (some p) := by
  unfold schedYieldInternal
  rcases hok.select hlog 0 with ⟨hnone, hlog'⟩ | ⟨t, cpu', q', hsome, hok', hlog'⟩
  . rw [hnone]
    exact ⟨q, ⟨hok.rep, hok.sorted, hok.masked⟩, hlog'⟩
  . rw [hsome]
    exact ⟨q', ⟨hok'.rep, hok'.sorted, hok'.masked⟩, hlog'⟩

namespace FifoState

variable {s s' : FifoState θ} {c : Cpu.Call θ}

theorem Fifo.step (h : s.Fifo) (hstep : Guarded InsertsUnlinked Step s c s') : s'.Fifo := by
  rcases h with ⟨q, hok, hlog⟩
  rcases hstep with ⟨hguard, hstep⟩
  rcases Except.bind_eq_ok hstep with ⟨cpu', hexec, hret⟩
  cases hret
  have hunlinked : ∀ t, s.cpu.Unlinked t → ∀ h, t ∉ q h := by
    intro t ht h hmem
    exact ht h (((hok.rep.queue h).on_iff t).mpr hmem)
  cases c with
  | resume t =>
    unfold LinkedCpu.exec schedResume at hexec
    unfold insertion
    dsimp only at hexec ⊢
    split at hexec
    . next hready =>
      cases hexec
      rw [if_pos hready]
      exact ⟨q, hok, hlog⟩
    . next hready =>
      rcases hok.insert (hunlinked t (hguard.resolve_left hready)) with ⟨cpu1, hins, hok'⟩
      cases hins.symm.trans hexec
      rw [if_neg hready]
      exact ⟨_, hok', record_queued hlog⟩
  | reschedule =>
    cases hexec
    unfold schedReschedule
    rcases hok.select hlog (s.cpu.priority s.cpu.threadCurrent).val with
      ⟨hnone, hlog'⟩ | ⟨t, cpu', q', hsome, hok', hlog'⟩
    . rw [hnone]
      exact ⟨q, hok, hlog'⟩
    . rw [hsome]
      exact ⟨q', ⟨hok'.rep, hok'.sorted, hok'.masked⟩, hlog'⟩
  | preempt =>
    unfold LinkedCpu.exec schedPreempt at hexec
    unfold insertion
    dsimp only at hexec ⊢
    split at hexec
    . next hcur =>
      have hok1 : QueuesOk { s.cpu with threadNext := none } q := ⟨hok.rep, hok.sorted, hok.masked⟩
      rcases hok1.insert (hunlinked _ (hguard.resolve_left hcur)) with ⟨cpu1, hins, hok'⟩
      rw [hins, Except.ok_bind] at hexec
      rw [if_pos hcur]
      split at hexec
      . cases hexec
      . cases hexec
        exact ⟨_, ⟨hok'.rep, hok'.sorted, hok'.masked⟩, record_queued hlog⟩
    . next hcur =>
      rw [if_neg hcur]
      change (match s.cpu.threadNext with | none => _ | some _ => _) = _ at hexec
      split at hexec
      . cases hexec
      . cases hexec
        exact ⟨q, ⟨hok.rep, hok.sorted, hok.masked⟩, hlog⟩
  | yield =>
    cases hexec
    exact hok.yield hlog
  | exit =>
    cases hexec
    have hok1 : QueuesOk { s.cpu with queues := s.cpu.links.insertTail none s.cpu.threadCurrent }
        (Function.update q none (q none ++ [s.cpu.threadCurrent])) := by
      exact ⟨hok.rep.insertTail (hunlinked _ hguard) none, hok.sorted, hok.masked⟩
    exact hok1.yield hlog

theorem run_queue_selection (h : Reach Start (Guarded InsertsUnlinked Step) s)
    : ∃ q, QueuesOk s.cpu q ∧ (∀ p, s.inserted p = s.taken p ++ q (some p)) ∧
        (∀ b, (schedNext s.cpu b = none ↔ ∀ p : Fin 16, b ≤ p.val → q (some p) = []) ∧
          ∀ t cpu', schedNext s.cpu b = some (t, cpu') →
            ∃ p rest, b ≤ p.val ∧ q (some p) = t :: rest ∧ (∀ i, p < i → q (some i) = []) ∧
              QueuesOk cpu' (Function.update q (some p) rest)) ∧
        ∀ t, s.cpu.Unlinked t →
          ∃ cpu', schedInsert 2 s.cpu t = .ok cpu' ∧ QueuesOk cpu' (s.cpu.pushed q t) := by
  have hfifo : s.Fifo := by
    refine h.invariant ?_ fun _ _ _ hs hstep => hs.step hstep
    rintro s ⟨q, hok, hins, htaken⟩
    exact ⟨q, hok, fun p => by rw [hins, htaken]; rfl⟩
  rcases hfifo with ⟨q, hok, hlog⟩
  refine ⟨q, hok, hlog, fun b => ⟨hok.next_eq_none, fun t cpu' => hok.next⟩, fun t ht => ?_⟩
  exact hok.insert fun h hmem => ht h (((hok.rep.queue h).on_iff t).mpr hmem)

def fifoStart : FifoState Nat := ⟨fourThreads, fun _ => [], fun _ => []⟩

theorem fifoStart_start : Start fifoStart := by
  refine ⟨fun _ => [], ⟨Rep.of_empty fun _ => ⟨rfl, rfl⟩, ?_, ?_⟩, fun _ => rfl, fun _ => rfl⟩
  . intro p t ht
    cases ht
  . intro p
    simp [Cpu.view, Queues.of, fifoStart, fourThreads]

theorem run_queue_selection_queued
    : ∃ s : FifoState Nat, Reach Start (Guarded InsertsUnlinked Step) s ∧ s.inserted 6 = [1] ∧
        ∃ q : QueueHead → List Nat, s.inserted 6 = s.taken 6 ++ q (some 6) := by
  have h2 : Reach Start (Guarded InsertsUnlinked Step) _ :=
    Reach.next (.start fifoStart_start) (e := .resume 2) ⟨.inr (fourThreads_unlinked 2), rfl⟩
  have h1 : Reach Start (Guarded InsertsUnlinked Step) _ :=
    h2.next (e := .resume 1) ⟨.inr (fourThreads_unlinked 1), rfl⟩
  rcases run_queue_selection h1 with ⟨q, _, hlog, _⟩
  exact ⟨_, h1, rfl, q, hlog 6⟩

theorem second_insertion_cuts_off
    : ∃ s : FifoState Nat, Reach Start Step s ∧ s.inserted 7 = [2, 3, 2] ∧ s.taken 7 = [2, 2] := by
  have hrun : (([.resume 1, .resume 2, .preempt, .resume 3, .resume 4, .preempt, .yield, .yield].foldlM
      exec fifoStart).map fun s => (s.inserted 7, s.taken 7)) = .ok ([2, 3, 2], [2, 2]) := by decide
  rcases Except.map_eq_ok hrun with ⟨s, heq, hlog⟩
  rw [Prod.mk.injEq] at hlog
  exact ⟨s, Reach.foldlM (fun _ _ _ _ h => h) (.start fifoStart_start) heq, hlog⟩

end FifoState

end Run

end LinkedCpu
end Nyy
