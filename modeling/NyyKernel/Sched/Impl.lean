import NyyKernel.Lib.Buckets
import NyyKernel.Lib.Fault

/-!
This module contains the thread scheduler of `kernel/sched/sched.c` on one CPU. Every function is the
effect of its sections under `sched_lock` and `thread_lock`; the type `θ` stands for the addresses of
threads.
-/

namespace Nyy

inductive ThreadState where
  | null
  | ready
  | running
  | waiting
  | done
  | standby
  deriving DecidableEq, Repr

structure Thread where
  state : ThreadState
  priority : Fin 16
  -- in ms
  timeslice : Nat
  deriving DecidableEq, Repr

-- `none` is `done_queue`
abbrev QueueHead := Option (Fin 16)

class ThreadQueues (Q : Type) (θ : outParam Type) where
  insertTail : Q → QueueHead → θ → Q
  first : Q → QueueHead → Option θ
  remove : Q → QueueHead → θ → Q

structure Queues (θ : Type) where
  runQueues : Fin 16 → List θ
  doneQueue : List θ

instance {θ : Type} [DecidableEq θ] : ThreadQueues (Queues θ) θ where
  insertTail q
    | some p, t => { q with runQueues := Function.update q.runQueues p (q.runQueues p ++ [t]) }
    | none, t => { q with doneQueue := q.doneQueue ++ [t] }
  first q
    | some p => (q.runQueues p).head?
    | none => q.doneQueue.head?
  remove q
    | some p, t => { q with runQueues := Function.update q.runQueues p ((q.runQueues p).erase t) }
    | none, t => { q with doneQueue := q.doneQueue.erase t }

structure Cpu (θ : Type) (Q : Type := Queues θ) where
  threadCurrent : θ
  threadNext : Option θ
  idleThread : θ
  thread : θ → Thread
  queues : Q
  runMask : BitVec 16
  -- the time that the preemption timer was set to, if it is installed
  preemptionTimer : Option Nat
  -- the bit of IRQL_DISPATCH in softint_pending
  softintPending : Bool

abbrev Cpu.runQueues {θ : Type} (cpu : Cpu θ) : Fin 16 → List θ := cpu.queues.runQueues

abbrev Cpu.doneQueue {θ : Type} (cpu : Cpu θ) : List θ := cpu.queues.doneQueue

section

open ThreadQueues

variable {θ Q : Type} [DecidableEq θ] [ThreadQueues Q θ]

def Cpu.setState (cpu : Cpu θ Q) (thread : θ) (state : ThreadState) : Cpu θ Q :=
  { cpu with thread :=
      Function.update cpu.thread thread { cpu.thread thread with state := state } }

def Cpu.priority (cpu : Cpu θ Q) (thread : θ) : Fin 16 := (cpu.thread thread).priority

def checkTimer (cpu : Cpu θ Q) (thread : θ) : Cpu θ Q :=
  if cpu.runMask >>> (cpu.priority thread).val ≠ 0 then
    { cpu with preemptionTimer := some ((cpu.thread thread).timeslice * 1000000) }
  else
    { cpu with preemptionTimer := none }

def Cpu.enqueue (cpu : Cpu θ Q) (thread : θ) : Cpu θ Q :=
  let p := cpu.priority thread
  { cpu with
    queues := insertTail cpu.queues (some p) thread
    runMask := cpu.runMask ||| (1#16 <<< p.val) }

def schedInsert (fuel : Nat) (cpu : Cpu θ Q) (thread : θ) : Except Fault (Cpu θ Q) :=
  match fuel with
  | 0 => .error .fuel
  | fuel + 1 =>
    let cpu := cpu.setState thread .ready
    let current := cpu.threadCurrent
    let next := cpu.threadNext
    let compare := next.getD current
    if cpu.priority compare ≥ cpu.priority thread then
      .ok (checkTimer (cpu.enqueue thread) compare)
    else
      let cpu := cpu.setState thread .standby
      -- preempt
      let cpu := { cpu with threadNext := some thread }
      if next.isSome then
        schedInsert fuel cpu thread
      else
        .ok { cpu with softintPending := true }

def schedNextIn (cpu : Cpu θ Q) : List (Fin 16) → Option (θ × Cpu θ Q)
  | [] => none
  | i :: is =>
    match first cpu.queues (some i) with
    | none => schedNextIn cpu is
    | some tp =>
      let cpu' := { cpu with queues := remove cpu.queues (some i) tp }
      if (first cpu'.queues (some i)).isNone then
        some (tp, { cpu' with runMask := cpu.runMask &&& ~~~ (1#16 <<< (cpu.priority tp).val) })
      else
        some (tp, cpu')

def schedNext (cpu : Cpu θ Q) (priority : Nat) : Option (θ × Cpu θ Q) :=
  schedNextIn cpu ((List.finRange 16).reverse.filter fun i => priority ≤ i.val)

def schedReschedule (cpu : Cpu θ Q) : Cpu θ Q :=
  match schedNext cpu (cpu.priority cpu.threadCurrent).val with
  | none => cpu
  | some (next, cpu) => { cpu with threadNext := some next }

def schedSwitchThread (cpu : Cpu θ Q) (thread : θ) : Cpu θ Q :=
  { cpu with threadCurrent := thread }

-- `sched_preempt`, which switches to a null pointer if `thread_next` is not set.
def schedPreempt (cpu : Cpu θ Q) : Except Fault (Cpu θ Q) := do
  let next := cpu.threadNext
  let cpu := { cpu with threadNext := none }
  let current := cpu.threadCurrent
  let cpu ← if current ≠ cpu.idleThread then schedInsert 2 cpu current else pure cpu
  match next with
  | none => .error .undefined
  | some next => return schedSwitchThread cpu next

def schedResume (cpu : Cpu θ Q) (thread : θ) : Except Fault (Cpu θ Q) :=
  if (cpu.thread thread).state = .ready then .ok cpu else schedInsert 2 cpu thread

def schedYieldInternal (cpu : Cpu θ Q) : Cpu θ Q :=
  match schedNext cpu 0 with
  | none => schedSwitchThread cpu cpu.idleThread
  | some (next, cpu) => schedSwitchThread cpu next

def schedYield (cpu : Cpu θ Q) : Cpu θ Q := schedYieldInternal cpu

-- The part of `wait_thread` up to the switch: the current thread blocks.
def waitThread (cpu : Cpu θ Q) : Cpu θ Q := schedYield (cpu.setState cpu.threadCurrent .waiting)

def schedExitDestroy (cpu : Cpu θ Q) : Cpu θ Q :=
  schedYieldInternal { cpu with queues := insertTail cpu.queues none cpu.threadCurrent }

end
end Nyy
