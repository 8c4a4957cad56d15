import NyyKernel.Lib.Locks
import NyyKernel.Timer.Impl

/-!
This module contains the functions of `kernel/sched` and of `kernel/lib/{event,mutex,time}.c` that take
spinlocks, with every acquisition and release. Their effects are those of the models without locks. A
call ends where it lowers the IRQL, with no lock held; what `irql_lower` does there is the next call.
-/

namespace Nyy

inductive ObjRef (ε τ : Type) where
  | event (e : ε)
  | timer (tp : τ)
  deriving DecidableEq

inductive Lock (ε τ θ : Type) where
  | object (o : ObjRef ε τ)
  | thread (t : θ)
  | sched (cpu : Nat)
  | engine (cpu : Nat)
  | dpc (cpu : Nat)
  deriving DecidableEq

inductive DpcFn (θ : Type) where
  | preemption
  | waitTimerExp (t : θ)

structure Platform (τ θ : Type) where
  cfg : Config
  priority : θ → Fin 16
  timeslice : θ → Nat
  waitTimer : θ → τ
  preemptionTimer : Nat → τ
  preemptionDpc : Nat → Nat
  dpcFn : Nat → DpcFn θ

structure Scheduler (θ : Type) where
  threadCurrent : θ
  threadNext : Option θ
  idleThread : θ
  runQueues : Fin 16 → List θ
  runMask : BitVec 16
  softintPending : Bool

structure Kernel (ε τ θ : Type) where
  event : ε → ObjHeader θ
  owner : ε → Option θ
  machine : Machine τ θ
  scheduler : Nat → Scheduler θ
  clock : Nat

namespace Kernel

variable {ε τ θ : Type}

def hdr (k : Kernel ε τ θ) : ObjRef ε τ → ObjHeader θ
  | .event e => k.event e
  | .timer tp => (k.machine.timer tp).hdr

def disp (k : Kernel ε τ θ) (o : ObjRef ε τ) : Disp θ := ⟨k.hdr o, k.machine.wait⟩

def setScheduler (k : Kernel ε τ θ) (cpu : Nat) (sched : Scheduler θ) : Kernel ε τ θ :=
  { k with scheduler := Function.update k.scheduler cpu sched }

def cpu (p : Platform τ θ) (k : Kernel ε τ θ) (cpu : Nat) : Cpu θ where
  threadCurrent := (k.scheduler cpu).threadCurrent
  threadNext := (k.scheduler cpu).threadNext
  idleThread := (k.scheduler cpu).idleThread
  thread t := ⟨(k.machine.wait t).state, p.priority t, p.timeslice t⟩
  queues := ⟨(k.scheduler cpu).runQueues, []⟩
  runMask := (k.scheduler cpu).runMask
  preemptionTimer := none
  softintPending := (k.scheduler cpu).softintPending

def setCpu (k : Kernel ε τ θ) (cpu : Nat) (c : Cpu θ) : Kernel ε τ θ :=
  { k with
    scheduler := Function.update k.scheduler cpu
      ⟨c.threadCurrent, c.threadNext, c.idleThread, c.runQueues, c.runMask, c.softintPending⟩
    machine := { k.machine with
      wait := fun t => { k.machine.wait t with state := (c.thread t).state } } }

-- the bit of IRQL_DISPATCH in softint_pending, which `dpc_enqueue` sets as well
def pending (k : Kernel ε τ θ) (cpu : Nat) : Bool :=
  (k.scheduler cpu).softintPending || (k.machine.engine cpu).update

variable [DecidableEq ε] [DecidableEq τ] [DecidableEq θ]

def setHdr (k : Kernel ε τ θ) : ObjRef ε τ → ObjHeader θ → Kernel ε τ θ
  | .event e, hdr => { k with event := Function.update k.event e hdr }
  | .timer tp, hdr =>
    { k with machine := k.machine.setTimer tp { k.machine.timer tp with hdr := hdr } }

def setWait (k : Kernel ε τ θ) (t : θ) (w : WaitInfo) : Kernel ε τ θ :=
  { k with machine := { k.machine with wait := Function.update k.machine.wait t w } }

def setState (k : Kernel ε τ θ) (t : θ) (state : ThreadState) : Kernel ε τ θ :=
  k.setWait t { k.machine.wait t with state := state }

def setDisp (k : Kernel ε τ θ) (o : ObjRef ε τ) (d : Disp θ) : Kernel ε τ θ :=
  { k with machine := { k.machine with wait := d.wait } }.setHdr o d.hdr

end Kernel

namespace Locked

open LockM

variable {ε τ θ : Type} [DecidableEq ε] [DecidableEq τ] [DecidableEq θ] (p : Platform τ θ) (cpu : Nat)

abbrev KernelM (ε τ θ : Type) := LockM (Lock ε τ θ) (Kernel ε τ θ)

-- `dpc_enqueue`, whose effect is part of the section that calls it
def dpcEnqueue : KernelM ε τ θ Unit := withLock (.dpc cpu) (return ())

def timerUninstallSection (tp : τ) (ep : Option Nat) : KernelM ε τ θ Unit :=
  update fun k => do
    return { k with machine := ← Machine.timerUninstallSection cpu k.machine tp ep }

def timerUninstall (tp : τ) : KernelM ε τ θ Unit := do
  match ((← read).machine.timer tp).engine with
  | some ep =>
    withLock (.engine ep) <| withLock (.object (.timer tp)) do
      timerUninstallSection cpu tp (some ep)
      dpcEnqueue cpu
  | none => withLock (.object (.timer tp)) (timerUninstallSection cpu tp none)

def timerSet (tp : τ) (deadline : Nat) (dpc : Option Nat) : KernelM ε τ θ Unit :=
  withLock (.object (.timer tp)) do
    if ((← read).machine.timer tp).timerState = .queued then
      timerUninstall cpu tp
    write fun k => { k with
      machine := k.machine.setTimer tp { k.machine.timer tp with dpc := dpc, deadline := deadline } }

def timerSetIn (tp : τ) (inNs : Nat) (dpc : Option Nat) : KernelM ε τ θ Unit := do
  timerSet cpu tp (Word.add (← read).clock inNs) dpc

def timerInstall (tp : τ) (context1 context2 : Nat) : KernelM ε τ θ Unit := do
  assert p.cfg (((← read).machine.timer tp).timerState != .queued)
  withLock (.engine cpu) <| withLock (.object (.timer tp)) do
    if ((← read).machine.timer tp).engine.isSome then
      return ()
    else
      update fun k => do
        return { k with machine := ← Machine.timerInstall p.cfg cpu k.machine tp context1 context2 }
      dpcEnqueue cpu

def checkTimer (thread : θ) : KernelM ε τ θ Unit := do
  let tp := p.preemptionTimer cpu
  if ((← read).scheduler cpu).runMask >>> (p.priority thread).val ≠ 0 then
    timerUninstall cpu tp
    timerSetIn cpu tp (p.timeslice thread * 1000000) (some (p.preemptionDpc cpu))
    timerInstall p cpu tp 0 0
  else
    timerUninstall cpu tp

-- `sched_insert`, with the locks that `check_timer` takes in it. If a thread was to preempt already, the
-- call that inserts `thread` again compares it with itself.
def schedInsert (thread : θ) : KernelM ε τ θ Unit := do
  assert p.cfg (← isHeld (.sched cpu))
  assert p.cfg (← isHeld (.thread thread))
  let sched := (← read).scheduler cpu
  let compare := sched.threadNext.getD sched.threadCurrent
  update fun k => do return k.setCpu cpu (← Nyy.schedInsert 2 (k.cpu p cpu) thread)
  if p.priority compare ≥ p.priority thread then
    checkTimer p cpu compare
  else if sched.threadNext.isSome then
    checkTimer p cpu thread

def schedResume (thread : θ) : KernelM ε τ θ Unit := do
  if ((← read).machine.wait thread).state = .ready then
    return ()
  else
    withLock (.sched cpu) <| withLock (.thread thread) <| schedInsert p cpu thread

def schedReschedule : KernelM ε τ θ Unit :=
  withLock (.sched cpu) <| write fun k =>
    match schedNext (k.cpu p cpu) (p.priority (k.scheduler cpu).threadCurrent).val with
    | none => k
    | some (next, c) => k.setCpu cpu { c with threadNext := some next }

-- The loop of `obj_satisfy`: whether it goes on. `sched_unwait` calls `sched_resume` with the lock of
-- the thread held.
def objSatisfyList (o : ObjRef ε τ) (all : Bool) : List θ → KernelM ε τ θ Unit
  | [] => return ()
  | thread :: rest => do
    let more ← withLock (.thread thread) do
      let d := (← read).disp o
      let (more, d') ← satisfyRound p.cfg all d thread
      if (d'.wait thread).unwaited && !(d.wait thread).unwaited then
        schedResume p cpu thread
      write fun k => k.setDisp o d'
      return more
    if more then objSatisfyList o all rest else return ()

def objSatisfy (o : ObjRef ε τ) (all : Bool) : KernelM ε τ θ Unit := do
  assert p.cfg (← isHeld (.object o))
  objSatisfyList p cpu o all ((← read).hdr o).waitblockList

def eventSignal (e : ε) : KernelM ε τ θ Int :=
  withLock (.object (.event e)) do
    let hdr := (← read).event e
    if hdr.signalcount ≠ 0 then
      return 1
    else
      if hdr.waitercount ≠ 0 then
        if hdr.type = .eventNotif then
          objSatisfy p cpu (.event e) true
          write fun k => k.setHdr (.event e) { k.event e with signalcount := 1 }
        else
          objSatisfy p cpu (.event e) false
      else
        write fun k => k.setHdr (.event e) { k.event e with signalcount := 1 }
      return 0

def eventReset (e : ε) : KernelM ε τ θ Int :=
  withLock (.object (.event e)) do
    let old := ((← read).event e).signalcount
    write fun k => k.setHdr (.event e) { k.event e with signalcount := 0 }
    return old

-- up to the call of `event_signal`
def mutexRelease (e : ε) : KernelM ε τ θ Unit := do
  let k ← read
  assert p.cfg (k.owner e == some (k.scheduler cpu).threadCurrent)
  withLock (.object (.event e)) <|
    write fun k => { k with owner := Function.update k.owner e none }

def mutexAcquireCheck (e : ε) : KernelM ε τ θ Bool :=
  withLock (.object (.event e)) do
    if ((← read).event e).signalcount = 1 then
      assert p.cfg ((← read).owner e == none)
      write fun k =>
        { k with owner := Function.update k.owner e (some (k.scheduler cpu).threadCurrent) }
      write fun k => k.setHdr (.event e) { k.event e with signalcount := 0 }
      return true
    else
      return false

def waitTimerExp (thread : θ) : KernelM ε τ θ Unit :=
  withLock (.sched cpu) <| withLock (.thread thread) do
    let w := (← read).machine.wait thread
    if w.state = .waiting then
      let d ← schedUnwait p.cfg ((← read).disp (.timer (p.waitTimer thread))) thread statusTimeout
      if w.waitStatus = statusWaiting then
        schedResume p cpu thread
      write fun k => { k with machine := { k.machine with wait := d.wait } }

def runDpc (dpc : Nat) : KernelM ε τ θ Unit :=
  match p.dpcFn dpc with
  | .preemption => schedReschedule p cpu
  | .waitTimerExp thread => waitTimerExp p cpu thread

def progressPop (now : Nat) (root : Option τ) : KernelM ε τ θ Unit :=
  update fun k => do
    let (_, m) ← Machine.timeEngineProgressPop cpu k.machine now root
    return { k with machine := m }

-- the part of a round of `time_engine_progress` for a timer that is due, with the lock of the engine held
def fire (now : Nat) (root : τ) : KernelM ε τ θ Unit := do
  acquire (.object (.timer root))
  progressPop cpu now (some root)
  release (.engine cpu)
  if ((← read).machine.timer root).hdr.waitercount > 0 then
    objSatisfy p cpu (.timer root) true
    write fun k => k.setHdr (.timer root) { k.hdr (.timer root) with signalcount := 1 }
  let dpc := ((← read).machine.timer root).dpc
  release (.object (.timer root))
  match dpc with
  | some dpc => runDpc p cpu dpc
  | none => return ()

def timeEngineProgress : List Nat → KernelM ε τ θ Unit
  | [] => fail .fuel
  | now :: nows => do
    write fun k => { k with clock := now }
    acquire (.engine cpu)
    let m := (← read).machine
    let root := (m.heap cpu).argmin fun tp => (m.timer tp).deadline
    match root.filter fun root => (m.timer root).deadline ≤ now with
    | some root =>
      fire p cpu now root
      timeEngineProgress nows
    | none =>
      progressPop cpu now root
      release (.engine cpu)

-- The thread that is switched to releases the lock of the thread that was current.
def schedSwitchThread (next : θ) : KernelM ε τ θ Unit := do
  write fun k => k.setScheduler cpu { k.scheduler cpu with threadCurrent := next }
  timerUninstall cpu (p.waitTimer next)

def schedYieldInternal : KernelM ε τ θ Unit := do
  let next ← withLock (.sched cpu) do
    let k ← read
    match schedNext (k.cpu p cpu) 0 with
    | some (next, c) => do
      write fun k => k.setCpu cpu c
      return next
    | none => return (k.scheduler cpu).idleThread
  schedSwitchThread p cpu next

def schedPreempt (next : θ) : KernelM ε τ θ Unit := do
  withLock (.sched cpu) <|
    write fun k => k.setScheduler cpu { k.scheduler cpu with threadNext := none }
  let sched := (← read).scheduler cpu
  withLock (.thread sched.threadCurrent) do
    if sched.threadCurrent ≠ sched.idleThread then
      withLock (.sched cpu) <| schedInsert p cpu sched.threadCurrent
    schedSwitchThread p cpu next

-- The queue holds `timer_update` or nothing. Every round has its readings of the clock.
def dpcRunQueue : List (List Nat) → KernelM ε τ θ Unit
  | [] => fail .fuel
  | nows :: rounds => do
    let enqueued ← withLock (.dpc cpu) do
      let engine := (← read).machine.engine cpu
      write fun k => { k with machine := k.machine.setEngine cpu { engine with update := false } }
      return engine.update
    if enqueued then
      timeEngineProgress p cpu nows
      dpcRunQueue rounds

-- The loop of `softint_dispatch`, which the thread that was switched to goes on with.
def softintDispatch : List (List (List Nat)) → KernelM ε τ θ Unit
  | [] => fail .fuel
  | rounds :: rest => do
    if (← read).pending cpu then
      write fun k => k.setScheduler cpu { k.scheduler cpu with softintPending := false }
      dpcRunQueue p cpu rounds
      match ((← read).scheduler cpu).threadNext with
      | some next => schedPreempt p cpu next
      | none => pure ()
      softintDispatch rest

-- `irql_lower` to a level below IRQL_DISPATCH
def irqlLower (rounds : List (List (List Nat))) : KernelM ε τ θ Unit := do
  if (← read).pending cpu then
    softintDispatch p cpu rounds

-- `sched_wait_single`, up to the switch if the thread blocks: whether the call has returned.
def schedWaitSingle (o : ObjRef ε τ) : KernelM ε τ θ Bool := do
  let thread := ((← read).scheduler cpu).threadCurrent
  let signaled ← withLock (.object o) do
    let (signaled, d) := waitSection ((← read).disp o) thread
    write fun k => k.setDisp o d
    return signaled
  if signaled then
    return true
  else
    withLock (.thread thread) do
      write fun k => k.setState thread .waiting
      schedYieldInternal p cpu
    return false

def waitReturn (o : ObjRef ε τ) (thread : θ) : KernelM ε τ θ Unit :=
  withLock (.object o) <| update fun k => do return k.setDisp o (← dequeueWb (k.disp o) thread)

end Locked
end Nyy
