import Mathlib.Data.List.MinMax
import NyyKernel.Dispatch.Impl
import NyyKernel.Lib.Word

/-!
This module contains the timers of `kernel/lib/time.c` on a machine with any number of processors, each
with an engine of its own, whose heap is the list of the timers in it. The locks are left out here, so
`timer_set` can cancel a queued timer. What `HEAP_REMOVE` and `HEAP_INSERT` do to a timer that is not,
or already is, in the heap is not defined.
-/

namespace Nyy

inductive TimerState where
  | unused
  | fired
  | queued
  | canceled
  deriving DecidableEq, Repr

structure Timer (θ : Type) where
  hdr : ObjHeader θ
  dpc : Option Nat
  deadline : Nat
  timerState : TimerState
  -- the processor of the engine that the timer is queued at
  engine : Option Nat
  deriving DecidableEq

structure TimerEngine (τ : Type) where
  timerlist : List τ
  nextDeadline : Nat
  -- what the hardware timer was armed with
  armed : Nat
  -- `timer_update` of the processor was enqueued
  update : Bool

structure Machine (τ θ : Type) where
  timer : τ → Timer θ
  wait : θ → WaitInfo
  engine : Nat → TimerEngine τ
  -- the contexts of the dpcs
  context : Nat → Nat × Nat

namespace Machine

variable {τ θ : Type}

def heap (m : Machine τ θ) (ep : Nat) : List τ := (m.engine ep).timerlist

def setEngine (m : Machine τ θ) (ep : Nat) (engine : TimerEngine τ) : Machine τ θ :=
  { m with engine := Function.update m.engine ep engine }

def dpcEnqueue (m : Machine τ θ) (cpu : Nat) : Machine τ θ :=
  m.setEngine cpu { m.engine cpu with update := true }

def disp (m : Machine τ θ) (tp : τ) : Disp θ := ⟨(m.timer tp).hdr, m.wait⟩

def Peek (m : Machine τ θ) (ep : Nat) : Option τ → Prop
  | none => m.heap ep = []
  | some root => root ∈ m.heap ep ∧
    ∀ tp ∈ m.heap ep, (m.timer root).deadline ≤ (m.timer tp).deadline

variable [DecidableEq τ]

def setTimer (m : Machine τ θ) (tp : τ) (timer : Timer θ) : Machine τ θ :=
  { m with timer := Function.update m.timer tp timer }

def heapRemove (m : Machine τ θ) (ep : Nat) (tp : τ) : Except Fault (Machine τ θ) :=
  if tp ∈ m.heap ep then
    return m.setEngine ep { m.engine ep with timerlist := (m.heap ep).erase tp }
  else
    .error .undefined

def heapInsert (m : Machine τ θ) (ep : Nat) (tp : τ) : Except Fault (Machine τ θ) :=
  if tp ∈ m.heap ep then
    .error .undefined
  else
    return m.setEngine ep { m.engine ep with timerlist := tp :: m.heap ep }

def timerInit (m : Machine τ θ) (tp : τ) : Machine τ θ :=
  m.setTimer tp { m.timer tp with
    hdr := objInit .timer
    engine := none
    deadline := Word.sub 0 1
    timerState := .unused }

-- The sections of `timer_uninstall` under the locks, for the engine that the timer had before.
def timerUninstallSection (cpu : Nat) (m : Machine τ θ) (tp : τ)
    : Option Nat → Except Fault (Machine τ θ)
  | some ep => do
    let m ← m.heapRemove ep tp
    let m := m.setTimer tp { m.timer tp with engine := none, timerState := .canceled }
    return m.dpcEnqueue cpu
  | none => return m.setTimer tp { m.timer tp with timerState := .canceled }

def timerUninstall (cpu : Nat) (m : Machine τ θ) (tp : τ) : Except Fault (Machine τ θ) :=
  timerUninstallSection cpu m tp (m.timer tp).engine

def timerSet (cpu : Nat) (m : Machine τ θ) (tp : τ) (deadline : Nat) (dpc : Option Nat)
    : Except Fault (Machine τ θ) := do
  let m ← if (m.timer tp).timerState = .queued then timerUninstall cpu m tp else pure m
  return m.setTimer tp { m.timer tp with dpc := dpc, deadline := deadline }

def timerSetIn (cpu : Nat) (m : Machine τ θ) (now : Nat) (tp : τ) (inNs : Nat) (dpc : Option Nat)
    : Except Fault (Machine τ θ) :=
  timerSet cpu m tp (Word.add now inNs) dpc

def timerInstall (cfg : Config) (cpu : Nat) (m : Machine τ θ) (tp : τ) (context1 context2 : Nat)
    : Except Fault (Machine τ θ) := do
  check cfg ((m.timer tp).timerState != .queued)
  if (m.timer tp).engine.isSome then
    return m
  else
    let timer := { m.timer tp with engine := some cpu, timerState := .queued }
    let context := match timer.dpc with
      | some dpc => Function.update m.context dpc (context1, context2)
      | none => m.context
    let m := m.setTimer tp { timer with hdr := { timer.hdr with signalcount := 0 } }
    let m ← { m with context := context }.heapInsert cpu tp
    return m.dpcEnqueue cpu

-- one round of `time_engine_progress`, up to the point where the root of the heap has fired
def timeEngineProgressPop (cpu : Nat) (m : Machine τ θ) (now : Nat) (root : Option τ)
    : Except Fault (Option τ × Machine τ θ) :=
  match root with
  | none => return (none, m.setEngine cpu { m.engine cpu with nextDeadline := Word.sub 0 1, armed := 0 })
  | some root =>
    let deadline := (m.timer root).deadline
    if deadline > now then
      return (none, m.setEngine cpu { m.engine cpu with nextDeadline := deadline, armed := deadline })
    else do
      let m ← m.heapRemove cpu root
      return (some root, m.setTimer root { m.timer root with engine := none, timerState := .fired })

-- the rest of the round, without the dpc of the timer
def timeEngineProgressSatisfy [DecidableEq θ] (cfg : Config) (m : Machine τ θ) (root : τ)
    : Except Fault (Machine τ θ) :=
  if (m.timer root).hdr.waitercount > 0 then do
    let d ← objSatisfy cfg (m.disp root) true
    let m := { m with wait := d.wait }
    return m.setTimer root { m.timer root with hdr := { d.hdr with signalcount := 1 } }
  else
    return m

def timeEngineProgressRound [DecidableEq θ] (cfg : Config) (cpu : Nat) (m : Machine τ θ) (now : Nat)
    : Except Fault (Option τ × Machine τ θ) := do
  let root := (m.heap cpu).argmin fun tp => (m.timer tp).deadline
  let (fired, m) ← timeEngineProgressPop cpu m now root
  match fired with
  | some root => return (fired, ← timeEngineProgressSatisfy cfg m root)
  | none => return (none, m)

end Machine
end Nyy
