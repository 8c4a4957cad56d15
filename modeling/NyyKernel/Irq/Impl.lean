import Mathlib.Tactic
import NyyKernel.Lib.Fault

/-!
This module contains the model of interrupt levels, soft interrupts and deferred procedure calls on one CPU.
The CPU takes one step of the topmost call at a time; a hardware interrupt can come between any two steps. A
section in which interrupts are disabled on purpose is a single step.
-/

namespace Nyy
namespace Irq

def irqlDispatch : Nat := 2
def irqlHigh : Nat := 15

def pendingBit (irql : Nat) : BitVec 64 := 1 <<< (irql - 1)

inductive IrqPc where
  | raise
  | sti
  | call
  | cli
  | lower
  | iret
  deriving DecidableEq, Repr

inductive LowerPc where
  | enter
  | set
  | test
  | ret
  deriving DecidableEq, Repr

-- `softint_dispatch` with `dpc_interrupt` in its loop, from `ack` to `disable`.
inductive DispatchPc where
  | cli
  | test
  | ack
  | raise
  | enable
  | run
  | disable
  | set
  | restore
  deriving DecidableEq, Repr

inductive Frame (δ κ : Type) where
  -- Code of a thread, of an interrupt handler or of a DPC, with the levels to lower to again.
  | code (saved : List Nat)
  | irq (number old : Nat) (pc : IrqPc)
  | lower (level : Nat) (pc : LowerPc)
  | dispatch (newirql : Nat) (old : Bool) (pc : DispatchPc)
  -- `dpc_run_queue` before it looks at the queue
  | runQueue
  -- `dpc_run_queue` before it calls the function of the DPC it took
  | runCall (dpc : δ) (context1 context2 : κ)
  deriving DecidableEq, Repr

structure Cpu (δ κ : Type) where
  irql : Nat
  ints : Bool
  softintPending : BitVec 64
  dpcq : List δ
  enqueued : δ → Bool
  context1 : δ → κ
  context2 : δ → κ
  stack : List (Frame δ κ)
  -- The calls of `dpc_enqueue` so far that found their DPC not enqueued.
  accepted : List (δ × κ × κ)
  -- The calls of functions of DPCs so far.
  called : List (δ × κ × κ)

section

variable {δ κ : Type}

def softintIssue (s : Cpu δ κ) (irql : Nat) : Cpu δ κ :=
  { s with softintPending := s.softintPending ||| pendingBit irql }

def softintAck (s : Cpu δ κ) (irql : Nat) : Cpu δ κ :=
  { s with softintPending := s.softintPending &&& ~~~(pendingBit irql) }

def irqlRaise (cfg : Config) (s : Cpu δ κ) (level : Nat) : Except Fault (Cpu δ κ) := do
  check cfg (decide (s.irql ≤ level))
  .ok { s with irql := level }

def dpcEnqueue [DecidableEq δ] (s : Cpu δ κ) (dpc : δ) (context1 context2 : κ) : Cpu δ κ :=
  if s.enqueued dpc then
    s
  else
    softintIssue
      { s with
        context1 := Function.update s.context1 dpc context1
        context2 := Function.update s.context2 dpc context2
        dpcq := s.dpcq ++ [dpc]
        enqueued := Function.update s.enqueued dpc true
        accepted := s.accepted ++ [(dpc, context1, context2)] }
      irqlDispatch

/-!
The steps of the calls. `rest` are the calls below the topmost one.
-/

def irqStep (cfg : Config) (s : Cpu δ κ) (rest : List (Frame δ κ)) (number old : Nat)
    : IrqPc → Except Fault (Cpu δ κ)
  | .raise => do
    let s' ← irqlRaise cfg s (number >>> 4)
    .ok { s' with stack := .irq number s.irql .sti :: rest }
  | .sti => .ok { s with ints := true, stack := .irq number old .call :: rest }
  | .call => .ok { s with stack := .code [] :: .irq number old .cli :: rest }
  | .cli => .ok { s with ints := false, stack := .irq number old .lower :: rest }
  | .lower => .ok { s with stack := .lower old .enter :: .irq number old .iret :: rest }
  -- interrupts were enabled when this one came
  | .iret => .ok { s with ints := true, stack := rest }

def lowerStep (cfg : Config) (s : Cpu δ κ) (rest : List (Frame δ κ)) (level : Nat)
    : LowerPc → Except Fault (Cpu δ κ)
  | .enter => do
    check cfg (decide (level ≤ s.irql))
    .ok { s with stack := .lower level .set :: rest }
  | .set => .ok { s with irql := level, stack := .lower level .test :: rest }
  | .test =>
    if s.softintPending >>> level ≠ 0 then
      .ok { s with stack := .dispatch level false .cli :: .lower level .ret :: rest }
    else
      .ok { s with stack := .lower level .ret :: rest }
  | .ret => .ok { s with stack := rest }

def dispatchStep (s : Cpu δ κ) (rest : List (Frame δ κ)) (newirql : Nat) (old : Bool)
    : DispatchPc → Cpu δ κ
  | .cli => { s with ints := false, stack := .dispatch newirql s.ints .test :: rest }
  | .test =>
    if s.softintPending &&& (0xff <<< newirql) = 0 then
      { s with stack := .dispatch newirql old .set :: rest }
    else if s.softintPending &&& pendingBit irqlDispatch ≠ 0 then
      { s with stack := .dispatch newirql old .ack :: rest }
    else
      { s with stack := .dispatch newirql old .test :: rest }
  | .ack => softintAck { s with stack := .dispatch newirql old .raise :: rest } irqlDispatch
  | .raise => { s with irql := irqlDispatch, stack := .dispatch newirql old .enable :: rest }
  | .enable => { s with ints := true, stack := .dispatch newirql old .run :: rest }
  | .run => { s with stack := .runQueue :: .dispatch newirql old .disable :: rest }
  -- there is no thread to switch to
  | .disable => { s with ints := false, stack := .dispatch newirql old .test :: rest }
  | .set => { s with irql := newirql, stack := .dispatch newirql old .restore :: rest }
  | .restore => { s with ints := old, stack := rest }

def runQueueStep [DecidableEq δ] (s : Cpu δ κ) (rest : List (Frame δ κ)) : Cpu δ κ :=
  match s.dpcq with
  | [] => { s with stack := rest }
  | dpc :: dpcq =>
    { s with
      dpcq := dpcq
      enqueued := Function.update s.enqueued dpc false
      stack := .runCall dpc (s.context1 dpc) (s.context2 dpc) :: rest }

def runCallStep (s : Cpu δ κ) (rest : List (Frame δ κ)) (dpc : δ) (context1 context2 : κ)
    : Cpu δ κ :=
  { s with
    called := s.called ++ [(dpc, context1, context2)]
    stack := .code [] :: .runQueue :: rest }

inductive Op (δ κ : Type) where
  | interrupt (number : Nat)
  | raise (level : Nat)
  -- The code lowers the level to what it was before the last raise.
  | lower
  | enqueue (dpc : δ) (context1 context2 : κ)
  | ret
  | advance

def exec [DecidableEq δ] (cfg : Config) (s : Cpu δ κ) (op : Op δ κ) : Except Fault (Cpu δ κ) :=
  match op, s.stack with
  | .interrupt number, stack =>
    .ok { s with ints := false, stack := .irq number s.irql .raise :: stack }
  | .raise level, .code saved :: rest => do
    let s' ← irqlRaise cfg s level
    .ok { s' with stack := .code (s.irql :: saved) :: rest }
  | .lower, .code (old :: saved) :: rest =>
    .ok { s with stack := .lower old .enter :: .code saved :: rest }
  | .enqueue dpc context1 context2, .code _ :: _ => .ok (dpcEnqueue s dpc context1 context2)
  | .ret, .code [] :: rest => .ok { s with stack := rest }
  | .advance, .irq number old pc :: rest => irqStep cfg s rest number old pc
  | .advance, .lower level pc :: rest => lowerStep cfg s rest level pc
  | .advance, .dispatch newirql old pc :: rest => .ok (dispatchStep s rest newirql old pc)
  | .advance, .runQueue :: rest => .ok (runQueueStep s rest)
  | .advance, .runCall dpc context1 context2 :: rest =>
    .ok (runCallStep s rest dpc context1 context2)
  | _, _ => .error .undefined

section

variable [DecidableEq δ] {cfg : Config} {s : Cpu δ κ} {rest : List (Frame δ κ)} {saved : List Nat}
  {level old : Nat} {dpc : δ} {context1 context2 : κ}

theorem exec_raise (hs : s.stack = .code saved :: rest)
    : exec cfg s (.raise level) = (do
        let s' ← irqlRaise cfg s level
        .ok { s' with stack := .code (s.irql :: saved) :: rest }) := by
  unfold exec
  rw [hs]

theorem exec_lower (hs : s.stack = .code (old :: saved) :: rest)
    : exec cfg s .lower = .ok { s with stack := .lower old .enter :: .code saved :: rest } := by
  unfold exec
  rw [hs]

theorem exec_enqueue (hs : s.stack = .code saved :: rest)
    : exec cfg s (.enqueue dpc context1 context2) = .ok (dpcEnqueue s dpc context1 context2) := by
  unfold exec
  rw [hs]

theorem exec_ret (hs : s.stack = .code [] :: rest)
    : exec cfg s .ret = .ok { s with stack := rest } := by
  unfold exec
  rw [hs]

theorem exec_irq {number : Nat} {pc : IrqPc} (hs : s.stack = .irq number old pc :: rest)
    : exec cfg s .advance = irqStep cfg s rest number old pc := by
  unfold exec
  rw [hs]

theorem exec_lowerStep {pc : LowerPc} (hs : s.stack = .lower level pc :: rest)
    : exec cfg s .advance = lowerStep cfg s rest level pc := by
  unfold exec
  rw [hs]

theorem exec_dispatch {newirql : Nat} {old : Bool} {pc : DispatchPc}
    (hs : s.stack = .dispatch newirql old pc :: rest)
    : exec cfg s .advance = .ok (dispatchStep s rest newirql old pc) := by
  unfold exec
  rw [hs]

theorem exec_runQueue (hs : s.stack = .runQueue :: rest)
    : exec cfg s .advance = .ok (runQueueStep s rest) := by
  unfold exec
  rw [hs]

theorem exec_runCall (hs : s.stack = .runCall dpc context1 context2 :: rest)
    : exec cfg s .advance = .ok (runCallStep s rest dpc context1 context2) := by
  unfold exec
  rw [hs]

end

def Frame.isCode : Frame δ κ → Bool
  | .code _ => true
  | _ => false

def Enabled (s : Cpu δ κ) : Op δ κ → Prop
  | .interrupt number =>
    s.ints = true ∧ 32 ≤ number ∧ number < 256 ∧ s.irql < number >>> 4
  | .raise level => ∃ saved rest, s.stack = .code saved :: rest ∧ s.irql ≤ level ∧ level ≤ irqlHigh
  | .lower => ∃ old saved rest, s.stack = .code (old :: saved) :: rest
  | .enqueue _ _ _ => ∃ saved rest, s.stack = .code saved :: rest ∧ irqlDispatch ≤ s.irql
  | .ret => ∃ f rest, s.stack = .code [] :: f :: rest
  | .advance => ∃ f rest, s.stack = f :: rest ∧ f.isCode = false

def Init (s : Cpu δ κ) : Prop :=
  s.irql < irqlDispatch ∧ s.ints = true ∧ s.softintPending = 0 ∧ s.dpcq = []
    ∧ (∀ dpc, s.enqueued dpc = false) ∧ s.stack = [.code []] ∧ s.accepted = [] ∧ s.called = []

def Step [DecidableEq δ] (cfg : Config) (s : Cpu δ κ) (op : Op δ κ) (s' : Cpu δ κ) : Prop :=
  Enabled s op ∧ exec cfg s op = .ok s'

def nextOp (s : Cpu δ κ) : Option (Op δ κ) :=
  match s.stack with
  | [] => none
  | [.code []] => none
  | .code [] :: _ :: _ => some .ret
  | .code (_ :: _) :: _ => some .lower
  | _ => some .advance

def settle [DecidableEq δ] (cfg : Config) : Nat → Cpu δ κ → Except Fault (Cpu δ κ)
  | 0, s => .ok s
  | n + 1, s =>
    match nextOp s with
    | none => .ok s
    | some op => do settle cfg n (← exec cfg s op)

end

end Irq
end Nyy
