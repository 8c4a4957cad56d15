import NyyKernel.Sched.Impl

/-!
This module contains dispatcher objects: `kernel/sched/dispatch.c` and `kernel/lib/event.c`. Every
function is one section under the lock of the object. A wait block lives on the stack of the thread
that waits, so the thread stands for it.
-/

namespace Nyy

inductive ObjType where
  | anon
  | event
  | eventNotif
  | timer
  | mutex
  deriving DecidableEq, Repr

def statusOk : Int := 0
def statusTimeout : Int := 1
def statusWaiting : Int := 2
def statusRangeWait : Int := 0x1000

structure ObjHeader (θ : Type) where
  type : ObjType
  signalcount : Int
  waitercount : Int
  waitblockList : List θ
  deriving DecidableEq

structure WaitInfo where
  state : ThreadState
  waitStatus : Int
  waitCount : Int
  dequeued : Bool
  unwaited : Bool
  deriving DecidableEq, Repr

structure Disp (θ : Type) where
  hdr : ObjHeader θ
  wait : θ → WaitInfo

section

variable {θ : Type} [DecidableEq θ]

def Disp.setWait (d : Disp θ) (t : θ) (w : WaitInfo) : Disp θ :=
  { d with wait := Function.update d.wait t w }

omit [DecidableEq θ] in
def objInit (type : ObjType) : ObjHeader θ := ⟨type, 0, 0, []⟩

omit [DecidableEq θ] in
def eventInit (notif signaled : Bool) : ObjHeader θ :=
  { objInit (if notif then .eventNotif else .event) with signalcount := if signaled then 1 else 0 }

-- The section of `sched_wait_single` under the lock of the object: whether the wait is over at once.
def waitSection (d : Disp θ) (t : θ) : Bool × Disp θ :=
  let d := d.setWait t { d.wait t with
    waitStatus := statusWaiting, waitCount := 1, dequeued := false, unwaited := false }
  if d.hdr.signalcount ≠ 0 then
    -- object already signaled
    let hdr := if d.hdr.type ≠ .eventNotif then
        { d.hdr with signalcount := d.hdr.signalcount - 1 }
      else
        d.hdr
    (true, { d with hdr := hdr }.setWait t { d.wait t with waitStatus := statusOk })
  else
    (false, { d with hdr := { d.hdr with
      waitblockList := d.hdr.waitblockList ++ [t]
      waitercount := d.hdr.waitercount + 1 } })

-- The section of `wait_thread` under the lock of the thread, up to the switch.
def waitBlock (d : Disp θ) (t : θ) : Disp θ := d.setWait t { d.wait t with state := .waiting }

def schedWaitSingle (d : Disp θ) (t : θ) : Bool × Disp θ :=
  match waitSection d t with
  | (true, d) => (true, d)
  | (false, d) => (false, waitBlock d t)

def dequeueWb (d : Disp θ) (t : θ) : Except Fault (Disp θ) :=
  if (d.wait t).dequeued then
    return d
  else if d.hdr.waitercount = 0 then
    -- panic
    .error .assertion
  else
    return { d with hdr := { d.hdr with
      waitblockList := d.hdr.waitblockList.erase t
      waitercount := d.hdr.waitercount - 1 } }

-- The rest of `wait_thread` and `sched_wait_single` after the thread was resumed.
def waitReturn (d : Disp θ) (t : θ) : Except Fault (Int × Disp θ) := do
  let d ← dequeueWb d t
  return ((d.wait t).waitStatus, d)

-- `sched_unwait`. The thread becomes ready in `sched_resume`.
def schedUnwait (cfg : Config) (d : Disp θ) (t : θ) (status : Int) : Except Fault (Disp θ) := do
  check cfg ((d.wait t).state == .waiting)
  if (d.wait t).waitStatus ≠ statusWaiting then
    return d
  else
    return d.setWait t { d.wait t with waitStatus := status, unwaited := true, state := .ready }

-- One round of the loop of `obj_satisfy`: whether the loop goes on.
def satisfyRound (cfg : Config) (all : Bool) (d : Disp θ) (t : θ) : Except Fault (Bool × Disp θ) := do
  check cfg ((d.wait t).waitCount != -1)
  let d := d.setWait t { d.wait t with dequeued := true }
  let d := { d with hdr := { d.hdr with
    waitblockList := d.hdr.waitblockList.erase t
    waitercount := d.hdr.waitercount - 1 } }
  if (d.wait t).unwaited then
    return (true, d)
  else
    let d ← schedUnwait cfg d t (statusRangeWait + 0)
    return (all, d)

-- The loop of `obj_satisfy` over the wait blocks that are on the list.
def objSatisfyList (cfg : Config) (all : Bool) (d : Disp θ) : List θ → Except Fault (Disp θ)
  | [] => return d
  | t :: ts => do
    let (more, d) ← satisfyRound cfg all d t
    if more then objSatisfyList cfg all d ts else return d

def objSatisfy (cfg : Config) (d : Disp θ) (all : Bool) : Except Fault (Disp θ) :=
  objSatisfyList cfg all d d.hdr.waitblockList

def waitTimerExp (cfg : Config) (d : Disp θ) (t : θ) : Except Fault (Disp θ) :=
  if (d.wait t).state ≠ .waiting then
    return d
  else
    schedUnwait cfg d t statusTimeout

omit [DecidableEq θ] in
def eventReset (d : Disp θ) : Int × Disp θ :=
  (d.hdr.signalcount, { d with hdr := { d.hdr with signalcount := 0 } })

def eventSignal (cfg : Config) (d : Disp θ) : Except Fault (Int × Disp θ) := do
  if d.hdr.signalcount ≠ 0 then
    return (1, d)
  else if d.hdr.waitercount ≠ 0 then
    if d.hdr.type = .eventNotif then
      -- satisfy all
      let d ← objSatisfy cfg d true
      return (0, { d with hdr := { d.hdr with signalcount := 1 } })
    else
      return (0, ← objSatisfy cfg d false)
  else
    return (0, { d with hdr := { d.hdr with signalcount := 1 } })

end
end Nyy
