import NyyKernel.Dispatch.Impl

/-!
This module contains the mutex of `kernel/lib/mutex.c` as a system of threads that use one mutex. A
step of a thread is one section under the lock of the event.
-/

namespace Nyy

structure Mutex (θ : Type) where
  event : Disp θ
  owner : Option θ

inductive MutexPc where
  | idle
  -- In front of the check in `mutex_acquire`.
  | check
  -- In front of the section of `sched_wait_single`.
  | wait
  | blocked
  | holding
  -- In front of the section of `mutex_release` that resets the owner.
  | reset
  | signal
  deriving DecidableEq, Repr

structure MutexSys (θ : Type) where
  mutex : Mutex θ
  pc : θ → MutexPc

section

variable {θ : Type} [DecidableEq θ]

omit [DecidableEq θ] in
def mutexInit (wait : θ → WaitInfo) : Mutex θ := ⟨⟨eventInit false true, wait⟩, none⟩

-- The section at the top of the loop in `mutex_acquire`: whether the call returns.
def mutexAcquireCheck (cfg : Config) (mutex : Mutex θ) (t : θ) : Except Fault (Bool × Mutex θ) := do
  if mutex.event.hdr.signalcount = 1 then
    check cfg (mutex.owner == none)
    let hdr := { mutex.event.hdr with signalcount := 0 }
    return (true, ⟨{ mutex.event with hdr := hdr }, some t⟩)
  else
    return (false, mutex)

def MutexSys.goto (s : MutexSys θ) (t : θ) (pc : MutexPc) (mutex : Mutex θ) : MutexSys θ :=
  ⟨mutex, Function.update s.pc t pc⟩

def mutexStep (cfg : Config) (s : MutexSys θ) (t : θ) : Except Fault (MutexSys θ) :=
  match s.pc t with
  | .idle => return s.goto t .check s.mutex
  | .check => do
    let (acquired, mutex) ← mutexAcquireCheck cfg s.mutex t
    return s.goto t (if acquired then .holding else .wait) mutex
  | .wait =>
    match schedWaitSingle s.mutex.event t with
    -- the call returns STATUS_OK, and the loop goes on
    | (true, event) => return s.goto t .check { s.mutex with event := event }
    | (false, event) => return s.goto t .blocked { s.mutex with event := event }
  | .blocked => do
    let (status, event) ← waitReturn s.mutex.event t
    -- any status but STATUS_OK makes `mutex_acquire` return STATUS_TIMEOUT
    return s.goto t (if status ≠ statusOk then .idle else .check) { s.mutex with event := event }
  | .holding => do
    check cfg (s.mutex.owner == some t)
    return s.goto t .reset s.mutex
  | .reset => return s.goto t .signal { s.mutex with owner := none }
  | .signal => do
    let (_, event) ← eventSignal cfg s.mutex.event
    return s.goto t .idle { s.mutex with event := event }

def MutexSys.Enabled (s : MutexSys θ) (t : θ) : Prop :=
  s.pc t = .blocked → (s.mutex.event.wait t).state ≠ .waiting

instance (s : MutexSys θ) (t : θ) : Decidable (s.Enabled t) :=
  inferInstanceAs (Decidable (_ → _))

def MutexInit (s : MutexSys θ) : Prop :=
  (∃ wait, s.mutex = mutexInit wait) ∧ ∀ t, s.pc t = .idle

def MutexStep (cfg : Config) (s : MutexSys θ) (t : θ) (s' : MutexSys θ) : Prop :=
  s.Enabled t ∧ mutexStep cfg s t = .ok s'

def MutexSys.Owns (s : MutexSys θ) (t : θ) : Prop := s.pc t = .holding ∨ s.pc t = .reset

def MutexSys.Satisfied (s : MutexSys θ) (t : θ) : Prop :=
  s.pc t = .blocked ∧ (s.mutex.event.wait t).state ≠ .waiting

end
end Nyy
