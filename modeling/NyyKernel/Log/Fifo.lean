import NyyKernel.Lib.Ring
import NyyKernel.Log.Impl

namespace Nyy
namespace Log

structure LogString where
  src : List UInt8
  size : Nat
  valid : size ≤ src.length
  short : size < msgBufSize

def LogString.bytes (str : LogString) : List UInt8 := str.src.take str.size

inductive LogOp where
  | write (str : LogString)
  | read

def LogBuffer.run (cfg : Config) : LogBuffer → List LogOp → Except Fault (List (Option LogMessage))
  | _, [] => return []
  | lb, .write str :: ops => do
    let lb ← logbufferWrite cfg lb str.src str.size
    lb.run cfg ops
  | lb, .read :: ops => do
    let (msg, lb) := logbufferRead lb
    return msg :: (← lb.run cfg ops)

def fifoRun (capacity : Nat) : List (List UInt8) → List LogOp → List (Option (List UInt8))
  | _, [] => []
  | q, .write str :: ops => fifoRun capacity (Fifo.write capacity q str.bytes) ops
  | q, .read :: ops => (Fifo.read q).1 :: fifoRun capacity (Fifo.read q).2 ops

def LogMessage.view (msg : LogMessage) : Nat × List UInt8 × Option UInt8 :=
  (msg.msgSz, msg.text, msg.buf.toList[msg.msgSz]?)

def stringView (str : List UInt8) : Nat × List UInt8 × Option UInt8 := (str.length, str, some 0)

variable {cfg : Config} {lb : LogBuffer} {q : List LogMessage} {strs : List (List UInt8)} {size : Nat}
  {src : List UInt8}

theorem maskedNext_eq {i : Nat} (h : i < msgsSize) : maskedNext i = (i + 1) % msgsSize := by
  have hsize : msgsSize = 2 ^ 10 := rfl
  unfold maskedNext
  rw [hsize] at h ⊢
  rw [Nat.and_two_pow_sub_one_eq_mod, Nat.mod_eq_of_lt (a := i + 1) (by omega)]

theorem memcpy_eq {n : Nat} (dest : Vector UInt8 n) (hn : size ≤ n) (hsrc : size ≤ src.length)
    : ∃ buf, memcpy dest src size = .ok buf ∧ buf.toList.take size = src.take size := by
  unfold memcpy
  rw [if_pos ⟨hn, hsrc⟩]
  refine ⟨_, rfl, ?_⟩
  apply List.ext_getElem?
  intro i
  by_cases hi : i < size
  . rw [List.getElem?_take_of_lt hi, List.getElem?_take_of_lt hi]
    simp [hi, show i < n by omega, show i < src.length by omega]
  . rw [List.getElem?_eq_none (by simp; omega), List.getElem?_eq_none (by simp; omega)]

theorem logbufferWrite_slot (dest : Vector UInt8 msgBufSize) (hsize : size < msgBufSize)
    (hsrc : size ≤ src.length)
    : ∃ buf, (memcpy dest src size >>= fun buf => store buf size 0) = .ok buf ∧
        (⟨size, buf⟩ : LogMessage).view = stringView (src.take size) := by
  rcases memcpy_eq dest (Nat.le_of_lt hsize) hsrc with ⟨buf, hok, htake⟩
  rw [hok, Except.ok_bind]
  unfold store
  rw [dif_pos hsize]
  refine ⟨_, rfl, ?_⟩
  have hlength : (src.take size).length = size := by simp [hsrc]
  unfold LogMessage.view LogMessage.text stringView
  rw [hlength]
  have htext : (buf.set size 0 hsize).toList.take size = src.take size := by
    rw [Vector.toList_set, List.take_set_of_le (Nat.le_refl _), htake]
  simp [hsize, htext]

theorem logbufferWrite_cases (cfg : Config) (lb : LogBuffer) (hsize : size < msgBufSize)
    (hsrc : size ≤ src.length)
    : (maskedNext lb.head = lb.tail ∧ logbufferWrite cfg lb src size = .ok lb) ∨
      (maskedNext lb.head ≠ lb.tail ∧ ∃ lb' msg, logbufferWrite cfg lb src size = .ok lb' ∧
        lb'.head = maskedNext lb.head ∧ lb'.tail = lb.tail ∧
        lb'.messages = Function.update lb.messages lb.head msg ∧
        msg.view = stringView (src.take size)) := by
  unfold logbufferWrite
  dsimp only
  split
  . next hfull => exact .inl ⟨hfull, rfl⟩
  . next hroom =>
    rcases logbufferWrite_slot (lb.messages lb.head).buf hsize hsrc with ⟨buf, hok, hview⟩
    rcases Except.bind_eq_ok hok with ⟨buf', hcopy, hstore⟩
    rw [check_of cfg (by simpa using hsize), Except.ok_bind, hcopy, Except.ok_bind, hstore,
      Except.ok_bind]
    exact .inr ⟨hroom, _, _, rfl, rfl, rfl, rfl, hview⟩

def LogBuffer.Contains (lb : LogBuffer) (strs : List (List UInt8)) : Prop :=
  ∃ q, Ring.Holds msgsSize lb.messages lb.head lb.tail q ∧
    q.map LogMessage.view = strs.map stringView

namespace LogBuffer.Contains

theorem init : logbufferInit.Contains [] := by
  exact ⟨[], Ring.Holds.nil _ (by decide), rfl⟩

theorem length_le (h : lb.Contains strs) : strs.length ≤ msgsSize - 1 := by
  rcases h with ⟨q, hq, hmap⟩
  have hlength := congrArg List.length hmap
  rw [List.length_map, List.length_map] at hlength
  have := hq.room
  omega

theorem write (cfg : Config) (h : lb.Contains strs) (hsize : size < msgBufSize) (hsrc : size ≤ src.length)
    : ∃ lb', logbufferWrite cfg lb src size = .ok lb' ∧
        lb'.Contains (Fifo.write (msgsSize - 1) strs (src.take size)) := by
  rcases h with ⟨q, hq, hmap⟩
  have hlength := congrArg List.length hmap
  rw [List.length_map, List.length_map] at hlength
  have hfull := hq.full_iff
  rw [← maskedNext_eq lb.headLt] at hfull
  unfold Fifo.write
  rcases logbufferWrite_cases cfg lb hsize hsrc with
    ⟨heq, hok⟩ | ⟨hne, lb', msg, hok, hhead, htail, hmessages, hview⟩
  . have := hfull.mp heq
    rw [if_neg (by omega)]
    exact ⟨lb, hok, q, hq, hmap⟩
  . have hroom : q.length < msgsSize - 1 := by
      have := hq.room
      have := mt hfull.mpr hne
      omega
    rw [if_pos (by omega)]
    refine ⟨lb', hok, q ++ [msg], ?_, ?_⟩
    . rw [hmessages, hhead, htail, maskedNext_eq lb.headLt]
      exact hq.push hroom
    . rw [List.map_append, List.map_append, hmap, List.map_singleton, List.map_singleton, hview]

theorem read (h : lb.Contains strs)
    : (logbufferRead lb).1.map LogMessage.view = (Fifo.read strs).1.map stringView ∧
        (logbufferRead lb).2.Contains (Fifo.read strs).2 := by
  rcases h with ⟨q, hq, hmap⟩
  have hempty := hq.eq_nil_iff
  unfold logbufferRead
  cases q with
  | nil =>
    rw [if_pos (hempty.mpr rfl)]
    have hnil : strs = [] := by simpa using hmap.symm
    subst hnil
    exact ⟨rfl, [], hq, rfl⟩
  | cons msg q =>
    rw [if_neg (by simp [hempty])]
    cases strs with
    | nil => cases hmap
    | cons str strs =>
      rw [List.map_cons, List.map_cons, List.cons.injEq] at hmap
      rcases hq.pop with ⟨hslot, hq⟩
      refine ⟨?_, q, ?_, hmap.2⟩
      . dsimp only [Fifo.read]
        rw [hslot, Option.map_some, Option.map_some, hmap.1]
      . dsimp only
        rw [maskedNext_eq lb.tailLt]
        exact hq

theorem run (h : lb.Contains strs) (ops : List LogOp)
    : ∃ msgs, lb.run cfg ops = .ok msgs ∧
        msgs.map (Option.map LogMessage.view) =
          (fifoRun (msgsSize - 1) strs ops).map (Option.map stringView) := by
  induction ops generalizing lb strs with
  | nil => exact ⟨[], rfl, rfl⟩
  | cons op ops ih =>
    cases op with
    | write str =>
      rcases h.write cfg str.short str.valid with ⟨lb', hok, h'⟩
      rcases ih h' with ⟨msgs, hrun, hmap⟩
      refine ⟨msgs, ?_, hmap⟩
      unfold LogBuffer.run
      rw [hok]
      exact hrun
    | read =>
      rcases h.read with ⟨hfirst, h'⟩
      rcases ih h' with ⟨msgs, hrun, hmap⟩
      refine ⟨(logbufferRead lb).1 :: msgs, ?_, ?_⟩
      . unfold LogBuffer.run
        dsimp only
        rw [hrun]
        rfl
      . unfold fifoRun
        rw [List.map_cons, List.map_cons, hfirst, hmap]

end LogBuffer.Contains

theorem logbuffer_fifo (cfg : Config) (ops : List LogOp)
    : ∃ msgs, logbufferInit.run cfg ops = .ok msgs ∧
        msgs.map (Option.map LogMessage.view) =
          (fifoRun (msgsSize - 1) [] ops).map (Option.map stringView) := by
  exact LogBuffer.Contains.init.run ops

end Log
end Nyy
