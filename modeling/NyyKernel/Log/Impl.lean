import Mathlib.Logic.Function.Basic
import NyyKernel.Lib.Fault
import NyyKernel.Lib.Word

/-!
This module contains the log of `kernel/lib/log.c`.
-/

namespace Nyy
namespace Log

def msgBufSize : Nat := 512

def msgsSize : Nat := 1024

structure LogMessage where
  msgSz : Nat
  buf : Vector UInt8 msgBufSize

def maskedNext (i : Nat) : Nat := (i + 1) % 2 ^ 32 &&& (msgsSize - 1)

theorem maskedNext_lt (i : Nat) : maskedNext i < msgsSize := by
  have hle : maskedNext i ≤ msgsSize - 1 := Nat.and_le_right
  have hpos : 0 < msgsSize := by decide
  omega

structure LogBuffer where
  messages : Nat → LogMessage
  head : Nat
  tail : Nat
  headLt : head < msgsSize
  tailLt : tail < msgsSize

def logbufferInit : LogBuffer where
  messages _ := ⟨0, Vector.replicate msgBufSize 0⟩
  head := 0
  tail := 0
  headLt := by decide
  tailLt := by decide

def memcpy {n : Nat} (dest : Vector UInt8 n) (src : List UInt8) (size : Nat)
    : Except Fault (Vector UInt8 n) :=
  if size ≤ n ∧ size ≤ src.length then
    return Vector.ofFn fun i => if i.val < size then src.getD i.val 0 else dest.get i
  else
    .error .undefined

def store {n : Nat} (dest : Vector UInt8 n) (i : Nat) (c : UInt8) : Except Fault (Vector UInt8 n) :=
  if h : i < n then return dest.set i c h else .error .undefined

def logbufferWrite (cfg : Config) (lb : LogBuffer) (str : List UInt8) (size : Nat)
    : Except Fault LogBuffer := do
  let head := lb.head
  let nextHead := maskedNext head
  if nextHead = lb.tail then
    return lb
  else
    let lb := { lb with head := nextHead, headLt := maskedNext_lt head }
    let msg := lb.messages head
    check cfg (size < msgBufSize)
    let buf ← memcpy msg.buf str size
    let buf ← store buf size 0
    return { lb with messages := Function.update lb.messages head ⟨size, buf⟩ }

def logbufferRead (lb : LogBuffer) : Option LogMessage × LogBuffer :=
  let nextTail := maskedNext lb.tail
  if lb.tail = lb.head then
    (none, lb)
  else
    (some (lb.messages lb.tail), { lb with tail := nextTail, tailLt := maskedNext_lt lb.tail })

def LogMessage.text (msg : LogMessage) : List UInt8 := msg.buf.toList.take msg.msgSz

-- `npf_vsnprintf` changes no more than the bytes it was given, and returns the length of the whole text.
structure Npf where
  fill : List UInt8 → List UInt8 → List UInt8
  length_fill : ∀ text dest, (fill text dest).length = dest.length

structure Text where
  bytes : List UInt8
  short : bytes.length < 2 ^ 31

def npfVsnprintf (npf : Npf) (buf : List UInt8) (off size : Nat) (text : List UInt8)
    : Except Fault (List UInt8 × Nat) :=
  if off + size ≤ buf.length then
    return (buf.take off ++ npf.fill text ((buf.drop off).take size) ++ buf.drop (off + size),
      text.length)
  else
    .error .undefined

def toBytes (s : String) : List UInt8 := s.toList.map fun c => UInt8.ofNat c.toNat

def logSpam : String := "[ \x1b[35mSPAM  \x1b[0m] "
def logDebug : String := "[ \x1b[35mDEBUG \x1b[0m] "
def logInfo : String := "[ \x1b[32mINFO  \x1b[0m] "
def logWarn : String := "[ \x1b[33mWARN  \x1b[0m] "
def logErr : String := "[ \x1b[31mERROR \x1b[0m] "
def logPanic : String := "[ \x1b[31mPANIC \x1b[0m] "
def logTrace : String := "[ \x1b[36mTRACE \x1b[0m] "

def levelTag (lvl : UInt8) : Option String :=
  if lvl = 1 then some logSpam
  else if lvl = 2 then some logDebug
  else if lvl = 3 then some logTrace
  else if lvl = 4 then some logInfo
  else if lvl = 5 then some logWarn
  else if lvl = 6 then some logErr
  else if lvl = 7 then some logPanic
  else none

structure Printk where
  lb : LogBuffer
  -- `print_lock` is held
  printLock : Bool
  -- what `_printk_consoles_write` was called with
  consoles : List (List UInt8)

def printkBufferWrite : Nat → Printk → Except Fault Printk
  | 0, _ => .error .fuel
  | fuel + 1, st =>
    match logbufferRead st.lb with
    | (none, _) => return st
    | (some msg, lb) => printkBufferWrite fuel { st with lb := lb, consoles := st.consoles ++ [msg.text] }

def suppressed (logLevel : Nat) (lvl : UInt8) : Bool :=
  1 ≤ lvl.toNat && lvl.toNat ≤ 6 && lvl.toNat < logLevel

def printkLevel (npf : Npf) (buf : List UInt8) (lvl : UInt8) : Except Fault (List UInt8 × Nat) :=
  match levelTag lvl with
  | some tag => npfVsnprintf npf buf 0 msgBufSize (toBytes tag)
  | none => return (buf, 0)

-- A format that starts with `lvl` and stands for `text`; `stack` is what the local buffer holds at first.
def printk (cfg : Config) (npf : Npf) (logLevel : Nat) (stack : Vector UInt8 (msgBufSize + 1)) (st : Printk)
    (lvl : UInt8) (text : Text) : Except Fault Printk := do
  let buf := (stack.set msgBufSize 0).toList
  if suppressed logLevel lvl then
    return st
  else
    let (buf, size) ← printkLevel npf buf lvl
    if st.printLock then
      .error .deadlock
    else
      let st := { st with printLock := true }
      let (buf, len) ← npfVsnprintf npf buf size (Word.sub msgBufSize size) text.bytes
      let size := Word.add size len
      let lb ← logbufferWrite cfg st.lb buf size
      let st ← printkBufferWrite msgsSize { st with lb := lb }
      return { st with printLock := false }

end Log
end Nyy
