import NyyKernel.Lib.Run
import NyyKernel.Log.Fifo

namespace Nyy
namespace Log

def levelSize (lvl : UInt8) : Nat :=
  match levelTag lvl with
  | some tag => (toBytes tag).length
  | none => 0

theorem levelSize_le (lvl : UInt8) : levelSize lvl ≤ 19 := by
  unfold levelSize levelTag
  split_ifs <;> decide

theorem msgBufSize_lt : msgBufSize < msgBufSize + 1 := Nat.lt_succ_self _

def freshBuf (stack : Vector UInt8 (msgBufSize + 1)) : List UInt8 :=
  (stack.set msgBufSize 0 msgBufSize_lt).toList

structure PrintkCall where
  stack : Vector UInt8 (msgBufSize + 1)
  lvl : UInt8
  text : Text

namespace Printk

def Init (st : Printk) : Prop := st.lb = logbufferInit ∧ st.printLock = false ∧ st.consoles = []

def Step (cfg : Config) (npf : Npf) (logLevel : Nat) (st : Printk) (c : PrintkCall) (st' : Printk)
    : Prop :=
  printk cfg npf logLevel c.stack st c.lvl c.text = .ok st'

def Stores (cfg : Config) (npf : Npf) (logLevel : Nat) (st : Printk) (c : PrintkCall) : Prop :=
  ∃ buf size st', printkLevel npf (freshBuf c.stack) c.lvl = .ok (buf, size) ∧
    size ≤ msgBufSize ∧ Word.sub msgBufSize size = msgBufSize - size ∧
    Word.add size c.text.bytes.length < msgBufSize ∧
    printk cfg npf logLevel c.stack st c.lvl c.text = .ok st' ∧
    (st'.lb.messages st.lb.head).msgSz = Word.add size c.text.bytes.length ∧
    st'.consoles = st.consoles ++ [(st'.lb.messages st.lb.head).text]

def Safe (cfg : Config) (npf : Npf) (logLevel : Nat) (st : Printk) (c : PrintkCall) : Prop :=
  if suppressed logLevel c.lvl then
    printk cfg npf logLevel c.stack st c.lvl c.text = .ok st
  else
    Stores cfg npf logLevel st c

structure Idle (st : Printk) : Prop where
  lb : st.lb.Contains []
  printLock : st.printLock = false

section

variable {cfg : Config} {npf : Npf} {logLevel : Nat} {st st' : Printk} {c : PrintkCall}

theorem length_freshBuf (stack : Vector UInt8 (msgBufSize + 1))
    : (freshBuf stack).length = msgBufSize + 1 := by
  simp [freshBuf]

theorem npfVsnprintf_ok (npf : Npf) {buf : List UInt8} {off size : Nat} (text : List UInt8)
    (h : off + size ≤ buf.length)
    : ∃ buf', npfVsnprintf npf buf off size text = .ok (buf', text.length) ∧
        buf'.length = buf.length := by
  unfold npfVsnprintf
  rw [if_pos h]
  refine ⟨_, rfl, ?_⟩
  simp only [List.length_append, List.length_take, List.length_drop, npf.length_fill]
  omega

theorem printkLevel_ok (npf : Npf) (stack : Vector UInt8 (msgBufSize + 1)) (lvl : UInt8)
    : ∃ buf, printkLevel npf (freshBuf stack) lvl = .ok (buf, levelSize lvl) ∧
        buf.length = msgBufSize + 1 := by
  have hlength := length_freshBuf stack
  unfold printkLevel levelSize
  cases levelTag lvl with
  | none => exact ⟨_, rfl, hlength⟩
  | some tag =>
    rcases npfVsnprintf_ok npf (toBytes tag) (show 0 + msgBufSize ≤ (freshBuf stack).length by omega)
      with ⟨buf, hok, hbuf⟩
    exact ⟨buf, hok, by omega⟩

theorem printkBufferWrite_ok (st : Printk) {strs : List (List UInt8)} (fuel : Nat) (h : st.lb.Contains strs)
    (hfuel : strs.length < fuel)
    : ∃ st', printkBufferWrite fuel st = .ok st' ∧ st'.lb.Contains [] ∧
        st'.lb.messages = st.lb.messages ∧ st'.printLock = st.printLock ∧
        st'.consoles = st.consoles ++ strs := by
  induction fuel generalizing st strs with
  | zero => omega
  | succ fuel ih =>
    rcases h.read with ⟨hfirst, hrest⟩
    unfold printkBufferWrite
    cases strs with
    | nil =>
      cases hread : logbufferRead st.lb with
      | mk msg lb =>
        rw [hread] at hfirst
        cases msg with
        | none => exact ⟨st, rfl, h, rfl, rfl, by simp⟩
        | some msg => cases hfirst
    | cons str strs =>
      have hmessages : (logbufferRead st.lb).2.messages = st.lb.messages := by
        unfold logbufferRead
        dsimp only
        split <;> rfl
      cases hread : logbufferRead st.lb with
      | mk msg lb =>
        rw [hread] at hfirst hrest hmessages
        cases msg with
        | none => cases hfirst
        | some msg =>
          have htext : msg.text = str := by
            dsimp only [Fifo.read, Option.map_some] at hfirst
            rw [Option.some.injEq] at hfirst
            exact congrArg (fun v => v.2.1) hfirst
          dsimp only
          rw [List.length_cons] at hfuel
          dsimp only [Fifo.read] at hrest
          rcases ih { st with lb := lb, consoles := st.consoles ++ [msg.text] } hrest (by omega) with
            ⟨st', hok, hempty, hsame, hlock, hout⟩
          refine ⟨st', hok, hempty, hsame.trans hmessages, hlock, ?_⟩
          rw [hout, htext, List.append_assoc]
          rfl

theorem size_eq (c : PrintkCall)
    : Word.add (levelSize c.lvl) c.text.bytes.length = levelSize c.lvl + c.text.bytes.length := by
  have := levelSize_le c.lvl
  have := c.text.short
  exact Word.add_eq (by omega)

theorem rest_eq (lvl : UInt8) : Word.sub msgBufSize (levelSize lvl) = msgBufSize - levelSize lvl := by
  have := levelSize_le lvl
  have hsize : msgBufSize = 512 := rfl
  exact Word.sub_eq (by decide) (by omega)

theorem printk_eq (cfg : Config) (npf : Npf) (c : PrintkCall) (h : st.printLock = false)
    (hlevel : suppressed logLevel c.lvl = false)
    : ∃ buf, buf.length = msgBufSize + 1 ∧
        printk cfg npf logLevel c.stack st c.lvl c.text = (do
          let lb ← logbufferWrite cfg st.lb buf (levelSize c.lvl + c.text.bytes.length)
          let st ← printkBufferWrite msgsSize { st with printLock := true, lb := lb }
          return { st with printLock := false }) := by
  rcases printkLevel_ok npf c.stack c.lvl with ⟨buf, hok, hbuf⟩
  have hle := levelSize_le c.lvl
  have hsize : msgBufSize = 512 := rfl
  rcases npfVsnprintf_ok npf c.text.bytes
    (show levelSize c.lvl + (msgBufSize - levelSize c.lvl) ≤ buf.length by omega) with
    ⟨buf', hok', hbuf'⟩
  refine ⟨buf', by omega, ?_⟩
  unfold freshBuf at hok
  unfold printk
  dsimp only
  rw [if_neg (by simp [hlevel]), hok, Except.ok_bind]
  dsimp only
  rw [if_neg (by simp [h]), rest_eq, hok', Except.ok_bind]
  dsimp only
  rw [size_eq]

theorem Idle.suppressed (h : Nyy.Log.suppressed logLevel c.lvl = true)
    : printk cfg npf logLevel c.stack st c.lvl c.text = .ok st := by
  unfold printk
  dsimp only
  rw [if_pos h]
  rfl

theorem Idle.not_full (h : Idle st) : maskedNext st.lb.head ≠ st.lb.tail := by
  rcases h.lb with ⟨q, hq, hmap⟩
  have hnil : q = [] := by simpa using hmap
  rw [maskedNext_eq st.lb.headLt]
  intro hfull
  have := hq.full_iff.mp hfull
  rw [hnil] at this
  revert this
  decide

theorem Idle.printk_short (h : Idle st) (hlevel : Nyy.Log.suppressed logLevel c.lvl = false)
    (hshort : levelSize c.lvl + c.text.bytes.length < msgBufSize)
    : Stores cfg npf logLevel st c ∧
        ∀ st', printk cfg npf logLevel c.stack st c.lvl c.text = .ok st' → Idle st' := by
  rcases printkLevel_ok npf c.stack c.lvl with ⟨buf, hok, _⟩
  rcases printk_eq cfg npf c h.printLock hlevel with ⟨buf', hbuf', heq⟩
  rcases logbufferWrite_cases cfg st.lb hshort
      (show levelSize c.lvl + c.text.bytes.length ≤ buf'.length by omega) with
    ⟨hfull, _⟩ | ⟨_, lb, msg, hwrite, hhead, htail, hmessages, hview⟩
  . exact absurd hfull h.not_full
  . rcases h.lb.write cfg hshort
      (show levelSize c.lvl + c.text.bytes.length ≤ buf'.length by omega) with ⟨lb', hwrite', hlb⟩
    rw [hwrite] at hwrite'
    cases hwrite'
    have hfuel := hlb.length_le
    have hpos : 0 < msgsSize := by decide
    rcases printkBufferWrite_ok { st with printLock := true, lb := lb } msgsSize hlb (by omega) with
      ⟨st', hdrain, hempty, hsame, _, hout⟩
    rw [hwrite, Except.ok_bind, hdrain, Except.ok_bind] at heq
    have hslot : st'.lb.messages st.lb.head = msg := by
      rw [hsame, hmessages]
      exact Function.update_self ..
    unfold LogMessage.view stringView at hview
    simp only [Prod.mk.injEq] at hview
    constructor
    . refine ⟨buf, _, _, hok, ?_, rest_eq c.lvl, ?_, heq, ?_, ?_⟩
      . exact Nat.le_of_lt (Nat.lt_of_le_of_lt (Nat.le_add_right _ _) hshort)
      . rw [size_eq]
        exact hshort
      . rw [hslot, size_eq, hview.1, List.length_take]
        omega
      . rw [hslot, hview.2.1]
        exact hout
    . intro st2 hst2
      rw [heq] at hst2
      cases hst2
      exact ⟨hempty, rfl⟩

theorem Idle.printk_long (h : Idle st) (c : PrintkCall) (hlevel : Nyy.Log.suppressed logLevel c.lvl = false)
    (hlong : msgBufSize ≤ levelSize c.lvl + c.text.bytes.length)
    : printk cfg npf logLevel c.stack st c.lvl c.text =
        .error (if cfg.disableAsserts then .undefined else .assertion) := by
  rcases printk_eq cfg npf c h.printLock hlevel with ⟨buf', _, heq⟩
  rw [heq]
  unfold logbufferWrite
  dsimp only
  rw [if_neg h.not_full]
  unfold check
  cases cfg.disableAsserts with
  | false =>
    rw [if_neg (by simpa using hlong)]
    rfl
  | true =>
    rw [if_pos (by simp), Except.ok_bind]
    unfold memcpy store
    split
    . rw [pure_bind, dif_neg (by omega)]
      rfl
    . rfl

theorem Idle.step (h : Idle st) (hstep : Step cfg npf logLevel st c st') : Idle st' := by
  unfold Step at hstep
  cases hlevel : Nyy.Log.suppressed logLevel c.lvl with
  | true =>
    rw [Idle.suppressed hlevel] at hstep
    cases hstep
    exact h
  | false =>
    rcases Nat.lt_or_ge (levelSize c.lvl + c.text.bytes.length) msgBufSize with hshort | hlong
    . exact (h.printk_short hlevel hshort).2 st' hstep
    . rw [h.printk_long c hlevel hlong] at hstep
      cases hstep

theorem printk_locked (cfg : Config) (npf : Npf) (logLevel : Nat) (c : PrintkCall) (h : st.printLock = true)
    (hlevel : suppressed logLevel c.lvl = false)
    : printk cfg npf logLevel c.stack st c.lvl c.text = .error .deadlock := by
  rcases printkLevel_ok npf c.stack c.lvl with ⟨buf, hok, _⟩
  unfold freshBuf at hok
  unfold printk
  dsimp only
  rw [if_neg (by simp [hlevel]), hok, Except.ok_bind]
  dsimp only
  rw [if_pos h]

end

/--
After any number of calls, the next one is safe exactly if its level is suppressed, or the message has
less than `MSG_BUF_SIZE` bytes.
-/
theorem printk_safe_iff {cfg : Config} {npf : Npf} {logLevel : Nat} {st : Printk}
    (hr : Reach Init (Step cfg npf logLevel) st) (c : PrintkCall)
    : Safe cfg npf logLevel st c ↔
        suppressed logLevel c.lvl = true ∨ levelSize c.lvl + c.text.bytes.length < msgBufSize := by
  have hidle : Idle st := by
    refine hr.invariant ?_ ?_
    . rintro s ⟨hlb, hlock, _⟩
      exact ⟨by rw [hlb]; exact LogBuffer.Contains.init, hlock⟩
    . intro s c s' hs hstep
      exact hs.step hstep
  unfold Safe
  cases hlevel : suppressed logLevel c.lvl with
  | true =>
    rw [if_pos rfl]
    exact iff_of_true (Idle.suppressed hlevel) (.inl rfl)
  | false =>
    rw [if_neg (by decide)]
    rcases Nat.lt_or_ge (levelSize c.lvl + c.text.bytes.length) msgBufSize with hshort | hlong
    . exact iff_of_true (hidle.printk_short hlevel hshort).1 (.inr hshort)
    . refine iff_of_false ?_ (by simp; omega)
      rintro ⟨_, _, st', _, _, _, _, hok, _⟩
      rw [hidle.printk_long c hlevel hlong] at hok
      cases hok

def blankNpf : Npf := ⟨fun _ dest => dest, fun _ _ => rfl⟩

def bootLog : Printk := ⟨logbufferInit, false, []⟩

def errorCall (n : Nat) (h : n < 2 ^ 31) : PrintkCall :=
  ⟨Vector.replicate _ 0, 6, ⟨List.replicate n 97, by rwa [List.length_replicate]⟩⟩

theorem printk_safe_iff_short
    : Safe ⟨false⟩ blankNpf 4 bootLog (errorCall 492 (by decide)) := by
  have hr : Reach Init (Step ⟨false⟩ blankNpf 4) bootLog := .start ⟨rfl, rfl, rfl⟩
  rw [printk_safe_iff hr]
  right
  unfold errorCall
  rw [List.length_replicate]
  decide

theorem printk_long_message
    : printk ⟨false⟩ blankNpf 4 (Vector.replicate _ 0) bootLog 6 (errorCall 493 (by decide)).text =
          .error .assertion ∧
        printk ⟨false⟩ blankNpf 4 (Vector.replicate _ 0) { bootLog with printLock := true } 6
          (errorCall 40 (by decide)).text = .error .deadlock := by
  have hidle : Idle bootLog := ⟨LogBuffer.Contains.init, rfl⟩
  constructor
  . refine hidle.printk_long (errorCall 493 (by decide)) rfl ?_
    unfold errorCall
    rw [List.length_replicate]
    decide
  . exact printk_locked ⟨false⟩ blankNpf 4 (errorCall 40 (by decide)) rfl rfl

end Printk
end Log
end Nyy
