import NyyKernel.Lib.Fault
import Mathlib.Tactic

/-!
This module contains programs that take locks.
-/

namespace Nyy

structure LockState (ℓ σ : Type) where
  held : List ℓ
  -- a lock that was held and the lock that was acquired meanwhile
  nested : List (ℓ × ℓ)
  data : σ

inductive LockFault where
  -- A lock that the caller already holds was acquired again.
  | deadlock
  | fault (f : Fault)
  deriving DecidableEq

instance : MonadLift (Except Fault) (Except LockFault) := ⟨Except.mapError .fault⟩

abbrev LockM (ℓ σ : Type) := StateT (LockState ℓ σ) (Except LockFault)

namespace LockM

variable {ℓ σ α β : Type}

def acquire [DecidableEq ℓ] (l : ℓ) : LockM ℓ σ Unit := fun s =>
  if l ∈ s.held then
    .error .deadlock
  else
    .ok ((), ⟨l :: s.held, s.nested ++ s.held.map fun h => (h, l), s.data⟩)

def release [DecidableEq ℓ] (l : ℓ) : LockM ℓ σ Unit := fun s =>
  .ok ((), { s with held := s.held.erase l })

def isHeld [DecidableEq ℓ] (l : ℓ) : LockM ℓ σ Bool := fun s => .ok (decide (l ∈ s.held), s)

def read : LockM ℓ σ σ := fun s => .ok (s.data, s)

def update (f : σ → Except Fault σ) : LockM ℓ σ Unit := fun s =>
  match f s.data with
  | .ok data => .ok ((), { s with data := data })
  | .error e => .error (.fault e)

def write (f : σ → σ) : LockM ℓ σ Unit := update fun data => .ok (f data)

def assert (cfg : Config) (cond : Bool) : LockM ℓ σ Unit := update fun data => do
  check cfg cond
  return data

def fail (e : Fault) : LockM ℓ σ α := fun _ => .error (.fault e)

def withLock [DecidableEq ℓ] (l : ℓ) (m : LockM ℓ σ α) : LockM ℓ σ α := do
  acquire l
  let a ← m
  release l
  return a

end LockM

def Ordered {ℓ σ : Type} (rank : ℓ → Nat) (s : LockState ℓ σ) : Prop :=
  ∀ p ∈ s.nested, rank p.1 < rank p.2

def Runs {ℓ σ α : Type} (m : LockM ℓ σ α) (s : LockState ℓ σ) (Q : α → LockState ℓ σ → Prop) : Prop :=
  match m s with
  | .ok (a, s') => Q a s'
  | .error e => e ≠ .deadlock

namespace Runs

variable {ℓ σ α β : Type} {rank : ℓ → Nat} {s : LockState ℓ σ} {Q : α → LockState ℓ σ → Prop}
  {m : LockM ℓ σ α}

theorem mono {P : α → LockState ℓ σ → Prop} (h : Runs m s P) (hpq : ∀ a s', P a s' → Q a s')
    : Runs m s Q := by
  unfold Runs at h ⊢
  split
  . next a s' heq =>
    rw [heq] at h
    exact hpq a s' h
  . next e heq =>
    rw [heq] at h
    exact h

theorem pure {a : α} (h : Q a s) : Runs (Pure.pure a : LockM ℓ σ α) s Q := by
  exact h

theorem bind {f : α → LockM ℓ σ β} {Q : β → LockState ℓ σ → Prop} (h : Runs m s fun a s' => Runs (f a) s' Q)
    : Runs (m >>= f) s Q := by
  unfold Runs at h
  change match (m s >>= fun r => f r.1 r.2) with
    | .ok (a, s') => Q a s'
    | .error e => e ≠ .deadlock
  cases hm : m s with
  | error e =>
    rw [hm] at h
    exact h
  | ok r =>
    rw [hm] at h
    exact h

theorem read {Q : σ → LockState ℓ σ → Prop} (h : Q s.data s) : Runs (LockM.read : LockM ℓ σ σ) s Q := by
  exact h

theorem update {f : σ → Except Fault σ} {Q : Unit → LockState ℓ σ → Prop} (hs : Ordered rank s)
    (h : ∀ s', s'.held = s.held → f s.data = .ok s'.data → Ordered rank s' → Q () s')
    : Runs (LockM.update f) s Q := by
  unfold Runs LockM.update
  cases hd : f s.data with
  | error e => exact fun he => nomatch he
  | ok data => exact h ⟨s.held, s.nested, data⟩ rfl hd hs

variable [DecidableEq ℓ] {l : ℓ}

theorem acquire {Q : Unit → LockState ℓ σ → Prop} (hs : Ordered rank s)
    (hrank : ∀ k ∈ s.held, rank k < rank l)
    (h : ∀ s', s'.held = l :: s.held → s'.data = s.data → Ordered rank s' → Q () s')
    : Runs (LockM.acquire l : LockM ℓ σ Unit) s Q := by
  have hnot : l ∉ s.held := by
    intro hmem
    exact Nat.lt_irrefl _ (hrank l hmem)
  unfold Runs LockM.acquire
  rw [if_neg hnot]
  refine h ⟨l :: s.held, _, s.data⟩ rfl rfl ?_
  intro p hp
  rcases List.mem_append.mp hp with hp | hp
  . exact hs p hp
  . rcases List.mem_map.mp hp with ⟨k, hk, rfl⟩
    exact hrank k hk

theorem release {Q : Unit → LockState ℓ σ → Prop} (hs : Ordered rank s)
    (h : ∀ s', s'.held = s.held.erase l → s'.data = s.data → Ordered rank s' → Q () s')
    : Runs (LockM.release l : LockM ℓ σ Unit) s Q := by
  exact h ⟨s.held.erase l, s.nested, s.data⟩ rfl rfl hs

end Runs

-- With no lock of rank `n` or above held, the program ends with the locks that it began with, and takes
-- them in order.
def Keeps {ℓ σ α : Type} (rank : ℓ → Nat) (n : Nat) (pre : σ → Prop) (m : LockM ℓ σ α) (Q : α → σ → Prop)
    : Prop :=
  ∀ s, Ordered rank s → (∀ l ∈ s.held, rank l < n) → pre s.data →
    Runs m s fun a s' => s'.held = s.held ∧ Ordered rank s' ∧ Q a s'.data

namespace Keeps

variable {ℓ σ α β : Type} {rank : ℓ → Nat} {n k : Nat} {pre : σ → Prop} {m : LockM ℓ σ α} {Q : α → σ → Prop}

theorem mono (h : Keeps rank k pre m Q) (hle : n ≤ k) : Keeps rank n pre m Q :=
  fun s hs hb hpre => h s hs (fun l hl => Nat.lt_of_lt_of_le (hb l hl) hle) hpre

theorem imp {pre' : σ → Prop} {Q' : α → σ → Prop} (h : Keeps rank n pre m Q) (hpre : ∀ d, pre' d → pre d)
    (hpost : ∀ a d, Q a d → Q' a d)
    : Keeps rank n pre' m Q' := by
  intro s hs hb hd
  refine (h s hs hb (hpre _ hd)).mono ?_
  rintro a s' ⟨hheld, ho, ha⟩
  exact ⟨hheld, ho, hpost a _ ha⟩

theorem pure {a : α} (h : ∀ d, pre d → Q a d)
    : Keeps rank n pre (Pure.pure a : LockM ℓ σ α) Q :=
  fun s hs _ hpre => Runs.pure ⟨rfl, hs, h s.data hpre⟩

theorem bind {f : α → LockM ℓ σ β} {mid : α → σ → Prop} {Q : β → σ → Prop} (h : Keeps rank n pre m mid)
    (hf : ∀ a, Keeps rank n (mid a) (f a) Q)
    : Keeps rank n pre (m >>= f) Q := by
  intro s hs hb hpre
  refine Runs.bind ((h s hs hb hpre).mono ?_)
  rintro a s1 ⟨h1, o1, hmid⟩
  refine (hf a s1 o1 (h1 ▸ hb) hmid).mono ?_
  rintro b s2 ⟨h2, o2, hpost⟩
  exact ⟨h2.trans h1, o2, hpost⟩

theorem read_bind {f : σ → LockM ℓ σ β} {Q : β → σ → Prop}
    (hf : ∀ d, pre d → Keeps rank n (fun d' => d' = d) (f d) Q)
    : Keeps rank n pre (LockM.read >>= f) Q :=
  fun s hs hb hpre => Runs.bind (Runs.read (hf s.data hpre s hs hb rfl))

theorem read_any {f : σ → LockM ℓ σ β} {Q : β → σ → Prop} (hf : ∀ d, Keeps rank n pre (f d) Q)
    : Keeps rank n pre (LockM.read >>= f) Q :=
  fun s hs hb hpre => Runs.bind (Runs.read (hf s.data s hs hb hpre))

theorem update {f : σ → Except Fault σ} {Q : Unit → σ → Prop} (h : ∀ d d', pre d → f d = .ok d' → Q () d')
    : Keeps rank n pre (LockM.update f : LockM ℓ σ Unit) Q :=
  fun _ hs _ hpre => Runs.update hs fun _ h1 d1 o1 => ⟨h1, o1, h _ _ hpre d1⟩

theorem update_bind {g : σ → Except Fault σ} {f : Unit → LockM ℓ σ β} {Q : β → σ → Prop}
    (h : Keeps rank n (fun _ => True) (f ()) Q)
    : Keeps rank n pre (LockM.update g >>= f) Q :=
  bind (update fun _ _ _ _ => trivial) fun _ => h

theorem write {f : σ → σ} {Q : Unit → σ → Prop} (h : ∀ d, pre d → Q () (f d))
    : Keeps rank n pre (LockM.write f : LockM ℓ σ Unit) Q :=
  fun s hs _ hpre => ⟨rfl, hs, h s.data hpre⟩

theorem write_bind {g : σ → σ} {f : Unit → LockM ℓ σ β} {Q : β → σ → Prop}
    (h : Keeps rank n (fun _ => True) (f ()) Q)
    : Keeps rank n pre (LockM.write g >>= f) Q :=
  update_bind h

theorem assert_bind {cfg : Config} {cond : Bool} {f : Unit → LockM ℓ σ β} {Q : β → σ → Prop}
    (h : Keeps rank n pre (f ()) Q)
    : Keeps rank n pre (LockM.assert cfg cond >>= f) Q := by
  refine bind (update ?_) fun _ => h
  intro d d' hpre hd
  rcases Except.bind_eq_ok hd with ⟨_, _, hd⟩
  cases hd
  exact hpre

theorem fail (e : Fault) : Keeps rank n pre (LockM.fail e : LockM ℓ σ α) Q :=
  fun _ _ _ _ he => nomatch he

variable [DecidableEq ℓ] {l : ℓ}

theorem isHeld_bind {f : Bool → LockM ℓ σ β} {Q : β → σ → Prop} (h : ∀ b, Keeps rank n pre (f b) Q)
    : Keeps rank n pre (LockM.isHeld l >>= f) Q :=
  fun s hs hb hpre => h (decide (l ∈ s.held)) s hs hb hpre

theorem withLock (h : Keeps rank (rank l + 1) pre m Q) (hn : n ≤ rank l)
    : Keeps rank n pre (LockM.withLock l m) Q := by
  intro s hs hb hpre
  refine Runs.bind (Runs.acquire hs (fun k hk => Nat.lt_of_lt_of_le (hb k hk) hn) ?_)
  intro s1 h1 d1 o1
  have hb1 : ∀ k ∈ s1.held, rank k < rank l + 1 := by
    intro k hk
    rw [h1] at hk
    rcases List.mem_cons.mp hk with rfl | hk
    . exact Nat.lt_succ_self _
    . have := hb k hk
      omega
  refine Runs.bind ((h s1 o1 hb1 (d1 ▸ hpre)).mono ?_)
  rintro a s2 ⟨h2, o2, hpost⟩
  refine Runs.bind (Runs.release o2 ?_)
  intro s3 h3 d3 o3
  refine Runs.pure ⟨?_, o3, d3 ▸ hpost⟩
  rw [h3, h2, h1, List.erase_cons_head]

end Keeps
end Nyy
