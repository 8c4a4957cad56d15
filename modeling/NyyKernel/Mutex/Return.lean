import NyyKernel.Mutex.Token

namespace Nyy
namespace MutexSys

variable {θ : Type} [DecidableEq θ] {s s' : MutexSys θ} {t : θ}

def acquireStatus (s s' : MutexSys θ) (t : θ) : Option Int :=
  match s.pc t, s'.pc t with
  | .check, .holding => some statusOk
  | .blocked, .idle => some statusTimeout
  | _, _ => none

def NoBlock (s : MutexSys θ) (t : θ) : Prop :=
  s.pc t = .wait → s.mutex.event.hdr.signalcount ≠ 0

def NoneBlocked (s : MutexSys θ) : Prop := ∀ t, s.pc t ≠ .blocked

theorem NoneBlocked.goto (h : NoneBlocked s) {pc : MutexPc} (hpc : pc ≠ .blocked) (t : θ) (mutex : Mutex θ)
    : NoneBlocked (s.goto t pc mutex) := by
  intro u
  by_cases hu : u = t
  . subst hu
    rw [goto_pc_self]
    exact hpc
  . rw [goto_pc_of_ne s pc mutex hu]
    exact h u

theorem NoneBlocked.move (h : NoneBlocked s) (hguard : NoBlock s t) (hm : Move s t s')
    : NoneBlocked s' := by
  cases hm with
  | call _ heq => exact heq ▸ h.goto (by decide) t _
  | acquired _ _ heq => exact heq ▸ h.goto (by decide) t _
  | busy _ _ heq => exact heq ▸ h.goto (by decide) t _
  | consumed _ _ _ _ _ heq => exact heq ▸ h.goto (by decide) t _
  | enqueued _ hpc hsig _ _ _ _ => exact absurd hsig (hguard hpc)
  | returned _ heq => exact heq ▸ h.goto (by decide) t _
  | asserted _ heq => exact heq ▸ h.goto (by decide) t _
  | reset _ heq => exact heq ▸ h.goto (by decide) t _
  | signaled _ _ _ heq => exact heq ▸ h.goto (by decide) t _

theorem noneBlocked_of_guarded {cfg : Config} (h : Reach MutexInit (Guarded NoBlock (MutexStep cfg)) s)
    : NoneBlocked s := by
  induction h with
  | start h =>
    intro t
    rw [h.2 t]
    decide
  | next hreach hstep ih => exact ih.move hstep.1 (step_move (guarded_inv hreach) hstep.2)

theorem Move.acquireStatus {status : Int} (hm : Move s t s') (hret : s.acquireStatus s' t = some status)
    : s.pc t = .check ∧ status = statusOk ∧ s'.mutex.owner = some t ∨
        s.pc t = .blocked ∧ status = statusTimeout ∧ s'.mutex = s.mutex := by
  unfold MutexSys.acquireStatus at hret
  cases hm with
  | call hpc heq => simp [hpc] at hret
  | acquired hpc _ heq =>
    subst heq
    rw [hpc, goto_pc_self] at hret
    cases hret
    exact .inl ⟨hpc, rfl, rfl⟩
  | busy hpc _ heq =>
    subst heq
    rw [hpc, goto_pc_self] at hret
    cases hret
  | consumed _ hpc _ _ _ heq => simp [hpc] at hret
  | enqueued _ hpc _ _ _ _ heq => simp [hpc] at hret
  | returned hsat heq =>
    subst heq
    rw [hsat.1, goto_pc_self] at hret
    cases hret
    exact .inr ⟨hsat.1, rfl, rfl⟩
  | asserted hpc heq => simp [hpc] at hret
  | reset hpc heq => simp [hpc] at hret
  | signaled _ hpc _ heq => simp [hpc] at hret

theorem acquire_returns_owner {cfg : Config} {s s' : MutexSys θ} {t : θ} {status : Int}
    (h : Reach MutexInit (Guarded NoBlock (MutexStep cfg)) s)
    (hstep : Guarded NoBlock (MutexStep cfg) s t s') (hret : s.acquireStatus s' t = some status)
    : status = statusOk ∧ s'.mutex.owner = some t := by
  have hmove := step_move (guarded_inv h) hstep.2
  rcases hmove.acquireStatus hret with ⟨_, hok⟩ | ⟨hpc, _⟩
  . exact hok
  . exact absurd hpc (noneBlocked_of_guarded h t)

theorem acquire_returns_owner_at_once
    : ∃ s s' : MutexSys Bool, Reach MutexInit (Guarded NoBlock (MutexStep ⟨false⟩)) s ∧
        s.acquireStatus s' true = some statusOk ∧ s'.mutex.owner = some true := by
  have hcall : Guarded NoBlock (MutexStep ⟨false⟩) twoUsers true
      (twoUsers.goto true .check twoUsers.mutex) := by
    exact ⟨by simp [NoBlock, twoUsers], by decide, rfl⟩
  have hreach := (Reach.start twoUsers_init).next hcall
  have hacquire : Guarded NoBlock (MutexStep ⟨false⟩) (twoUsers.goto true .check twoUsers.mutex) true
      ((twoUsers.goto true .check twoUsers.mutex).goto true .holding (taken twoUsers.mutex true)) := by
    exact ⟨by simp [NoBlock, goto], by decide, rfl⟩
  exact ⟨_, _, hreach, rfl, (acquire_returns_owner hreach hacquire rfl).2⟩

theorem woken_acquire_times_out
    : ∃ s s' : MutexSys Bool, Reach MutexInit (MutexStep ⟨false⟩) s ∧
        MutexStep ⟨false⟩ s true s' ∧ s.acquireStatus s' true = some statusTimeout ∧
        s'.mutex.owner = none := by
  -- the other thread acquires the mutex, this one finds it taken and blocks, and it is released
  have h8 := (reach_turns (fun _ _ => True) [false, false, true, true, true, false, false, false] rfl).unguarded
  exact ⟨_, _, h8, ⟨by decide, rfl⟩, rfl, rfl⟩

end MutexSys
end Nyy
