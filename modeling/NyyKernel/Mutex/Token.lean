import NyyKernel.Mutex.Exclusion

namespace Nyy
namespace MutexSys

variable {θ : Type} [DecidableEq θ] {s s' : MutexSys θ} {t : θ} {cfg : Config}

def TokenKept (s : MutexSys θ) (t : θ) : Prop :=
  (s.pc t = .wait → s.mutex.event.hdr.signalcount = 0) ∧
  (s.pc t = .signal → s.mutex.event.hdr.waitercount = 0)

def HasToken (s : MutexSys θ) : Prop :=
  s.mutex.event.hdr.signalcount = 1 ∨ ∃ t, s.Inside t

omit [DecidableEq θ] in
theorem hasToken_init (h : MutexInit s) : HasToken s := by
  rcases h with ⟨⟨wait, hmutex⟩, _⟩
  left
  rw [hmutex]
  rfl

theorem HasToken.outside {pc : MutexPc} {mutex : Mutex θ} (h : HasToken s) (ht : ¬ s.Inside t)
    (hsig : mutex.event.hdr.signalcount = s.mutex.event.hdr.signalcount)
    : HasToken (s.goto t pc mutex) := by
  rcases h with h | ⟨u, hu⟩
  . left
    simp only [goto, hsig, h]
  . right
    refine ⟨u, ?_⟩
    rw [inside_goto_of_ne]
    . exact hu
    . rintro rfl
      exact ht hu

theorem HasToken.move (h : HasToken s) (hw : WaitInv s) (ht : TokenInv s) (hkept : TokenKept s t)
    (hm : Move s t s')
    : HasToken s' := by
  cases hm with
  | call hpc heq =>
    rw [heq]
    exact h.outside (by simp [Inside, Owns, hpc]) rfl
  | acquired hpc _ heq =>
    rw [heq]
    exact .inr ⟨t, .inl (.inl (goto_pc_self ..))⟩
  | busy hpc _ heq =>
    rw [heq]
    exact h.outside (by simp [Inside, Owns, hpc]) rfl
  | consumed d hpc hsig _ _ _ => exact absurd (hkept.1 hpc) hsig
  | enqueued d hpc _ hhdr _ _ heq =>
    rw [heq]
    apply h.outside
    . simp [Inside, Owns, hpc]
    . simp only [hhdr]
  | returned hsat heq =>
    rw [heq]
    exact h.outside (by simp [Inside, Owns, hsat.1]) rfl
  | asserted hpc heq =>
    rw [heq]
    exact .inr ⟨t, .inl (.inr (goto_pc_self ..))⟩
  | reset hpc heq =>
    rw [heq]
    exact .inr ⟨t, .inr (goto_pc_self ..)⟩
  | signaled d hpc hsig heq =>
    rw [heq]
    left
    cases hsig with
    | again hne _ => exact absurd (ht.inside t (.inr hpc)) hne
    | handed x ts _ hlist _ =>
      have := hkept.2 hpc
      simp [hw.disp.count, hlist] at this
      omega
    | set _ _ hd => simp [goto, hd]

theorem guarded_inv {guard : MutexSys θ → θ → Prop} (h : Reach MutexInit (Guarded guard (MutexStep cfg)) s)
    : WaitInv s ∧ TokenInv s := by
  have hreach : Reach MutexInit (MutexStep cfg) s := by
    induction h with
    | start h => exact .start h
    | next _ h ih => exact ih.next h.2
  exact reach_inv hreach

theorem step_move (h : WaitInv s ∧ TokenInv s) (hstep : MutexStep cfg s t s') : Move s t s' := by
  rcases exists_move cfg h.1 h.2 hstep.1 with ⟨s2, hs2, hmove⟩
  rw [hstep.2] at hs2
  cases hs2
  exact hmove

theorem hasToken_of_guarded (h : Reach MutexInit (Guarded TokenKept (MutexStep cfg)) s)
    : HasToken s := by
  induction h with
  | start h => exact hasToken_init h
  | next hreach hstep ih =>
    have hinv := guarded_inv hreach
    exact ih.move hinv.1 hinv.2 hstep.1 (step_move hinv hstep.2)

theorem free_mutex_signaled {cfg : Config} {s : MutexSys θ}
    (h : Reach MutexInit (Guarded TokenKept (MutexStep cfg)) s) (howns : ∀ t, ¬ s.Owns t)
    (hsignal : ∀ t, s.pc t ≠ .signal)
    : s.mutex.event.hdr.signalcount = 1 ∧
        ∀ t, s.pc t = .check → ∃ s', mutexStep cfg s t = .ok s' ∧ s'.Owns t := by
  have hsig : s.mutex.event.hdr.signalcount = 1 := by
    rcases hasToken_of_guarded h with hsig | ⟨t, ht | ht⟩
    . exact hsig
    . exact absurd ht (howns t)
    . exact absurd ht (hsignal t)
  refine ⟨hsig, ?_⟩
  intro t hpc
  have hinv := guarded_inv h
  have hnone : s.mutex.owner = none := by
    rw [Option.eq_none_iff_forall_ne_some]
    intro u hu
    exact howns u ((hinv.2.owner u).mp hu)
  have hcheck : mutexAcquireCheck cfg s.mutex t = .ok (true, taken s.mutex t) := by
    unfold mutexAcquireCheck
    rw [if_pos hsig, hnone, beq_self_eq_true, check_true]
    rfl
  refine ⟨s.goto t .holding (taken s.mutex t), ?_, .inl (goto_pc_self ..)⟩
  unfold mutexStep
  rw [hpc]
  dsimp only
  rw [hcheck]
  rfl

instance (s : MutexSys θ) (t : θ) : Decidable (TokenKept s t) :=
  inferInstanceAs (Decidable ((_ → _) ∧ (_ → _)))

theorem free_mutex_signaled_released
    : ∃ s : MutexSys Bool, Reach MutexInit (Guarded TokenKept (MutexStep ⟨false⟩)) s ∧
        s.pc true = .check ∧ ∃ s', mutexStep ⟨false⟩ s true = .ok s' ∧ s'.Owns true := by
  -- the other thread acquires the mutex and releases it, then this one comes
  have hreach := reach_turns TokenKept [false, false, false, false, false, true] rfl
  refine ⟨_, hreach, rfl, (free_mutex_signaled hreach ?_ ?_).2 true rfl⟩
  . unfold Owns
    decide
  . decide

theorem wait_loses_token
    : ∃ s : MutexSys Bool, Reach MutexInit (MutexStep ⟨false⟩) s ∧ (∀ t, ¬ s.Owns t) ∧
        (∀ t, s.pc t ≠ .signal) ∧ (∀ t, ¬ s.Satisfied t) ∧ s.pc true = .wait ∧
        s.mutex.event.hdr.signalcount = 0 := by
  have h9 := (reach_turns (fun _ _ => True) [false, false, true, true, false, false, false, true, true]
    rfl).unguarded
  refine ⟨_, h9, ?_, ?_, ?_, rfl, rfl⟩
  . unfold Owns
    decide
  . decide
  . unfold Satisfied
    decide

theorem not_hasToken_goto {pc : MutexPc} {mutex : Mutex θ} (hother : ∀ u, u ≠ t → ¬ s.Inside u)
    (hpc : pc ≠ .holding ∧ pc ≠ .reset ∧ pc ≠ .signal) (hsig : mutex.event.hdr.signalcount ≠ 1)
    : ¬ HasToken (s.goto t pc mutex) := by
  rintro (h | ⟨u, hu⟩)
  . exact hsig h
  . by_cases hut : u = t
    . subst hut
      simp [Inside, Owns, hpc] at hu
    . rw [inside_goto_of_ne hut] at hu
      exact hother u hut hu

theorem lost_of_not_tokenKept (hw : WaitInv s) (ht : TokenInv s) (hkept : ¬ TokenKept s t)
    (hm : Move s t s')
    : ¬ HasToken s' := by
  cases hm with
  | consumed d hpc hsig hhdr _ heq =>
    -- the signal was the token, so that nobody was inside
    have hone := ht.signalcount
    rw [heq]
    apply not_hasToken_goto
    . intro u _ hu
      exact hsig (ht.inside u hu)
    . simp
    . simp only [hhdr]
      omega
  | signaled d hpc hsig heq =>
    have hzero := ht.inside t (.inr hpc)
    rw [heq]
    cases hsig with
    | again hne _ => exact absurd hzero hne
    | set _ hlist _ =>
      have hcount : s.mutex.event.hdr.waitercount = 0 := by simp [hw.disp.count, hlist]
      exact absurd ⟨by simp [hpc], fun _ => hcount⟩ hkept
    | handed x ts _ _ hd =>
      apply not_hasToken_goto
      . intro u hut hu
        exact hut (ht.unique u t hu (.inr hpc))
      . simp
      . simp only [hd.hdr]
        omega
  | enqueued d hpc hsig _ _ _ _ => exact absurd ⟨fun _ => hsig, by simp [hpc]⟩ hkept
  | returned hsat _ => exact absurd (by simp [TokenKept, hsat.1]) hkept
  | call hpc _ => exact absurd (by simp [TokenKept, hpc]) hkept
  | acquired hpc _ _ => exact absurd (by simp [TokenKept, hpc]) hkept
  | busy hpc _ _ => exact absurd (by simp [TokenKept, hpc]) hkept
  | asserted hpc _ => exact absurd (by simp [TokenKept, hpc]) hkept
  | reset hpc _ => exact absurd (by simp [TokenKept, hpc]) hkept

theorem not_hasToken_move (ht : TokenInv s) (h : ¬ HasToken s) (hm : Move s t s')
    : ¬ HasToken s' := by
  have hsig : s.mutex.event.hdr.signalcount ≠ 1 := fun hsig => h (.inl hsig)
  have hnone : ∀ u, u ≠ t → ¬ s.Inside u := fun u _ hu => h (.inr ⟨u, hu⟩)
  cases hm with
  | call _ heq =>
    rw [heq]
    exact not_hasToken_goto hnone (by simp) hsig
  | acquired _ hone _ => exact absurd hone hsig
  | busy _ _ heq =>
    rw [heq]
    exact not_hasToken_goto hnone (by simp) hsig
  | consumed d _ hne _ _ _ =>
    have := ht.signalcount
    omega
  | enqueued d _ _ hhdr _ _ heq =>
    rw [heq]
    apply not_hasToken_goto hnone (by simp)
    simp only [hhdr]
    exact hsig
  | returned _ heq =>
    rw [heq]
    exact not_hasToken_goto hnone (by simp) hsig
  | asserted hpc _ => exact absurd (.inr ⟨t, .inl (.inl hpc)⟩) h
  | reset hpc _ => exact absurd (.inr ⟨t, .inl (.inr hpc)⟩) h
  | signaled d hpc _ _ => exact absurd (.inr ⟨t, .inr hpc⟩) h

theorem not_owns_of_lost (h : Reach MutexInit (MutexStep cfg) s) (hlost : ¬ HasToken s)
    (hrun : Reach (fun s0 => s0 = s) (MutexStep cfg) s') (t : θ)
    : ¬ s'.Owns t := by
  have hboth : Reach MutexInit (MutexStep cfg) s' ∧ ¬ HasToken s' := by
    induction hrun with
    | start heq =>
      subst heq
      exact ⟨h, hlost⟩
    | next _ hstep ih =>
      have hinv := reach_inv ih.1
      exact ⟨ih.1.next hstep, not_hasToken_move hinv.2 ih.2 (step_move hinv hstep)⟩
  exact fun howns => hboth.2 (.inr ⟨t, .inl howns⟩)

/--
After a wait that consumes the signal, or a signal that is handed over, no thread ever owns the mutex again.
-/
theorem lost_token_final {s1 : MutexSys θ} (hr : Reach MutexInit (MutexStep cfg) s)
    (hstep : MutexStep cfg s t s1) (hkept : ¬ TokenKept s t)
    (hrun : Reach (fun s0 => s0 = s1) (MutexStep cfg) s') (u : θ)
    : ¬ s'.Owns u := by
  have hinv := reach_inv hr
  have hlost := lost_of_not_tokenKept hinv.1 hinv.2 hkept (step_move hinv hstep)
  exact not_owns_of_lost (hr.next hstep) hlost hrun u

theorem lost_token_final_consumed
    : ∃ s : MutexSys Bool, Reach MutexInit (MutexStep ⟨false⟩) s ∧
        ∀ s' u, Reach (fun s0 => s0 = s) (MutexStep ⟨false⟩) s' → ¬ s'.Owns u := by
  have h7 := (reach_turns (fun _ _ => True) [false, false, true, true, false, false, false] rfl).unguarded
  have h8 := h7.next (e := true) ⟨by decide, rfl⟩
  refine ⟨_, h8, fun s' u hrun => lost_token_final (t := true) h7 ⟨by decide, rfl⟩ ?_ hrun u⟩
  intro hkept
  cases hkept.1 rfl

end MutexSys
end Nyy
