import NyyKernel.Dispatch.Lemmas
import NyyKernel.Lib.Run
import NyyKernel.Mutex.Impl

namespace Nyy
namespace MutexSys

variable {θ : Type} [DecidableEq θ] {s : MutexSys θ}

def Inside (s : MutexSys θ) (t : θ) : Prop := s.Owns t ∨ s.pc t = .signal

structure WaitInv (s : MutexSys θ) : Prop where
  type : s.mutex.event.hdr.type = .event
  disp : s.mutex.event.Ok
  listed : ∀ t, t ∈ s.mutex.event.hdr.waitblockList ↔
    s.pc t = .blocked ∧ (s.mutex.event.wait t).state = .waiting
  resumed : ∀ t, s.Satisfied t → (s.mutex.event.wait t).dequeued = true ∧
    (s.mutex.event.wait t).waitStatus = statusRangeWait + 0

structure TokenInv (s : MutexSys θ) : Prop where
  signalcount : s.mutex.event.hdr.signalcount = 0 ∨ s.mutex.event.hdr.signalcount = 1
  unique : ∀ t u, s.Inside t → s.Inside u → t = u
  inside : ∀ t, s.Inside t → s.mutex.event.hdr.signalcount = 0
  owner : ∀ t, s.mutex.owner = some t ↔ s.Owns t

def taken (mutex : Mutex θ) (t : θ) : Mutex θ :=
  ⟨{ mutex.event with hdr := { mutex.event.hdr with signalcount := 0 } }, some t⟩

inductive Move (s : MutexSys θ) (t : θ) (s' : MutexSys θ) : Prop where
  | call (hpc : s.pc t = .idle) (heq : s' = s.goto t .check s.mutex)
  | acquired (hpc : s.pc t = .check) (hsig : s.mutex.event.hdr.signalcount = 1)
      (heq : s' = s.goto t .holding (taken s.mutex t))
  | busy (hpc : s.pc t = .check) (hsig : s.mutex.event.hdr.signalcount ≠ 1)
      (heq : s' = s.goto t .wait s.mutex)
  | consumed (d : Disp θ) (hpc : s.pc t = .wait) (hsig : s.mutex.event.hdr.signalcount ≠ 0)
      (hhdr : d.hdr = { s.mutex.event.hdr with signalcount := s.mutex.event.hdr.signalcount - 1 })
      (hother : ∀ u, u ≠ t → d.wait u = s.mutex.event.wait u)
      (heq : s' = s.goto t .check { s.mutex with event := d })
  | enqueued (d : Disp θ) (hpc : s.pc t = .wait) (hsig : s.mutex.event.hdr.signalcount = 0)
      (hhdr : d.hdr = { s.mutex.event.hdr with
        waitblockList := s.mutex.event.hdr.waitblockList ++ [t]
        waitercount := s.mutex.event.hdr.waitercount + 1 })
      (hself : Disp.Waits (d.wait t)) (hother : ∀ u, u ≠ t → d.wait u = s.mutex.event.wait u)
      (heq : s' = s.goto t .blocked { s.mutex with event := d })
  | returned (hsat : s.Satisfied t) (heq : s' = s.goto t .idle s.mutex)
  | asserted (hpc : s.pc t = .holding) (heq : s' = s.goto t .reset s.mutex)
  | reset (hpc : s.pc t = .reset) (heq : s' = s.goto t .signal { s.mutex with owner := none })
  | signaled (d : Disp θ) (hpc : s.pc t = .signal) (hsig : Disp.Signaled s.mutex.event d)
      (heq : s' = s.goto t .idle { s.mutex with event := d })

theorem exists_move (cfg : Config) {t : θ} (hw : WaitInv s) (ht : TokenInv s) (he : s.Enabled t)
    : ∃ s', mutexStep cfg s t = .ok s' ∧ Move s t s' := by
  unfold mutexStep
  cases hpc : s.pc t with
  | idle => exact ⟨_, rfl, .call hpc rfl⟩
  | check =>
    dsimp only
    unfold mutexAcquireCheck
    by_cases hsig : s.mutex.event.hdr.signalcount = 1
    . have howner : s.mutex.owner = none := by
        cases ho : s.mutex.owner with
        | none => rfl
        | some u =>
          have := ht.inside u (.inl ((ht.owner u).mp ho))
          omega
      rw [if_pos hsig, howner, beq_self_eq_true, check_true]
      exact ⟨_, rfl, .acquired hpc hsig rfl⟩
    . rw [if_neg hsig]
      exact ⟨_, rfl, .busy hpc hsig rfl⟩
  | wait =>
    dsimp only
    by_cases hsig : s.mutex.event.hdr.signalcount = 0
    . rcases Disp.schedWaitSingle_of_not_signaled t hsig with ⟨d, hd, hhdr, hself, hother⟩
      rw [hd]
      exact ⟨_, rfl, .enqueued d hpc hsig hhdr hself hother rfl⟩
    . rcases Disp.schedWaitSingle_of_signaled t hsig (by simp [hw.type]) with ⟨d, hd, hhdr, hother⟩
      rw [hd]
      exact ⟨_, rfl, .consumed d hpc hsig hhdr hother rfl⟩
  | blocked =>
    dsimp only
    have hsat : s.Satisfied t := ⟨hpc, he hpc⟩
    have hres := hw.resumed t hsat
    rw [Disp.waitReturn_of_dequeued hres.1, hres.2]
    exact ⟨_, rfl, .returned hsat rfl⟩
  | holding =>
    have howner : s.mutex.owner = some t := (ht.owner t).mpr (.inl hpc)
    dsimp only
    rw [howner, beq_self_eq_true, check_true]
    exact ⟨_, rfl, .asserted hpc rfl⟩
  | reset => exact ⟨_, rfl, .reset hpc rfl⟩
  | signal =>
    dsimp only
    rcases hw.disp.eventSignal cfg hw.type with ⟨r, d, hd, hsig⟩
    rw [hd]
    exact ⟨_, rfl, .signaled d hpc hsig rfl⟩

section Preservation

variable {s s' : MutexSys θ} {t u : θ} {d : Disp θ}

omit [DecidableEq θ] in
theorem WaitInv.of_list_eq (h : WaitInv s) (ht : t ∉ s.mutex.event.hdr.waitblockList)
    (htype : s'.mutex.event.hdr.type = s.mutex.event.hdr.type)
    (hlist : s'.mutex.event.hdr.waitblockList = s.mutex.event.hdr.waitblockList)
    (hcount : s'.mutex.event.hdr.waitercount = s.mutex.event.hdr.waitercount)
    (hwait : ∀ u, u ≠ t → s'.mutex.event.wait u = s.mutex.event.wait u)
    (hpc : ∀ u, u ≠ t → s'.pc u = s.pc u) (hself : s'.pc t ≠ .blocked)
    : WaitInv s' := by
  have hne : ∀ u ∈ s.mutex.event.hdr.waitblockList, u ≠ t := by
    rintro u hu rfl
    exact ht hu
  constructor
  . rw [htype, h.type]
  . constructor
    . rw [hlist]
      exact h.disp.nodup
    . rw [hcount, hlist]
      exact h.disp.count
    . intro u hu
      rw [hlist] at hu
      rw [hwait u (hne u hu)]
      exact h.disp.waits u hu
  . intro u
    rw [hlist]
    by_cases hut : u = t
    . subst hut
      simp [ht, hself]
    . rw [hpc u hut, hwait u hut]
      exact h.listed u
  . rintro u ⟨hblocked, hstate⟩
    have hut : u ≠ t := by
      rintro rfl
      exact hself hblocked
    rw [hpc u hut] at hblocked
    rw [hwait u hut] at hstate ⊢
    exact h.resumed u ⟨hblocked, hstate⟩

omit [DecidableEq θ] in
theorem WaitInv.not_mem (h : WaitInv s) (hpc : s.pc t ≠ .blocked)
    : t ∉ s.mutex.event.hdr.waitblockList := by
  rw [h.listed]
  exact fun hmem => hpc hmem.1

@[simp]
theorem goto_pc_self (s : MutexSys θ) (t : θ) (pc : MutexPc) (mutex : Mutex θ)
    : (s.goto t pc mutex).pc t = pc := by
  simp [goto]

theorem goto_pc_of_ne (s : MutexSys θ) (pc : MutexPc) (mutex : Mutex θ) (h : u ≠ t)
    : (s.goto t pc mutex).pc u = s.pc u := by
  simp [goto, h]

theorem WaitInv.goto {pc : MutexPc} {mutex : Mutex θ} (h : WaitInv s)
    (ht : t ∉ s.mutex.event.hdr.waitblockList) (hpc : pc ≠ .blocked)
    (htype : mutex.event.hdr.type = s.mutex.event.hdr.type)
    (hlist : mutex.event.hdr.waitblockList = s.mutex.event.hdr.waitblockList)
    (hcount : mutex.event.hdr.waitercount = s.mutex.event.hdr.waitercount)
    (hwait : ∀ u, u ≠ t → mutex.event.wait u = s.mutex.event.wait u)
    : WaitInv (s.goto t pc mutex) := by
  apply h.of_list_eq ht htype hlist hcount hwait
  . intro u hu
    exact goto_pc_of_ne s pc mutex hu
  . rwa [goto_pc_self]

theorem WaitInv.enqueue (h : WaitInv s) (hpc : s.pc t ≠ .blocked)
    (hhdr : d.hdr = { s.mutex.event.hdr with
      waitblockList := s.mutex.event.hdr.waitblockList ++ [t]
      waitercount := s.mutex.event.hdr.waitercount + 1 }) (hself : Disp.Waits (d.wait t))
    (hother : ∀ u, u ≠ t → d.wait u = s.mutex.event.wait u)
    : WaitInv (s.goto t .blocked { s.mutex with event := d }) := by
  have ht := h.not_mem hpc
  constructor
  . simp only [MutexSys.goto, hhdr]
    exact h.type
  . exact h.disp.enqueue ht hhdr hself hother
  . intro u
    simp only [MutexSys.goto, hhdr, List.mem_append, List.mem_singleton]
    by_cases hut : u = t
    . subst hut
      simp [hself.state]
    . rw [Function.update_of_ne hut, hother u hut, h.listed u]
      simp [hut]
  . rintro u ⟨hblocked, hstate⟩
    have hut : u ≠ t := by
      rintro rfl
      exact hstate hself.state
    rw [goto_pc_of_ne _ _ _ hut] at hblocked
    simp only [MutexSys.goto, hother u hut] at hstate ⊢
    exact h.resumed u ⟨hblocked, hstate⟩

theorem WaitInv.handed {x : θ} {ts : List θ} (h : WaitInv s) (hpc : s.pc t = .signal)
    (hlist : s.mutex.event.hdr.waitblockList = x :: ts) (hd : Disp.HandedOver s.mutex.event d x ts)
    : WaitInv (s.goto t .idle { s.mutex with event := d }) := by
  have hx := (h.listed x).mp (by simp [hlist])
  have hnodup := h.disp.nodup
  rw [hlist, List.nodup_cons] at hnodup
  have hxt : x ≠ t := by
    rintro rfl
    simp [hpc] at hx
  constructor
  . simp only [MutexSys.goto, hd.hdr]
    exact h.type
  . exact hd.ok h.disp hlist
  . intro u
    simp only [MutexSys.goto, hd.hdr]
    by_cases hut : u = t
    . subst hut
      have := h.not_mem (t := u) (by simp [hpc])
      rw [hlist, List.mem_cons, not_or] at this
      simp [this.2]
    . rw [Function.update_of_ne hut]
      by_cases hux : u = x
      . subst hux
        simp [hnodup.1, hd.self]
      . rw [hd.other u hux, ← h.listed u, hlist]
        simp [hux]
  . rintro u ⟨hblocked, hstate⟩
    have hut : u ≠ t := by
      rintro rfl
      rw [goto_pc_self] at hblocked
      cases hblocked
    rw [goto_pc_of_ne _ _ _ hut] at hblocked
    simp only [MutexSys.goto] at hstate ⊢
    by_cases hux : u = x
    . subst hux
      simp [hd.self]
    . rw [hd.other u hux] at hstate ⊢
      exact h.resumed u ⟨hblocked, hstate⟩

theorem WaitInv.move (h : WaitInv s) (hm : Move s t s') : WaitInv s' := by
  cases hm with
  | call hpc heq =>
    rw [heq]
    exact h.goto (h.not_mem (by simp [hpc])) (by simp) rfl rfl rfl (fun _ _ => rfl)
  | acquired hpc _ heq =>
    rw [heq]
    exact h.goto (h.not_mem (by simp [hpc])) (by simp) rfl rfl rfl (fun _ _ => rfl)
  | busy hpc _ heq =>
    rw [heq]
    exact h.goto (h.not_mem (by simp [hpc])) (by simp) rfl rfl rfl (fun _ _ => rfl)
  | consumed d hpc _ hhdr hother heq =>
    rw [heq]
    apply h.goto (h.not_mem (by simp [hpc])) (by simp)
    . simp [hhdr]
    . simp [hhdr]
    . simp [hhdr]
    . exact hother
  | enqueued d hpc _ hhdr hself hother heq =>
    rw [heq]
    exact h.enqueue (by simp [hpc]) hhdr hself hother
  | returned hsat heq =>
    rw [heq]
    have ht : t ∉ s.mutex.event.hdr.waitblockList := by
      rw [h.listed]
      exact fun hmem => hsat.2 hmem.2
    exact h.goto ht (by simp) rfl rfl rfl (fun _ _ => rfl)
  | asserted hpc heq =>
    rw [heq]
    exact h.goto (h.not_mem (by simp [hpc])) (by simp) rfl rfl rfl (fun _ _ => rfl)
  | reset hpc heq =>
    rw [heq]
    exact h.goto (h.not_mem (by simp [hpc])) (by simp) rfl rfl rfl (fun _ _ => rfl)
  | signaled d hpc hsig heq =>
    rw [heq]
    cases hsig with
    | again _ hd =>
      rw [hd]
      exact h.goto (h.not_mem (by simp [hpc])) (by simp) rfl rfl rfl (fun _ _ => rfl)
    | handed x ts _ hlist hd => exact h.handed hpc hlist hd
    | set _ _ hd =>
      rw [hd]
      exact h.goto (h.not_mem (by simp [hpc])) (by simp) rfl rfl rfl (fun _ _ => rfl)

theorem owns_goto_of_ne {pc : MutexPc} {mutex : Mutex θ} (hu : u ≠ t)
    : (s.goto t pc mutex).Owns u ↔ s.Owns u := by
  unfold Owns
  rw [goto_pc_of_ne _ _ _ hu]

theorem inside_goto_of_ne {pc : MutexPc} {mutex : Mutex θ} (hu : u ≠ t)
    : (s.goto t pc mutex).Inside u ↔ s.Inside u := by
  unfold Inside
  rw [owns_goto_of_ne hu, goto_pc_of_ne _ _ _ hu]

theorem TokenInv.neutral {pc : MutexPc} {mutex : Mutex θ} (h : TokenInv s)
    (hsig : mutex.event.hdr.signalcount = s.mutex.event.hdr.signalcount ∨
      mutex.event.hdr.signalcount = 0) (howner : mutex.owner = s.mutex.owner)
    (howns : (pc = .holding ∨ pc = .reset) ↔ s.Owns t) (hsignal : pc = .signal ↔ s.pc t = .signal)
    : TokenInv (s.goto t pc mutex) := by
  have howns' : ∀ u, (s.goto t pc mutex).Owns u ↔ s.Owns u := by
    intro u
    by_cases hu : u = t
    . subst hu
      unfold Owns
      rw [goto_pc_self]
      exact howns
    . exact owns_goto_of_ne hu
  have hinside : ∀ u, (s.goto t pc mutex).Inside u ↔ s.Inside u := by
    intro u
    unfold Inside
    rw [howns']
    by_cases hu : u = t
    . subst hu
      rw [goto_pc_self, hsignal]
    . rw [goto_pc_of_ne _ _ _ hu]
  constructor
  . have := h.signalcount
    simp only [goto]
    omega
  . intro u v hu hv
    rw [hinside] at hu hv
    exact h.unique u v hu hv
  . intro u hu
    rw [hinside] at hu
    have := h.inside u hu
    simp only [goto]
    omega
  . intro u
    simp only [goto, howner]
    rw [h.owner]
    exact (howns' u).symm

theorem TokenInv.acquire {mutex : Mutex θ} (h : TokenInv s) (hsig : s.mutex.event.hdr.signalcount = 1)
    (hzero : mutex.event.hdr.signalcount = 0) (howner : mutex.owner = some t)
    : TokenInv (s.goto t .holding mutex) := by
  have hnone : ∀ u, ¬ s.Inside u := by
    intro u hu
    have := h.inside u hu
    omega
  have hinside : ∀ u, (s.goto t .holding mutex).Inside u → u = t := by
    intro u hu
    by_contra hut
    rw [inside_goto_of_ne hut] at hu
    exact hnone u hu
  constructor
  . exact .inl hzero
  . intro u v hu hv
    rw [hinside u hu, hinside v hv]
  . exact fun _ _ => hzero
  . intro u
    simp only [goto, howner, Option.some.injEq]
    by_cases hut : u = t
    . subst hut
      simp [Owns]
    . have := hnone u
      simp only [Inside, Owns, not_or] at this
      simp [Owns, hut, this.1, Ne.symm hut]

theorem TokenInv.leave {pc : MutexPc} {mutex : Mutex θ} (h : TokenInv s) (ht : s.Inside t)
    (hpc : pc ≠ .holding ∧ pc ≠ .reset)
    (hsig : mutex.event.hdr.signalcount = 0 ∨
      (pc ≠ .signal ∧ mutex.event.hdr.signalcount = 1)) (howner : mutex.owner = none)
    : TokenInv (s.goto t pc mutex) := by
  have hother : ∀ u, u ≠ t → ¬ (s.goto t pc mutex).Inside u := by
    intro u hut hu
    rw [inside_goto_of_ne hut] at hu
    exact hut (h.unique u t hu ht)
  constructor
  . simp only [goto]
    omega
  . intro u v hu hv
    have hut : u = t := by
      by_contra hut
      exact hother u hut hu
    have hvt : v = t := by
      by_contra hvt
      exact hother v hvt hv
    rw [hut, hvt]
  . intro u hu
    have hut : u = t := by
      by_contra hut
      exact hother u hut hu
    subst hut
    unfold Inside Owns at hu
    rw [goto_pc_self] at hu
    simp only [goto]
    tauto
  . intro u
    simp only [goto, howner]
    by_cases hut : u = t
    . subst hut
      simp [Owns, hpc]
    . have := hother u hut
      unfold Inside goto at this
      rw [not_or] at this
      simpa using this.1

theorem TokenInv.move (h : TokenInv s) (hm : Move s t s') : TokenInv s' := by
  cases hm with
  | call hpc heq =>
    rw [heq]
    exact h.neutral (.inl rfl) rfl (by simp [Owns, hpc]) (by simp [hpc])
  | acquired hpc hsig heq =>
    rw [heq]
    exact h.acquire hsig rfl rfl
  | busy hpc _ heq =>
    rw [heq]
    exact h.neutral (.inl rfl) rfl (by simp [Owns, hpc]) (by simp [hpc])
  | consumed d hpc hsig hhdr _ heq =>
    rw [heq]
    refine h.neutral (.inr ?_) rfl (by simp [Owns, hpc]) (by simp [hpc])
    have := h.signalcount
    simp only [hhdr]
    omega
  | enqueued d hpc _ hhdr _ _ heq =>
    rw [heq]
    refine h.neutral (.inl ?_) rfl (by simp [Owns, hpc]) (by simp [hpc])
    simp only [hhdr]
  | returned hsat heq =>
    rw [heq]
    exact h.neutral (.inl rfl) rfl (by simp [Owns, hsat.1]) (by simp [hsat.1])
  | asserted hpc heq =>
    rw [heq]
    exact h.neutral (.inl rfl) rfl (by simp [Owns, hpc]) (by simp [hpc])
  | reset hpc heq =>
    rw [heq]
    have ht : s.Inside t := .inl (.inr hpc)
    exact h.leave ht (by simp) (.inl (h.inside t ht)) rfl
  | signaled d hpc hsig heq =>
    rw [heq]
    have ht : s.Inside t := .inr hpc
    have hzero := h.inside t ht
    have howner : s.mutex.owner = none := by
      cases ho : s.mutex.owner with
      | none => rfl
      | some u =>
        have hu := (h.owner u).mp ho
        have hut := h.unique u t (.inl hu) ht
        subst hut
        simp [Owns, hpc] at hu
    refine h.leave ht (by simp) ?_ howner
    cases hsig with
    | again hsig _ => exact absurd hzero hsig
    | handed x ts _ _ hd =>
      left
      simp only [hd.hdr]
      exact hzero
    | set _ _ hd =>
      right
      simp [hd]

end Preservation

omit [DecidableEq θ] in
theorem init_inv (h : MutexInit s) : WaitInv s ∧ TokenInv s := by
  rcases h with ⟨⟨wait, hmutex⟩, hpc⟩
  constructor
  . constructor
    . rw [hmutex]
      rfl
    . rw [hmutex]
      exact ⟨List.nodup_nil, rfl, by simp [mutexInit, eventInit, objInit]⟩
    . intro t
      simp [hmutex, hpc, mutexInit, eventInit, objInit]
    . rintro t ⟨hblocked, _⟩
      simp [hpc] at hblocked
  . constructor
    . rw [hmutex]
      exact .inr rfl
    . intro t u ht
      simp [Inside, Owns, hpc] at ht
    . intro t ht
      simp [Inside, Owns, hpc] at ht
    . intro t
      simp [hmutex, mutexInit, Owns, hpc]

theorem reach_inv {cfg : Config} (h : Reach MutexInit (MutexStep cfg) s)
    : WaitInv s ∧ TokenInv s := by
  refine h.invariant (fun s hs => init_inv hs) ?_
  intro s t s' hs hstep
  rcases hstep with ⟨he, hstep⟩
  rcases exists_move cfg hs.1 hs.2 he with ⟨s2, hs2, hmove⟩
  rw [hs2] at hstep
  cases hstep
  exact ⟨hs.1.move hmove, hs.2.move hmove⟩

theorem mutual_exclusion {cfg : Config} {s : MutexSys θ} (h : Reach MutexInit (MutexStep cfg) s)
    : (∀ t u, s.Owns t → s.Owns u → t = u) ∧
        (∀ t, s.mutex.owner = some t ↔ s.Owns t) ∧
        (s.mutex.event.hdr.signalcount = 0 ∨ s.mutex.event.hdr.signalcount = 1) ∧
        (s.mutex.event.hdr.signalcount = 1 → s.mutex.owner = none) ∧
        (∀ t, s.Enabled t → ∃ s', mutexStep cfg s t = .ok s') := by
  rcases reach_inv h with ⟨hw, ht⟩
  refine ⟨?_, ht.owner, ht.signalcount, ?_, ?_⟩
  . intro t u howns hownsu
    exact ht.unique t u (.inl howns) (.inl hownsu)
  . intro hsig
    cases ho : s.mutex.owner with
    | none => rfl
    | some t =>
      have := ht.inside t (.inl ((ht.owner t).mp ho))
      omega
  . intro t he
    rcases exists_move cfg hw ht he with ⟨s', hs', _⟩
    exact ⟨s', hs'⟩

def twoUsers : MutexSys Bool := ⟨mutexInit fun _ => ⟨.running, -1, -1, false, false⟩, fun _ => .idle⟩

theorem twoUsers_init : MutexInit twoUsers := ⟨⟨_, rfl⟩, fun _ => rfl⟩

def turns (guard : MutexSys Bool → Bool → Prop) [∀ s t, Decidable (guard s t)] (ts : List Bool)
    : Except Fault (MutexSys Bool) :=
  ts.foldlM (fun s t => if guard s t ∧ s.Enabled t then mutexStep ⟨false⟩ s t else .error .undefined) twoUsers

theorem reach_turns (guard : MutexSys Bool → Bool → Prop) [∀ s t, Decidable (guard s t)] (ts : List Bool)
    {s : MutexSys Bool} (h : turns guard ts = .ok s)
    : Reach MutexInit (Guarded guard (MutexStep ⟨false⟩)) s := by
  refine Reach.foldlM ?_ (.start twoUsers_init) h
  intro s t _ s' hs
  split at hs
  . next hguard => exact ⟨hguard.1, hguard.2, hs⟩
  . cases hs

theorem mutual_exclusion_acquired
    : ∃ s : MutexSys Bool, Reach MutexInit (MutexStep ⟨false⟩) s ∧ s.Owns true ∧
        s.mutex.owner = some true := by
  have hreach := (reach_turns (fun _ _ => True) [true, true] rfl).unguarded
  have howns := (mutual_exclusion hreach).2.1 true
  exact ⟨_, hreach, howns.mp rfl, rfl⟩

end MutexSys
end Nyy
