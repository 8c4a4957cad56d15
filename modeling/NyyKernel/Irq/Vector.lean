import NyyKernel.Lib.Fault
import NyyKernel.Lib.Run

/-!
This module contains the assignment of interrupt objects to vectors in `kernel/irq/irq.c`.
-/

namespace Nyy

def irqVectorMax : Nat := 256 - 32

def irqlVectorCountPer : Nat := 16

def irqShareable : BitVec 32 := 1

structure IrqVector (ω : Type) where
  flags : BitVec 32
  objectcnt : Nat
  objq : List ω

structure IrqTable (ω : Type) where
  vectors : Nat → IrqVector ω
  -- `obj->vector`
  vector : ω → Option Nat
  -- the vectors for which the port has a function to call
  irqHandlers : Nat → Bool

namespace IrqTable

variable {ω : Type}

def portRegisterIsr (s : IrqTable ω) (vec : Nat) : Nat × IrqTable ω :=
  if s.irqHandlers vec then
    (1, s)
  else
    (0, { s with irqHandlers := Function.update s.irqHandlers vec true })

-- The loop of `irq_initialize_obj_irql` over the vectors of a level.
def search (vectors : Nat → IrqVector ω) (flags : BitVec 32) : List Nat → Nat → Nat
  | [], found => found
  | vec :: vecs, found =>
    if (vectors vec).objectcnt = 0 then
      vec
    else if (vectors vec).flags &&& irqShareable ≠ 0 ∧ flags &&& irqShareable ≠ 0 then
      if found ≠ irqVectorMax then
        if (vectors found).objectcnt > (vectors vec).objectcnt then
          search vectors flags vecs vec
        else
          search vectors flags vecs found
      else
        search vectors flags vecs vec
    else
      search vectors flags vecs found

def irqlToVector (irql : Nat) : Nat := (irql <<< 4) - 32

def levelVectors (irql : Nat) : List Nat := List.range' (irqlToVector irql) irqlVectorCountPer

variable [DecidableEq ω]

def irqRegisterHandler (s : IrqTable ω) (obj : ω) (vec : Nat) (flags : BitVec 32) : Nat × IrqTable ω :=
  let v := s.vectors vec
  let v := if v.objectcnt = 0 then { v with flags := flags } else v
  let v := { v with objq := v.objq ++ [obj], objectcnt := v.objectcnt + 1 }
  portRegisterIsr
    { s with
      vectors := Function.update s.vectors vec v
      vector := Function.update s.vector obj (some vec) }
    vec

-- The levels below 2 and above 15 have no vectors in the table.
def irqInitializeObjIrql (cfg : Config) (s : IrqTable ω) (obj : ω) (irqlWanted : Nat) (flags : BitVec 32)
    : Except Fault (Nat × IrqTable ω) := do
  check cfg (s.vector obj == none)
  if irqlWanted < 2 ∨ 15 < irqlWanted then
    .error .undefined
  else
    let found := search s.vectors flags (levelVectors irqlWanted) irqVectorMax
    if found = irqVectorMax then
      return (1, s)
    else
      return irqRegisterHandler s obj found flags

end IrqTable

structure IrqSys (ω : Type) where
  table : IrqTable ω
  registered : ω → Option (Nat × BitVec 32)

structure IrqRequest (ω : Type) where
  obj : ω
  irql : Nat
  flags : BitVec 32

namespace IrqSys

open IrqTable

variable {ω : Type} [DecidableEq ω] {cfg : Config} {s s' : IrqSys ω} {vectors : Nat → IrqVector ω}
  {flags : BitVec 32} {vecs : List Nat} {found vec irql : Nat} {r : IrqRequest ω}

def Init (s : IrqSys ω) : Prop :=
  (∀ vec, s.table.vectors vec = ⟨0, 0, []⟩) ∧ (∀ obj, s.table.vector obj = none) ∧
    ∀ obj, s.registered obj = none

def record (s : IrqSys ω) (table : IrqTable ω) (r : IrqRequest ω) : IrqSys ω where
  table := table
  registered := if (table.vector r.obj).isSome then
      Function.update s.registered r.obj (some (r.irql, r.flags))
    else
      s.registered

def Allowed (s : IrqSys ω) (r : IrqRequest ω) : Prop :=
  s.registered r.obj = none ∧ 2 ≤ r.irql ∧ r.irql ≤ 15

def Step (cfg : Config) (s : IrqSys ω) (r : IrqRequest ω) (s' : IrqSys ω) : Prop :=
  Allowed s r ∧ ∃ ret table,
    irqInitializeObjIrql cfg s.table r.obj r.irql r.flags = .ok (ret, table) ∧ s' = s.record table r

def Shareable (flags : BitVec 32) : Prop := flags &&& irqShareable ≠ 0

def Usable (vectors : Nat → IrqVector ω) (flags : BitVec 32) (vec : Nat) : Prop :=
  (vectors vec).objectcnt = 0 ∨ (Shareable (vectors vec).flags ∧ Shareable flags)

omit [DecidableEq ω] in
theorem search_usable (hfound : found ≠ irqVectorMax →
      Usable vectors flags found) (h : search vectors flags vecs found ≠ irqVectorMax)
    : Usable vectors flags (search vectors flags vecs found) ∧
        (search vectors flags vecs found ∈ vecs ∨ search vectors flags vecs found = found) := by
  -- on the vectors that are left: what was found so far is usable
  induction vecs generalizing found with
  | nil => exact ⟨hfound h, .inr rfl⟩
  | cons vec vecs ih =>
    have hkeep : ∀ found', (found' ≠ irqVectorMax → Usable vectors flags found') →
        (found' = vec ∨ found' = found) →
        search vectors flags vecs found' ≠ irqVectorMax →
        Usable vectors flags (search vectors flags vecs found') ∧
          (search vectors flags vecs found' ∈ vec :: vecs ∨
            search vectors flags vecs found' = found) := by
      intro found' hgood hfrom hne
      rcases ih hgood hne with ⟨husable, hmem | heq⟩
      . exact ⟨husable, .inl (List.mem_cons_of_mem _ hmem)⟩
      . refine ⟨husable, ?_⟩
        rw [heq]
        rcases hfrom with rfl | rfl
        . exact .inl List.mem_cons_self
        . exact .inr rfl
    unfold search at h ⊢
    split_ifs at h ⊢ with hzero hshare hne hgt
    . exact ⟨.inl hzero, .inl List.mem_cons_self⟩
    . exact hkeep vec (fun _ => .inr hshare) (.inl rfl) h
    . exact hkeep found hfound (.inr rfl) h
    . exact hkeep vec (fun _ => .inr hshare) (.inl rfl) h
    . exact hkeep found hfound (.inr rfl) h

omit [DecidableEq ω] in
theorem search_eq_max (hvecs : ∀ vec ∈ vecs, vec ≠ irqVectorMax)
    (h : search vectors flags vecs found = irqVectorMax)
    : found = irqVectorMax ∧ ∀ vec ∈ vecs, ¬ Usable vectors flags vec := by
  induction vecs generalizing found with
  | nil => exact ⟨h, by simp⟩
  | cons vec vecs ih =>
    have hvec := hvecs vec List.mem_cons_self
    have hrest := fun v hv => hvecs v (List.mem_cons_of_mem _ hv)
    unfold search at h
    split at h
    . exact absurd h hvec
    . next hzero =>
      split at h
      . -- the vector can be shared, so the loop goes on with a vector
        split at h
        . next hne =>
          split at h
          . exact absurd (ih hrest h).1 hvec
          . exact absurd (ih hrest h).1 hne
        . exact absurd (ih hrest h).1 hvec
      . next hshare =>
        rcases ih hrest h with ⟨hfound, hnone⟩
        refine ⟨hfound, ?_⟩
        intro v hv
        rcases List.mem_cons.mp hv with rfl | hv
        . rintro (hv | hv)
          . exact hzero hv
          . exact hshare hv
        . exact hnone v hv

omit [DecidableEq ω] in
theorem search_unoccupied (hmem : vec ∈ vecs) (hzero : (vectors vec).objectcnt = 0) (found : Nat)
    : (vectors (search vectors flags vecs found)).objectcnt = 0 := by
  induction vecs generalizing found with
  | nil => cases hmem
  | cons v vecs ih =>
    unfold search
    split
    . next hv => exact hv
    . next hv =>
      have hrest : vec ∈ vecs := by
        rcases List.mem_cons.mp hmem with rfl | hmem
        . exact absurd hzero hv
        . exact hmem
      split_ifs <;> exact ih hrest _

theorem mem_levelVectors
    : vec ∈ levelVectors irql ↔ irqlToVector irql ≤ vec ∧ vec < irqlToVector irql + 16 := by
  simp [levelVectors, irqlVectorCountPer, List.mem_range'_1]

theorem levelVectors_ne_max (h : irql ≤ 15) : ∀ vec ∈ levelVectors irql,
    vec ≠ irqVectorMax := by
  intro vec hvec
  rw [mem_levelVectors, irqlToVector, Nat.shiftLeft_eq] at hvec
  unfold irqVectorMax
  omega

structure Inv (s : IrqSys ω) : Prop where
  count : ∀ vec, (s.table.vectors vec).objectcnt = (s.table.vectors vec).objq.length
  vector : ∀ obj vec, s.table.vector obj = some vec ↔ obj ∈ (s.table.vectors vec).objq
  nodup : ∀ vec, (s.table.vectors vec).objq.Nodup
  registered : ∀ obj, s.registered obj = none ↔ s.table.vector obj = none
  level : ∀ obj vec irql flags, s.table.vector obj = some vec →
    s.registered obj = some (irql, flags) → vec ∈ levelVectors irql
  -- the flags of a vector stand for those of all objects on it
  shared : ∀ obj vec irql flags, s.table.vector obj = some vec →
    s.registered obj = some (irql, flags) →
    (Shareable flags ↔ Shareable (s.table.vectors vec).flags)
  alone : ∀ vec, 1 < (s.table.vectors vec).objq.length → Shareable (s.table.vectors vec).flags

omit [DecidableEq ω] in
theorem Inv.init (h : Init s) : Inv s := by
  rcases h with ⟨hvectors, hvector, hregistered⟩
  constructor <;> simp [hvectors, hvector, hregistered]

section Register

variable {obj : ω} {vec irql : Nat}

def joined (v : IrqVector ω) (obj : ω) (flags : BitVec 32) : IrqVector ω where
  flags := if v.objectcnt = 0 then flags else v.flags
  objectcnt := v.objectcnt + 1
  objq := v.objq ++ [obj]

theorem irqRegisterHandler_vectors (s : IrqTable ω)
    : (irqRegisterHandler s obj vec flags).2.vectors =
        Function.update s.vectors vec (joined (s.vectors vec) obj flags) := by
  unfold irqRegisterHandler portRegisterIsr joined
  dsimp only
  split_ifs <;> rfl

theorem irqRegisterHandler_vector (s : IrqTable ω)
    : (irqRegisterHandler s obj vec flags).2.vector = Function.update s.vector obj (some vec) := by
  unfold irqRegisterHandler portRegisterIsr
  dsimp only
  split_ifs <;> rfl

theorem Inv.attach (h : Inv s) (hfresh : s.registered obj = none)
    (husable : Usable s.table.vectors flags vec) (hlevel : vec ∈ levelVectors irql)
    : Inv (s.record (irqRegisterHandler s.table obj vec flags).2 ⟨obj, irql, flags⟩) := by
  have hnone := (h.registered obj).mp hfresh
  have hnot : ∀ v, obj ∉ (s.table.vectors v).objq := by
    intro v hv
    have := (h.vector obj v).mpr hv
    simp [hnone] at this
  -- an object that was on the vector before has the flags that the new one has to match
  have hold : ∀ u i f, s.table.vector u = some vec → s.registered u = some (i, f) →
      (Shareable f ↔ Shareable (joined (s.table.vectors vec) obj flags).flags) := by
    intro u i f hu hr
    have hmem := (h.vector u vec).mp hu
    have hcount : (s.table.vectors vec).objectcnt ≠ 0 := by
      rw [h.count]
      exact List.length_pos_of_mem hmem |>.ne'
    rw [h.shared u vec i f hu hr, joined, if_neg hcount]
  have hnew : Shareable flags ↔ Shareable (joined (s.table.vectors vec) obj flags).flags := by
    unfold joined
    dsimp only
    split
    . exact Iff.rfl
    . next hcount =>
      rcases husable with hzero | ⟨hv, hf⟩
      . exact absurd hzero hcount
      . exact iff_of_true hf hv
  unfold record
  rw [irqRegisterHandler_vector]
  rw [if_pos (by simp)]
  constructor
  all_goals dsimp only
  all_goals simp only [irqRegisterHandler_vectors, irqRegisterHandler_vector]
  . intro v
    rcases eq_or_ne v vec with rfl | hv
    . simp [joined, h.count]
    . simpa [hv] using h.count v
  . intro u v
    rcases eq_or_ne u obj with rfl | hu
    . rcases eq_or_ne v vec with rfl | hv
      . simp [joined]
      . simp [hv, hv.symm, hnot v]
    . rcases eq_or_ne v vec with rfl | hv
      . simp [joined, hu, h.vector u v]
      . simp [hv, hu, h.vector u v]
  . intro v
    rcases eq_or_ne v vec with rfl | hv
    . simp only [Function.update_self, joined]
      rw [List.nodup_append]
      refine ⟨h.nodup v, List.nodup_singleton _, ?_⟩
      rintro u hu w hw rfl
      rw [List.mem_singleton] at hw
      exact hnot v (hw ▸ hu)
    . simpa [hv] using h.nodup v
  . intro u
    rcases eq_or_ne u obj with rfl | hu
    . simp
    . simpa [hu] using h.registered u
  . intro u v i f hu hr
    rcases eq_or_ne u obj with rfl | hne
    . simp only [Function.update_self, Option.some.injEq, Prod.mk.injEq] at hu hr
      rcases hr with ⟨rfl, rfl⟩
      exact hu ▸ hlevel
    . rw [Function.update_of_ne hne] at hu hr
      exact h.level u v i f hu hr
  . intro u v i f hu hr
    rcases eq_or_ne u obj with rfl | hne
    . simp only [Function.update_self, Option.some.injEq, Prod.mk.injEq] at hu hr
      rcases hr with ⟨rfl, rfl⟩
      subst hu
      rw [Function.update_self]
      exact hnew
    . rw [Function.update_of_ne hne] at hu hr
      rcases eq_or_ne v vec with rfl | hv
      . rw [Function.update_self]
        exact hold u i f hu hr
      . rw [Function.update_of_ne hv]
        exact h.shared u v i f hu hr
  . intro v hlen
    rcases eq_or_ne v vec with rfl | hv
    . rw [Function.update_self] at hlen ⊢
      have hcount : (s.table.vectors v).objectcnt ≠ 0 := by
        rw [h.count]
        simp only [joined, List.length_append, List.length_singleton] at hlen
        omega
      have hf := (husable.resolve_left hcount).2
      exact hnew.mp hf
    . rw [Function.update_of_ne hv] at hlen ⊢
      exact h.alone v hlen

end Register

theorem irqInitializeObjIrql_cases (cfg : Config) (h : Inv s) (hallowed : Allowed s r)
    : (∃ vec ∈ levelVectors r.irql, Usable s.table.vectors r.flags vec ∧
        ((∃ v ∈ levelVectors r.irql, (s.table.vectors v).objectcnt = 0) →
          (s.table.vectors vec).objectcnt = 0) ∧
        irqInitializeObjIrql cfg s.table r.obj r.irql r.flags =
          .ok (irqRegisterHandler s.table r.obj vec r.flags)) ∨
      ((∀ vec ∈ levelVectors r.irql, ¬ Usable s.table.vectors r.flags vec) ∧
        irqInitializeObjIrql cfg s.table r.obj r.irql r.flags = .ok (1, s.table)) := by
  rcases hallowed with ⟨hfresh, hlow, hhigh⟩
  have hnone := (h.registered r.obj).mp hfresh
  unfold irqInitializeObjIrql
  rw [check_of cfg (by simp [hnone]), Except.ok_bind, if_neg (by omega)]
  dsimp only
  by_cases hmax : search s.table.vectors r.flags (levelVectors r.irql) irqVectorMax = irqVectorMax
  . rw [if_pos hmax]
    exact .inr ⟨(search_eq_max (levelVectors_ne_max hhigh) hmax).2, rfl⟩
  . rw [if_neg hmax]
    rcases search_usable (fun hne => absurd rfl hne) hmax with ⟨husable, hmem | heq⟩
    . refine .inl ⟨_, hmem, husable, ?_, rfl⟩
      rintro ⟨v, hv, hzero⟩
      exact search_unoccupied hv hzero _
    . exact absurd heq hmax

theorem Inv.step (h : Inv s) (hstep : Step cfg s r s') : Inv s' := by
  rcases hstep with ⟨hallowed, ret, table, hcall, rfl⟩
  rcases irqInitializeObjIrql_cases cfg h hallowed with ⟨vec, hvec, husable, _, heq⟩ | ⟨_, heq⟩
  . rw [heq] at hcall
    have htable := congrArg Prod.snd (Except.ok.inj hcall)
    dsimp only at htable
    rw [← htable]
    exact h.attach hallowed.1 husable hvec
  . rw [heq] at hcall
    cases hcall
    have hnone := (h.registered r.obj).mp hallowed.1
    unfold record
    rw [if_neg (by simp [hnone])]
    exact h

theorem vectors_shared_safely (hr : Reach Init (Step cfg) s)
    : (∀ vec, (s.table.vectors vec).objectcnt = (s.table.vectors vec).objq.length) ∧
        (∀ obj irql flags, s.registered obj = some (irql, flags) →
          ∃ vec ∈ levelVectors irql, s.table.vector obj = some vec ∧
            (s.table.vectors vec).objq.count obj = 1 ∧
            ∀ v, obj ∈ (s.table.vectors v).objq → v = vec) ∧
        (∀ vec obj, obj ∈ (s.table.vectors vec).objq → ∃ irql flags,
          s.registered obj = some (irql, flags) ∧
            (¬ Shareable flags → (s.table.vectors vec).objq = [obj])) ∧
        ∀ r, Allowed s r → ∃ ret table,
          irqInitializeObjIrql cfg s.table r.obj r.irql r.flags = .ok (ret, table) ∧
            (table.vector r.obj = none → ret = 1 ∧ table = s.table ∧
              ∀ vec ∈ levelVectors r.irql, (s.table.vectors vec).objectcnt ≠ 0 ∧
                ¬ (Shareable (s.table.vectors vec).flags ∧ Shareable r.flags)) := by
  have h : Inv s := by
    refine hr.invariant ?_ ?_
    . intro s
      exact Inv.init
    . intro s r s'
      exact Inv.step
  refine ⟨h.count, ?_, ?_, ?_⟩
  . intro obj irql flags hreg
    cases hv : s.table.vector obj with
    | none =>
      rw [(h.registered obj).mpr hv] at hreg
      cases hreg
    | some vec =>
      refine ⟨vec, h.level obj vec irql flags hv hreg, rfl, ?_, ?_⟩
      . exact List.count_eq_one_of_mem (h.nodup vec) ((h.vector obj vec).mp hv)
      . intro v hmem
        have := (h.vector obj v).mpr hmem
        rw [hv] at this
        exact (Option.some.inj this).symm
  . intro vec obj hmem
    have hv := (h.vector obj vec).mpr hmem
    cases hreg : s.registered obj with
    | none =>
      rw [(h.registered obj).mp hreg] at hv
      cases hv
    | some req =>
      rcases req with ⟨irql, flags⟩
      refine ⟨irql, flags, rfl, ?_⟩
      intro hnot
      -- a second object would make the vector one that can be shared
      have hlen : ¬ 1 < (s.table.vectors vec).objq.length := by
        intro hlen
        exact hnot ((h.shared obj vec irql flags hv hreg).mpr (h.alone vec hlen))
      have hpos := List.length_pos_of_mem hmem
      rcases List.length_eq_one_iff.mp (show (s.table.vectors vec).objq.length = 1 by omega) with
        ⟨u, hu⟩
      rw [hu, List.mem_singleton] at hmem
      rw [hu, hmem]
  . intro r hallowed
    rcases irqInitializeObjIrql_cases cfg h hallowed with ⟨vec, _, _, _, heq⟩ | ⟨hnone, heq⟩
    . refine ⟨(irqRegisterHandler s.table r.obj vec r.flags).1,
        (irqRegisterHandler s.table r.obj vec r.flags).2, heq, ?_⟩
      rw [irqRegisterHandler_vector]
      simp
    . refine ⟨_, _, heq, ?_⟩
      intro _
      refine ⟨rfl, rfl, ?_⟩
      intro vec hvec
      exact not_or.mp (hnone vec hvec)

def vacant : IrqSys Nat where
  table := ⟨fun _ => ⟨0, 0, []⟩, fun _ => none, fun _ => false⟩
  registered _ := none

def attach (s : IrqSys Nat) (r : IrqRequest Nat) : IrqSys Nat :=
  match irqInitializeObjIrql ⟨false⟩ s.table r.obj r.irql r.flags with
  | .ok (_, table) => s.record table r
  | .error _ => s

-- an object with a vector of its own at level 4, then `n` objects at level 3 that can share one
def crowded : Nat → IrqSys Nat
  | 0 => vacant.attach ⟨17, 4, 0⟩
  | n + 1 => (crowded n).attach ⟨n, 3, irqShareable⟩

theorem step_attach {s : IrqSys Nat} {r : IrqRequest Nat} (h : Inv s) (hallowed : Allowed s r)
    : Step ⟨false⟩ s r (s.attach r) := by
  refine ⟨hallowed, ?_⟩
  unfold attach
  rcases irqInitializeObjIrql_cases ⟨false⟩ h hallowed with ⟨_, _, _, _, heq⟩ | ⟨_, heq⟩
  . rw [heq]
    exact ⟨_, _, rfl, rfl⟩
  . rw [heq]
    exact ⟨_, _, rfl, rfl⟩

theorem crowded_reach {init : IrqSys Nat → Prop} (hinit : init vacant) {n : Nat} (hn : n ≤ 17)
    : Reach init (Step ⟨false⟩) (crowded n) ∧ Inv (crowded n) := by
  have hstep : ∀ s r, Reach init (Step ⟨false⟩) s ∧ Inv s → Allowed s r →
      Reach init (Step ⟨false⟩) (s.attach r) ∧ Inv (s.attach r) :=
    fun s r h hallowed => ⟨h.1.next (step_attach h.2 hallowed), h.2.step (step_attach h.2 hallowed)⟩
  induction n with
  | zero =>
    exact hstep vacant _ ⟨.start hinit, .init ⟨fun _ => rfl, fun _ => rfl, fun _ => rfl⟩⟩
      ⟨rfl, by decide, by decide⟩
  | succ n ih =>
    have hnew : ∀ n < 17, (crowded n).registered n = none := by decide +kernel
    exact hstep _ _ (ih (by omega)) ⟨hnew n hn, show 2 ≤ 3 by decide, show 3 ≤ 15 by decide⟩

theorem vectors_shared_safely_crowded
    : ((crowded 17).table.vectors 16).objq = [0, 16] ∧
        (∀ vec, ((crowded 17).table.vectors vec).objectcnt = ((crowded 17).table.vectors vec).objq.length) ∧
        ∃ vec ∈ levelVectors 4, ((crowded 17).table.vectors vec).objq = [17] := by
  have hr : Reach Init (Step ⟨false⟩) (crowded 17) :=
    (crowded_reach ⟨fun _ => rfl, fun _ => rfl, fun _ => rfl⟩ (Nat.le_refl 17)).1
  have h := vectors_shared_safely hr
  have hreg : (crowded 17).registered 17 = some (4, 0) := by decide +kernel
  rcases h.2.1 17 4 0 hreg with ⟨vec, hvec, _, hcount, _⟩
  have hmem : 17 ∈ ((crowded 17).table.vectors vec).objq := List.count_pos_iff.mp (by omega)
  rcases h.2.2.1 vec 17 hmem with ⟨irql, flags, hreg', hexclusive⟩
  rw [hreg] at hreg'
  cases hreg'
  exact ⟨by decide +kernel, h.1, vec, hvec, hexclusive (by unfold Shareable; decide)⟩

end IrqSys
end Nyy
