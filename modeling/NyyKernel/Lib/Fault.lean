import Mathlib.Tactic

/-!
This module contains the error monad that the models of fallible C code run in.
-/

namespace Nyy

variable {cond : Bool}

inductive Fault where
  -- An assertion failed and the machine stopped.
  | assertion
  -- Undefined behaviour: a null or wild pointer was followed, an array index was out of bounds.
  | undefined
  -- A lock that the caller already holds was acquired again.
  | deadlock
  -- The environment had no memory left to hand out.
  | noMemory
  -- The loop budget of the model was used up.
  | fuel
  deriving DecidableEq, Repr

structure Config where
  -- Assertions expand to nothing, their argument is not evaluated.
  disableAsserts : Bool
  deriving DecidableEq, Repr

def check (cfg : Config) (cond : Bool) : Except Fault Unit :=
  if cfg.disableAsserts || cond then .ok () else .error .assertion

@[simp]
theorem check_true (cfg : Config) : check cfg true = .ok () := by
  simp [check]

theorem check_of (cfg : Config) (h : cond = true) : check cfg cond = .ok () := by
  simp [check, h]

theorem check_cases (cfg : Config) (cond : Bool)
    : check cfg cond = .ok () ∨ check cfg cond = .error .assertion := by
  unfold check
  split
  . exact .inl rfl
  . exact .inr rfl

theorem check_ne_undefined (cfg : Config) (cond : Bool) : check cfg cond ≠ .error .undefined := by
  rcases check_cases cfg cond with h | h <;> simp [h]

theorem check_eq_ok {cfg : Config} {u : Unit} (h : check cfg cond = .ok u)
    : cfg.disableAsserts = true ∨ cond = true := by
  unfold check at h
  split at h
  . next hc => simpa using hc
  . cases h

namespace Except

variable {α β ε : Type} {x : Except ε α} {f : α → Except ε β} {r : β} {e : ε} {l : List α}

theorem bind_eq_ok (h : (x >>= f) = .ok r) : ∃ a, x = .ok a ∧ f a = .ok r := by
  cases x with
  | error e => cases h
  | ok a => exact ⟨a, rfl, h⟩

theorem map_eq_ok {f : α → β} (h : x.map f = .ok r) : ∃ a, x = .ok a ∧ f a = r := by
  cases x with
  | error e => cases h
  | ok a =>
    cases h
    exact ⟨a, rfl, rfl⟩

theorem pure_ne_error (a : α) (e : ε) : (pure a : Except ε α) ≠ .error e := by
  intro h
  cases h

theorem bind_ne_error (hx : x ≠ .error e) (hf : ∀ a, x = .ok a → f a ≠ .error e)
    : (x >>= f) ≠ .error e := by
  cases x with
  | error e' =>
    intro h
    cases h
    exact hx rfl
  | ok a => exact hf a rfl

@[simp]
theorem ok_bind (a : α) (f : α → Except ε β) : ((Except.ok a : Except ε α) >>= f) = f a := by
  rfl

@[simp]
theorem error_bind (e : ε) (f : α → Except ε β)
    : ((Except.error e : Except ε α) >>= f) = .error e := by
  rfl

theorem bind_congr {g : α → Except ε β} (h : ∀ a, x = .ok a → f a = g a) : (x >>= f) = x >>= g := by
  cases x with
  | error e => rfl
  | ok a => exact h a rfl

theorem map_bind {γ : Type} (x : Except ε α) (f : α → Except ε β) (g : β → γ)
    : (x >>= f).map g = x >>= fun a => (f a).map g := by
  cases x <;> rfl

theorem bind_eq_map {γ : Type} {x : Except ε α} {f : α → Except ε γ} {g : α → Except ε β} {k : β → γ}
    (h : ∀ a, f a = (g a).map k)
    : x >>= f = (x >>= g).map k := by
  rw [map_bind, funext h]

theorem foldlM_congr {f g : β → α → Except ε β} (h : ∀ s, ∀ x ∈ l, f s x = g s x) (s : β)
    : l.foldlM f s = l.foldlM g s := by
  induction l generalizing s with
  | nil => rfl
  | cons x l ih =>
    rw [List.foldlM_cons, List.foldlM_cons, h s x List.mem_cons_self]
    congr 1
    funext s'
    exact ih (fun s y hy => h s y (List.mem_cons_of_mem x hy)) s'

theorem foldlM_ne_error {f : β → α → Except ε β} (h : ∀ s, ∀ x ∈ l, f s x ≠ .error e) (s : β)
    : l.foldlM f s ≠ .error e := by
  induction l generalizing s with
  | nil => exact pure_ne_error s e
  | cons x l ih =>
    rw [List.foldlM_cons]
    apply bind_ne_error (h s x List.mem_cons_self)
    intro s' _
    exact ih (fun s y hy => h s y (List.mem_cons_of_mem x hy)) s'

theorem mapM_flatten {γ : Type} {f : α → Except ε (List β)} {g : β → γ} {q : α → List γ} {P : α → Prop}
    (hok : ∀ c ∈ l, P c → ∃ r, f c = .ok r ∧ r.map g = q c) (herror : ∀ c ∈ l, ¬ P c → f c = .error e)
    : ((∀ c ∈ l, P c) → ∃ r, l.mapM f = .ok r ∧ r.flatten.map g = l.flatMap q) ∧
        (¬ (∀ c ∈ l, P c) → l.mapM f = .error e) := by
  induction l with
  | nil => simp [pure, Except.pure]
  | cons c l ih =>
    rw [List.forall_mem_cons] at hok herror
    obtain ⟨ihok, iherror⟩ := ih hok.2 herror.2
    rw [List.mapM_cons, List.forall_mem_cons]
    by_cases hc : P c
    . obtain ⟨r, hr, hmap⟩ := hok.1 hc
      simp only [hr, ok_bind, hc, true_and]
      refine ⟨?_, ?_⟩
      . intro hl
        obtain ⟨rs, hrs, hmaps⟩ := ihok hl
        refine ⟨r :: rs, ?_, ?_⟩
        . rw [hrs]
          rfl
        . simp [hmap, hmaps]
      . intro hl
        rw [iherror hl]
        rfl
    . simp [herror.1 hc, hc]

end Except

theorem check_bind_ne_undefined {α : Type} {cfg : Config} {cond : Bool} {f : Unit → Except Fault α}
    (h : f () ≠ .error .undefined)
    : (check cfg cond >>= f) ≠ .error .undefined :=
  Except.bind_ne_error (check_ne_undefined cfg cond) fun _ _ => h

end Nyy
