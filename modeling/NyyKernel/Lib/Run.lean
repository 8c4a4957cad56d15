import Mathlib.Tactic

/-!
This module contains labelled transition systems and the induction rule for invariants.
-/

namespace Nyy

variable {σ ε : Type}

inductive Reach (init : σ → Prop) (step : σ → ε → σ → Prop) : σ → Prop where
  | start {s : σ} : init s → Reach init step s
  | next {s s' : σ} {e : ε} : Reach init step s → step s e s' → Reach init step s'

def Guarded (guard : σ → ε → Prop) (step : σ → ε → σ → Prop) : σ → ε → σ → Prop :=
  fun s e s' => guard s e ∧ step s e s'

theorem Reach.invariant {init : σ → Prop} {step : σ → ε → σ → Prop} {inv : σ → Prop}
    (hinit : ∀ s, init s → inv s) (hstep : ∀ s e s', inv s → step s e s' → inv s') {s : σ}
    (h : Reach init step s)
    : inv s := by
  induction h with
  | start h => exact hinit _ h
  | next _ h ih => exact hstep _ _ _ ih h

theorem Reach.unguarded {init : σ → Prop} {guard : σ → ε → Prop} {step : σ → ε → σ → Prop} {s : σ}
    (h : Reach init (Guarded guard step) s)
    : Reach init step s := by
  induction h with
  | start h => exact .start h
  | next _ h ih => exact ih.next h.2

theorem Reach.foldlM {φ : Type} {init : σ → Prop} {step : σ → ε → σ → Prop} {f : σ → ε → Except φ σ}
    {es : List ε} {s s' : σ} (hstep : ∀ s, ∀ e ∈ es, ∀ s', f s e = .ok s' → step s e s')
    (h : Reach init step s) (hrun : es.foldlM f s = .ok s')
    : Reach init step s' := by
  induction es generalizing s with
  | nil =>
    cases hrun
    exact h
  | cons e es ih =>
    rw [List.foldlM_cons] at hrun
    cases hf : f s e with
    | error fault =>
      rw [hf] at hrun
      cases hrun
    | ok s1 =>
      rw [hf] at hrun
      exact ih (fun s e he => hstep s e (List.mem_cons_of_mem _ he))
        (h.next (hstep s e List.mem_cons_self s1 hf)) hrun

inductive Trace (step : σ → ε → σ → Prop) : σ → List (ε × σ) → Prop where
  | nil {s : σ} : Trace step s []
  | cons {s s' : σ} {e : ε} {es : List (ε × σ)}
    : step s e s' → Trace step s' es → Trace step s ((e, s') :: es)

theorem Trace.simulate {step step' : σ → ε → σ → Prop} (inv : σ → Prop)
    (hstep : ∀ s e s', inv s → step s e s' → inv s' ∧ step' s e s') {s : σ} {es : List (ε × σ)}
    (h : Trace step s es) (hinv : inv s)
    : Trace step' s es := by
  induction h with
  | nil => exact .nil
  | cons h _ ih =>
    rcases hstep _ _ _ hinv h with ⟨hinv', h'⟩
    exact .cons h' (ih hinv')

end Nyy
