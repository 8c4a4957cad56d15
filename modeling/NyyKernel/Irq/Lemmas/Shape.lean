import Mathlib.Tactic
import NyyKernel.Irq.Impl

namespace Nyy
namespace Irq

variable {δ κ : Type} {irql : Nat} {stack : List (Frame δ κ)}

def Levels : List Nat → Nat → Prop
  | [], _ => True
  | old :: saved, irql => old ≤ irql ∧ Levels saved old

def baseLevel : List Nat → Nat → Nat
  | [], irql => irql
  | old :: saved, _ => baseLevel saved old

theorem Levels.baseLevel_le {saved : List Nat} (h : Levels saved irql)
    : baseLevel saved irql ≤ irql := by
  induction saved generalizing irql with
  | nil => exact Nat.le_refl irql
  | cons old saved ih =>
    obtain ⟨hle, h⟩ := h
    have := ih h
    simp only [baseLevel]
    omega

namespace Frame

variable {f : Frame δ κ}

def At : Frame δ κ → Nat → Bool → Prop
  | .code saved, irql, ints => ints = true ∧ Levels saved irql
  | .irq number old .raise, irql, ints =>
    irql = old ∧ ints = false ∧ old < number >>> 4 ∧ 2 ≤ number >>> 4
  | .irq number old .sti, irql, ints =>
    irql = number >>> 4 ∧ ints = false ∧ old < number >>> 4 ∧ 2 ≤ number >>> 4
  | .irq number old .call, irql, ints =>
    irql = number >>> 4 ∧ ints = true ∧ old < number >>> 4 ∧ 2 ≤ number >>> 4
  | .irq number old .cli, irql, ints =>
    irql = number >>> 4 ∧ ints = true ∧ old < number >>> 4 ∧ 2 ≤ number >>> 4
  | .irq number old .lower, irql, ints =>
    irql = number >>> 4 ∧ ints = false ∧ old < number >>> 4 ∧ 2 ≤ number >>> 4
  | .irq _ old .iret, irql, ints => irql = old ∧ ints = false
  | .lower level .enter, irql, _ => level ≤ irql
  | .lower level .set, irql, _ => level ≤ irql
  | .lower level .test, irql, _ => irql = level
  | .lower level .ret, irql, _ => irql = level
  | .dispatch newirql _ .cli, irql, _ => newirql < 2 ∧ irql = newirql
  | .dispatch newirql _ .test, irql, ints => newirql < 2 ∧ newirql ≤ irql ∧ ints = false
  | .dispatch newirql _ .ack, irql, ints => newirql < 2 ∧ newirql ≤ irql ∧ ints = false
  | .dispatch newirql _ .raise, irql, ints => newirql < 2 ∧ newirql ≤ irql ∧ ints = false
  | .dispatch newirql _ .enable, irql, ints => newirql < 2 ∧ irql = 2 ∧ ints = false
  | .dispatch newirql _ .run, irql, ints => newirql < 2 ∧ irql = 2 ∧ ints = true
  | .dispatch newirql _ .disable, irql, ints => newirql < 2 ∧ irql = 2 ∧ ints = true
  | .dispatch newirql _ .set, irql, ints => newirql < 2 ∧ newirql ≤ irql ∧ ints = false
  | .dispatch newirql _ .restore, irql, ints => newirql < 2 ∧ irql = newirql ∧ ints = false
  | .runQueue, irql, ints => irql = 2 ∧ ints = true
  | .runCall _ _ _, irql, ints => irql = 2 ∧ ints = true

def resume : Frame δ κ → Nat → Bool → Nat × Bool
  | .code saved, irql, _ => (baseLevel saved irql, true)
  | .irq _ old _, _, _ => (old, true)
  | .lower level _, _, ints => (level, ints)
  | .dispatch newirql _ .cli, _, ints => (newirql, ints)
  | .dispatch newirql old _, _, _ => (newirql, old)
  | .runQueue, _, _ => (2, true)
  | .runCall _ _ _, _, _ => (2, true)

def waitsForCode : Frame δ κ → Prop
  | .irq _ _ .cli => True
  | .runQueue => True
  | _ => False

def waitsForLower : Frame δ κ → Prop
  | .code _ => True
  | .irq _ _ .iret => True
  | _ => False

def waitsForDispatch : Frame δ κ → Prop
  | .lower _ .ret => True
  | _ => False

def waitsForRun : Frame δ κ → Prop
  | .dispatch _ _ .disable => True
  | _ => False

def Above : Frame δ κ → Frame δ κ → Prop
  | .irq _ _ _, _ => True
  | .code _, b => b.waitsForCode
  | .lower _ _, b => b.waitsForLower
  | .dispatch _ _ _, b => b.waitsForDispatch
  | .runQueue, b => b.waitsForRun
  | .runCall _ _ _, b => b.waitsForRun

def drains : Frame δ κ → Bool
  | .dispatch _ _ .raise => true
  | .dispatch _ _ .enable => true
  | .dispatch _ _ .run => true
  | .runQueue => true
  | .runCall _ _ _ => true
  | _ => false

def Settled : Frame δ κ → Nat → Prop
  | .code _, irql => irql < 2
  | .irq _ old .iret, _ => old < 2
  | .lower level .ret, _ => level < 2
  | .dispatch _ _ .set, _ => True
  | .dispatch _ _ .restore, _ => True
  | _, _ => False

def taken : Frame δ κ → List (δ × κ × κ)
  | .runCall dpc context1 context2 => [(dpc, context1, context2)]
  | _ => []

theorem At.resume_le {irql : Nat} {ints : Bool} (h : f.At irql ints)
    : (f.resume irql ints).1 ≤ irql := by
  cases f with
  | code saved => exact h.2.baseLevel_le
  | irq number old pc => cases pc <;> simp only [At, resume] at * <;> omega
  | lower level pc => cases pc <;> simp only [At, resume] at * <;> omega
  | dispatch newirql old pc => cases pc <;> simp only [At, resume] at * <;> omega
  | runQueue => simp only [At, resume] at *; omega
  | runCall dpc context1 context2 => simp only [At, resume] at *; omega

theorem taken_of_not_drains (h : f.drains = false) : f.taken = [] := by
  cases f with
  | runCall dpc context1 context2 => cases h
  | _ => rfl

end Frame

def Shape : List (Frame δ κ) → Nat → Bool → Prop
  | [], _, _ => False
  | [f], irql, ints => f.At irql ints ∧ f.isCode = true ∧ (f.resume irql ints).1 < 2
  | f :: g :: rest, irql, ints =>
    f.At irql ints ∧ f.Above g ∧ Shape (g :: rest) (f.resume irql ints).1 (f.resume irql ints).2

namespace Shape

variable {f g u : Frame δ κ} {rest : List (Frame δ κ)} {irql irql' : Nat} {ints ints' : Bool}

theorem at_top (h : Shape (f :: rest) irql ints) : f.At irql ints := by
  cases rest with
  | nil => exact h.1
  | cons g rest => exact h.1

theorem above (h : Shape (f :: g :: rest) irql ints) : f.Above g :=
  h.2.1

theorem pop (h : Shape (f :: g :: rest) irql ints)
    : Shape (g :: rest) (f.resume irql ints).1 (f.resume irql ints).2 :=
  h.2.2

theorem ne_nil_of_not_code (h : Shape (f :: rest) irql ints) (hf : f.isCode = false)
    : rest ≠ [] := by
  rintro rfl
  rw [h.2.1] at hf
  cases hf

theorem goto (h : Shape (f :: rest) irql ints) (hat : g.At irql' ints') (hcode : g.isCode = f.isCode)
    (hresume : g.resume irql' ints' = f.resume irql ints) (habove : g.Above = f.Above)
    : Shape (g :: rest) irql' ints' := by
  cases rest with
  | nil =>
    refine ⟨hat, ?_, ?_⟩
    . rw [hcode]
      exact h.2.1
    . rw [hresume]
      exact h.2.2
  | cons b rest =>
    refine ⟨hat, habove ▸ h.2.1, ?_⟩
    rw [hresume]
    exact h.2.2

theorem push (h : Shape (f :: rest) (u.resume irql ints).1 (u.resume irql ints).2) (hat : u.At irql ints)
    (habove : u.Above f)
    : Shape (u :: f :: rest) irql ints :=
  ⟨hat, habove, h⟩

theorem resume_of_drains (h : Shape (f :: rest) irql ints) (hd : ∃ g ∈ rest, g.drains = true)
    : 2 ≤ (f.resume irql ints).1 := by
  induction rest generalizing f irql ints with
  | nil =>
    obtain ⟨g, hg, _⟩ := hd
    cases hg
  | cons g rest ih =>
    have hpop := h.pop
    have hat := hpop.at_top
    by_cases hg : g.drains = true
    . -- the call below runs the queue, so its level is that of DPCs; before the level is raised
      -- interrupts are disabled and it calls nothing
      cases g with
      | runQueue => exact Nat.le_of_eq hat.1.symm
      | runCall dpc context1 context2 => exact Nat.le_of_eq hat.1.symm
      | dispatch newirql old pc =>
        cases pc with
        | run => exact Nat.le_of_eq hat.2.1.symm
        | enable => exact Nat.le_of_eq hat.2.1.symm
        | raise =>
          have habove := h.above
          cases f with
          | irq number old' pc => cases hat.2.2
          | _ => exact habove.elim
        | _ => cases hg
      | _ => cases hg
    . have hrest : ∃ b ∈ rest, b.drains = true := by
        obtain ⟨b, hb, hbd⟩ := hd
        cases hb with
        | head => exact absurd hbd hg
        | tail _ hb => exact ⟨b, hb, hbd⟩
      have := ih hpop hrest
      have := hat.resume_le
      omega

theorem not_drains_of_resume (h : Shape (f :: rest) irql ints) (hlt : (f.resume irql ints).1 < 2)
    : ∀ g ∈ rest, g.drains = false := by
  intro g hg
  by_contra hne
  have := h.resume_of_drains ⟨g, hg, by simpa using hne⟩
  omega

theorem not_drains_of_runs (h : Shape (f :: rest) irql ints)
    (hf : f = .runQueue ∨ ∃ dpc context1 context2, f = .runCall dpc context1 context2)
    : ∀ g ∈ rest, g.drains = false := by
  cases rest with
  | nil =>
    intro g hg
    cases hg
  | cons b rest =>
    have habove := h.above
    have hpop := h.pop
    have hwaits : b.waitsForRun := by
      rcases hf with rfl | ⟨dpc, context1, context2, rfl⟩
      . exact habove
      . exact habove
    have hb : ∃ newirql old, b = .dispatch newirql old .disable := by
      cases b with
      | dispatch newirql old pc =>
        cases pc with
        | disable => exact ⟨newirql, old, rfl⟩
        | _ => exact hwaits.elim
      | _ => exact hwaits.elim
    obtain ⟨newirql, old, rfl⟩ := hb
    have hrest := hpop.not_drains_of_resume hpop.at_top.1
    intro g hg
    cases hg with
    | head => rfl
    | tail _ hg => exact hrest g hg

end Shape

def inflight (stack : List (Frame δ κ)) : List (δ × κ × κ) := stack.flatMap Frame.taken

theorem inflight_of_not_drains (h : ∀ f ∈ stack, f.drains = false) : inflight stack = [] := by
  unfold inflight
  rw [List.flatMap_eq_nil_iff]
  intro f hf
  exact Frame.taken_of_not_drains (h f hf)

theorem Shape.inflight_length {ints : Bool} (h : Shape stack irql ints)
    : (inflight stack).length ≤ 1 := by
  induction stack generalizing irql ints with
  | nil => exact h.elim
  | cons f rest ih =>
    cases rest with
    | nil =>
      have hcode := h.2.1
      cases f with
      | code saved => exact Nat.zero_le 1
      | _ => cases hcode
    | cons g rest =>
      change (f.taken ++ inflight (g :: rest)).length ≤ 1
      cases f with
      | runCall dpc context1 context2 =>
        have hrest := h.not_drains_of_runs (Or.inr ⟨dpc, context1, context2, rfl⟩)
        rw [inflight_of_not_drains hrest]
        exact Nat.le_refl 1
      | _ => exact ih h.pop

end Irq
end Nyy
