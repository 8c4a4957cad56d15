import Mathlib.Tactic

/-!
This module contains tail queues in the manner of `sys/queue.h`.
-/

namespace Nyy
namespace Tailq

inductive Slot (η θ : Type) where
  | head (h : η)
  | elem (t : θ)
  deriving DecidableEq, Repr

structure Links (η θ : Type) where
  first : η → Option θ
  last : η → Slot η θ
  next : θ → Option θ
  prev : θ → Slot η θ

variable {η θ : Type}

namespace Links

variable {l : Links η θ} {s e : Slot η θ} {ts : List θ} {t : θ} {h : η}

def Empty (l : Links η θ) : Prop := ∀ h, l.first h = none ∧ l.last h = .head h

def load (l : Links η θ) : Slot η θ → Option θ
  | .head h => l.first h
  | .elem t => l.next t

inductive On (l : Links η θ) (h : η) : θ → Prop where
  | first {t : θ} (ht : l.first h = some t) : On l h t
  | next {t u : θ} (ht : On l h t) (hu : l.next t = some u) : On l h u

section

variable [DecidableEq η] [DecidableEq θ]

def store (l : Links η θ) (v : Option θ) : Slot η θ → Links η θ
  | .head h => { l with first := Function.update l.first h v }
  | .elem t => { l with next := Function.update l.next t v }

def insertTail (l : Links η θ) (h : η) (t : θ) : Links η θ :=
  let l := { l with next := Function.update l.next t none }
  let l := { l with prev := Function.update l.prev t (l.last h) }
  let l := l.store (some t) (l.last h)
  { l with last := Function.update l.last h (.elem t) }

def remove (l : Links η θ) (h : η) (t : θ) : Links η θ :=
  let l := match l.next t with
    | some u => { l with prev := Function.update l.prev u (l.prev t) }
    | none => { l with last := Function.update l.last h (l.prev t) }
  l.store (l.next t) (l.prev t)

@[simp]
theorem last_store (l : Links η θ) (v : Option θ) (s : Slot η θ) : (l.store v s).last = l.last := by
  cases s <;> rfl

@[simp]
theorem prev_store (l : Links η θ) (v : Option θ) (s : Slot η θ) : (l.store v s).prev = l.prev := by
  cases s <;> rfl

theorem load_store (l : Links η θ) (v : Option θ) (s s' : Slot η θ)
    : (l.store v s).load s' = if s' = s then v else l.load s' := by
  cases s <;> cases s' <;> simp [store, load, Function.update_apply]

theorem load_insertTail (l : Links η θ) (h : η) (t : θ) (s : Slot η θ)
    : (l.insertTail h t).load s =
        if s = l.last h then some t else if s = .elem t then none else l.load s := by
  have hlast : (l.insertTail h t).load s = ({ l with
      next := Function.update l.next t none
      prev := Function.update l.prev t (l.last h) }.store (some t) (l.last h)).load s := by
    cases s <;> rfl
  rw [hlast, load_store]
  congr 1
  cases s <;> simp [load, Function.update_apply]

theorem last_insertTail (l : Links η θ) (h : η) (t : θ)
    : (l.insertTail h t).last = Function.update l.last h (.elem t) := by
  simp [insertTail]

theorem prev_insertTail (l : Links η θ) (h : η) (t : θ)
    : (l.insertTail h t).prev = Function.update l.prev t (l.last h) := by
  simp [insertTail]

end

def Chain (l : Links η θ) : Slot η θ → List θ → Slot η θ → Prop
  | s, [], e => s = e
  | s, t :: ts, e => l.load s = some t ∧ l.prev t = s ∧ Chain l (.elem t) ts e

structure Queue (l : Links η θ) (h : η) (ts : List θ) : Prop where
  chain : Chain l (.head h) ts (l.last h)
  tail : l.load (l.last h) = none

theorem Chain.append (h : Chain l s ts e) (hload : l.load e = some t) (hprev : l.prev t = e)
    : Chain l s (ts ++ [t]) (.elem t) := by
  induction ts generalizing s with
  | nil =>
    rcases h with rfl
    exact ⟨hload, hprev, rfl⟩
  | cons u us ih => exact ⟨h.1, h.2.1, ih h.2.2⟩

theorem Chain.ends (h : Chain l s ts e) : e = s ∧ ts = [] ∨ ∃ t ∈ ts, e = .elem t := by
  induction ts generalizing s with
  | nil => exact .inl ⟨h.symm, rfl⟩
  | cons u us ih =>
    right
    rcases ih h.2.2 with ⟨he, -⟩ | ⟨t, ht, he⟩
    . exact ⟨u, List.mem_cons_self, he⟩
    . exact ⟨t, List.mem_cons_of_mem _ ht, he⟩

theorem Chain.frame {l' : Links η θ} (h : Chain l s ts e) (hs : ts ≠ [] → l'.load s = l.load s)
    (hprev : ∀ t ∈ ts, l'.prev t = l.prev t) (hload : ∀ t ∈ ts, .elem t ≠ e → l'.next t = l.next t)
    (hnodup : ts.Nodup)
    : Chain l' s ts e := by
  induction ts generalizing s with
  | nil => exact h
  | cons u us ih =>
    rcases h with ⟨h1, h2, h3⟩
    rw [List.nodup_cons] at hnodup
    refine ⟨(hs (by simp)).trans h1, (hprev u List.mem_cons_self).trans h2, ih h3 ?_ ?_ ?_ hnodup.2⟩
    . intro hne
      apply hload u List.mem_cons_self
      rintro rfl
      rcases h3.ends with ⟨-, hnil⟩ | ⟨t, ht, he⟩
      . exact hne hnil
      . cases he
        exact hnodup.1 ht
    . exact fun t ht => hprev t (List.mem_cons_of_mem _ ht)
    . exact fun t ht => hload t (List.mem_cons_of_mem _ ht)

theorem Queue.first (hq : Queue l h ts) : l.first h = ts.head? := by
  have hchain := hq.chain
  have htail := hq.tail
  cases ts with
  | nil =>
    rw [← show Slot.head h = l.last h from hchain] at htail
    exact htail
  | cons t ts => exact hchain.1

theorem Chain.next_mem (h : Chain l s ts e) (htail : l.load e = none) {u : θ} (ht : t ∈ ts)
    (hu : l.next t = some u)
    : u ∈ ts := by
  induction ts generalizing s with
  | nil => cases ht
  | cons v vs ih =>
    rcases h with ⟨h1, h2, h3⟩
    rcases List.mem_cons.mp ht with rfl | ht
    . cases vs with
      | nil =>
        rw [← show Slot.elem t = e from h3] at htail
        exact absurd (htail.symm.trans hu) (by simp)
      | cons w ws =>
        have hw : l.next t = some w := h3.1
        rw [hw] at hu
        cases hu
        simp
    . exact List.mem_cons_of_mem _ (ih h3 ht)

theorem Chain.on (hc : Chain l s ts e) (hs : ∀ t, l.load s = some t → On l h t) (ht : t ∈ ts)
    : On l h t := by
  induction ts generalizing s with
  | nil => cases ht
  | cons v vs ih =>
    rcases hc with ⟨h1, h2, h3⟩
    have hv := hs v h1
    rcases List.mem_cons.mp ht with rfl | ht
    . exact hv
    . exact ih h3 (fun u hu => .next hv hu) ht

theorem Chain.unique {us : List θ} (h : Chain l s ts e) (h' : Chain l s us e) (hend : l.load e = none)
    : ts = us := by
  induction ts generalizing s us with
  | nil =>
    cases us with
    | nil => rfl
    | cons u us =>
      rcases h with rfl
      rw [h'.1] at hend
      cases hend
  | cons t ts ih =>
    cases us with
    | nil =>
      rcases h' with rfl
      rw [h.1] at hend
      cases hend
    | cons u us =>
      cases h.1.symm.trans h'.1
      rw [ih h.2.2 h'.2.2]

theorem Queue.unique {us : List θ} (hq : Queue l h ts) (hq' : Queue l h us) : ts = us :=
  hq.chain.unique hq'.chain hq.tail

theorem Queue.on_iff (hq : Queue l h ts) (t : θ) : On l h t ↔ t ∈ ts := by
  constructor
  . intro hon
    induction hon with
    | first ht =>
      rw [hq.first] at ht
      exact List.mem_of_mem_head? ht
    | next _ hu ih => exact hq.chain.next_mem hq.tail ih hu
  . exact hq.chain.on fun t ht => .first ht

namespace Queue

variable {l : Links η θ} {h i : η} {ts : List θ} {t : θ}

theorem last_eq (hq : Queue l h ts) : l.last h = .head h ∧ ts = [] ∨ ∃ t ∈ ts, l.last h = .elem t :=
  hq.chain.ends

theorem last_ne_elem (hq : Queue l h ts) (ht : t ∉ ts) : .elem t ≠ l.last h := by
  intro he
  rcases hq.last_eq with ⟨hs, -⟩ | ⟨u, hu, hs⟩
  . rw [hs] at he
    cases he
  . rw [hs] at he
    cases he
    exact ht hu

theorem last_ne_head (hq : Queue l h ts) (hi : i ≠ h) : .head i ≠ l.last h := by
  intro he
  rcases hq.last_eq with ⟨hs, -⟩ | ⟨u, -, hs⟩
  . rw [hs] at he
    exact hi (Slot.head.inj he)
  . rw [hs] at he
    cases he

theorem head_ne_last (hq : Queue l h ts) (hne : ts ≠ []) : .head h ≠ l.last h := by
  intro he
  rcases hq.last_eq with ⟨-, hs⟩ | ⟨u, -, hs⟩
  . exact hne hs
  . rw [hs] at he
    cases he

variable [DecidableEq η] [DecidableEq θ] {us : List θ}

theorem insertTail (hq : Queue l h ts) (hnodup : ts.Nodup) (ht : t ∉ ts)
    : Queue (l.insertTail h t) h (ts ++ [t]) := by
  have hload := load_insertTail l h t
  have hlast : (l.insertTail h t).last h = .elem t := by
    rw [last_insertTail, Function.update_self]
  constructor
  . rw [hlast]
    apply Chain.append (e := l.last h)
    . apply hq.chain.frame _ _ _ hnodup
      . intro hne
        rw [hload, if_neg (hq.head_ne_last hne), if_neg (by simp)]
      . intro u hu
        rw [prev_insertTail, Function.update_of_ne (ne_of_mem_of_not_mem hu ht)]
      . intro u hu hne
        have hut : Slot.elem u ≠ (.elem t : Slot η θ) := by
          simpa using ne_of_mem_of_not_mem hu ht
        exact (hload (.elem u)).trans (by rw [if_neg hne, if_neg hut]; rfl)
    . rw [hload, if_pos rfl]
    . rw [prev_insertTail, Function.update_self]
  . rw [hlast, hload, if_neg (hq.last_ne_elem ht), if_pos rfl]

theorem insertTail_other (hi : Queue l i us) (hq : Queue l h ts) (hnodup : us.Nodup) (hne : i ≠ h)
    (hdisj : ∀ u ∈ us, u ∉ ts) (ht : t ∉ us)
    : Queue (l.insertTail h t) i us := by
  have hload := load_insertTail l h t
  have hlast : (l.insertTail h t).last i = l.last i := by
    rw [last_insertTail, Function.update_of_ne hne]
  constructor
  . rw [hlast]
    apply hi.chain.frame _ _ _ hnodup
    . intro _
      rw [hload, if_neg (hq.last_ne_head hne), if_neg (by simp)]
    . intro u hu
      rw [prev_insertTail, Function.update_of_ne (ne_of_mem_of_not_mem hu ht)]
    . intro u hu _
      have hut : Slot.elem u ≠ (.elem t : Slot η θ) := by
        simpa using ne_of_mem_of_not_mem hu ht
      exact (hload (.elem u)).trans (by rw [if_neg (hq.last_ne_elem (hdisj u hu)), if_neg hut]; rfl)
  . have hapart : l.last i ≠ l.last h := by
      rcases hi.last_eq with ⟨hs, -⟩ | ⟨u, hu, hs⟩
      . rw [hs]
        exact hq.last_ne_head hne
      . rw [hs]
        exact hq.last_ne_elem (hdisj u hu)
    rw [hlast, hload, if_neg hapart, if_neg (hi.last_ne_elem ht).symm]
    exact hi.tail

theorem remove_singleton (hq : Queue l h [t])
    : l.remove h t = { l with
        first := Function.update l.first h none
        last := Function.update l.last h (.head h) } := by
  have hprev : l.prev t = .head h := hq.chain.2.1
  have hnext : l.next t = none := by
    have htail := hq.tail
    rwa [← show Slot.elem t = l.last h from hq.chain.2.2] at htail
  simp [Links.remove, hnext, hprev, store]

theorem remove_cons {u : θ} (hq : Queue l h (t :: u :: us)) (htu : t ≠ u)
    : l.remove h t = { l with
        first := Function.update l.first h (some u)
        prev := Function.update l.prev u (.head h) } := by
  have hprev : l.prev t = .head h := hq.chain.2.1
  have hnext : l.next t = some u := hq.chain.2.2.1
  simp [Links.remove, hnext, hprev, store, htu]

theorem remove (hq : Queue l h (t :: ts)) (hnodup : (t :: ts).Nodup)
    : Queue (l.remove h t) h ts := by
  cases ts with
  | nil =>
    rw [hq.remove_singleton]
    constructor
    . simp [Chain]
    . simp [load]
  | cons u us =>
    simp only [List.nodup_cons, List.mem_cons, not_or] at hnodup
    rw [hq.remove_cons hnodup.1.1]
    have hne := hq.head_ne_last (by simp)
    refine ⟨⟨?_, ?_, ?_⟩, ?_⟩
    . simp [load]
    . simp
    . apply hq.chain.2.2.2.2.frame _ _ _ hnodup.2.2
      . intro _
        rfl
      . intro v hv
        exact Function.update_of_ne (ne_of_mem_of_not_mem hv hnodup.2.1) _ _
      . intro v _ _
        rfl
    . rcases hq.last_eq with ⟨-, hs⟩ | ⟨v, -, hs⟩
      . cases hs
      . have htail := hq.tail
        rw [hs] at htail
        show Links.load _ (l.last h) = none
        rw [hs]
        exact htail

theorem remove_other (hi : Queue l i us) (hq : Queue l h (t :: ts)) (hnodup : us.Nodup)
    (htail : (t :: ts).Nodup) (hne : i ≠ h) (hdisj : ∀ u ∈ us, u ∉ t :: ts)
    : Queue (l.remove h t) i us := by
  have hload : (l.remove h t).load (.head i) = l.load (.head i) ∧
      (l.remove h t).next = l.next ∧ (l.remove h t).last i = l.last i ∧
      ∀ v ∈ us, (l.remove h t).prev v = l.prev v := by
    cases ts with
    | nil =>
      rw [hq.remove_singleton]
      simp [load, hne]
    | cons w ws =>
      rw [hq.remove_cons (by simp at htail; exact htail.1.1)]
      refine ⟨by simp [load, hne], rfl, rfl, ?_⟩
      intro v hv
      have hvw : v ≠ w := by
        rintro rfl
        exact hdisj v hv (by simp)
      exact Function.update_of_ne hvw _ _
  rcases hload with ⟨hhead, hnext, hlast, hprev⟩
  constructor
  . rw [hlast]
    apply hi.chain.frame _ hprev _ hnodup
    . exact fun _ => hhead
    . intro u _ _
      rw [hnext]
  . rw [hlast]
    refine Eq.trans ?_ hi.tail
    rcases hi.last_eq with ⟨hs, -⟩ | ⟨u, hu, hs⟩
    . rw [hs]
      exact hhead
    . rw [hs]
      exact congrFun hnext u

end Queue

end Links

structure Apart (q : η → List θ) : Prop where
  nodup : ∀ h, (q h).Nodup
  disjoint : ∀ h h', h ≠ h' → ∀ t ∈ q h, t ∉ q h'

namespace Apart

variable [DecidableEq η] {q : η → List θ} {t : θ}

theorem push (ha : Apart q) (ht : ∀ h, t ∉ q h) (h : η)
    : Apart (Function.update q h (q h ++ [t])) := by
  have hmem : ∀ i, ∀ u ∈ Function.update q h (q h ++ [t]) i, u ∈ q i ∨ i = h ∧ u = t := by
    intro i u hu
    by_cases hi : i = h
    . subst hi
      simpa using hu
    . rw [Function.update_of_ne hi] at hu
      exact .inl hu
  constructor
  . intro i
    by_cases hi : i = h
    . subst hi
      rw [Function.update_self, List.nodup_append]
      refine ⟨ha.nodup i, List.nodup_singleton t, ?_⟩
      rintro u hu v hv rfl
      rw [List.mem_singleton.mp hv] at hu
      exact ht i hu
    . rw [Function.update_of_ne hi]
      exact ha.nodup i
  . intro i j hij u hi hj
    rcases hmem i u hi with hi' | ⟨rfl, rfl⟩
    . rcases hmem j u hj with hj' | ⟨-, rfl⟩
      . exact ha.disjoint i j hij u hi' hj'
      . exact ht i hi'
    . rcases hmem j u hj with hj' | ⟨rfl, -⟩
      . exact ht j hj'
      . exact hij rfl

theorem pop (ha : Apart q) {h : η} {ts : List θ} (hq : q h = t :: ts)
    : Apart (Function.update q h ts) := by
  have hmem : ∀ i, ∀ u ∈ Function.update q h ts i, u ∈ q i := by
    intro i u hu
    by_cases hi : i = h
    . subst hi
      rw [Function.update_self] at hu
      rw [hq]
      exact List.mem_cons_of_mem t hu
    . rwa [Function.update_of_ne hi] at hu
  constructor
  . intro i
    by_cases hi : i = h
    . subst hi
      have hnodup := ha.nodup i
      rw [hq, List.nodup_cons] at hnodup
      rw [Function.update_self]
      exact hnodup.2
    . rw [Function.update_of_ne hi]
      exact ha.nodup i
  . intro i j hij u hi hj
    exact ha.disjoint i j hij u (hmem i u hi) (hmem j u hj)

end Apart

structure Rep (l : Links η θ) (q : η → List θ) : Prop where
  queue : ∀ h, l.Queue h (q h)
  apart : Apart q

namespace Rep

variable {l : Links η θ} {q : η → List θ}

theorem of_empty (h : l.Empty) : Rep l fun _ => [] := by
  constructor
  . intro i
    constructor
    . exact (h i).2.symm
    . rw [(h i).2]
      exact (h i).1
  . constructor
    . exact fun _ => List.nodup_nil
    . intro _ _ _ t ht
      cases ht

theorem unique {q' : η → List θ} (hr : Rep l q) (hr' : Rep l q') : q = q' := by
  funext h
  exact (hr.queue h).unique (hr'.queue h)

variable [DecidableEq η] [DecidableEq θ] {t : θ}

theorem insertTail (hr : Rep l q) (ht : ∀ h, t ∉ q h) (h : η)
    : Rep (l.insertTail h t) (Function.update q h (q h ++ [t])) := by
  refine ⟨?_, hr.apart.push ht h⟩
  intro i
  by_cases hi : i = h
  . subst hi
    rw [Function.update_self]
    exact (hr.queue i).insertTail (hr.apart.nodup i) (ht i)
  . rw [Function.update_of_ne hi]
    exact (hr.queue i).insertTail_other (hr.queue h) (hr.apart.nodup i) hi
      (hr.apart.disjoint i h hi) (ht i)

theorem remove (hr : Rep l q) {h : η} {ts : List θ} (hq : q h = t :: ts)
    : Rep (l.remove h t) (Function.update q h ts) := by
  refine ⟨?_, hr.apart.pop hq⟩
  have hqueue := hr.queue h
  have hnodup := hr.apart.nodup h
  rw [hq] at hqueue hnodup
  intro i
  by_cases hi : i = h
  . subst hi
    rw [Function.update_self]
    exact hqueue.remove hnodup
  . rw [Function.update_of_ne hi]
    apply (hr.queue i).remove_other hqueue (hr.apart.nodup i) hnodup hi
    rw [← hq]
    exact hr.apart.disjoint i h hi

end Rep
end Tailq
end Nyy
