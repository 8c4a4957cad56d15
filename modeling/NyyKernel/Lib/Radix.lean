import Mathlib.Tactic

/-!
This module contains trees of tables that are kept in a memory.
-/

namespace Nyy
namespace Radix

variable {α ι ω : Type}

def descend (next : ω → Option α) (mem : α → ι → ω) (root : α) : List ι → Option α
  | [] => some root
  | i :: path =>
    match next (mem root i) with
    | none => none
    | some table => descend next mem table path

def find (next : ω → Option α) (mem : α → ι → ω) (root : α) (kind : ω → Bool) (path : List ι) (i : ι)
    : Option ω :=
  ((descend next mem root path).map (fun table => mem table i)).filter kind

section

variable {next : ω → Option α} {mem mem' : α → ι → ω} {root table : α} {p : List ι} {kind : ω → Bool}

@[simp]
theorem descend_nil : descend next mem root [] = some root := by
  rfl

theorem descend_append (p q : List ι)
    : descend next mem root (p ++ q)
        =
      (descend next mem root p).bind (fun table => descend next mem table q) := by
  induction p generalizing root with
  | nil => rfl
  | cons i p ih =>
    simp only [List.cons_append, descend]
    cases next (mem root i) with
    | none => rfl
    | some table => exact ih

theorem descend_snoc (p : List ι) (i : ι)
    : descend next mem root (p ++ [i])
        =
      (descend next mem root p).bind (fun table => next (mem table i)) := by
  rw [descend_append]
  congr 1
  funext table
  simp only [descend]
  cases next (mem table i) <;> rfl

theorem descend_snoc_of (i : ι) (h : descend next mem root p = some table)
    : descend next mem root (p ++ [i]) = next (mem table i) := by
  rw [descend_snoc, h]
  rfl

theorem find_of (i : ι) (h : descend next mem root p = some table)
    : find next mem root kind p i = (some (mem table i)).filter kind := by
  unfold find
  rw [h]
  rfl

theorem find_none (i : ι) (h : descend next mem root p = none)
    : find next mem root kind p i = none := by
  unfold find
  rw [h]
  rfl

theorem descend_congr {q : List ι}
    (h : ∀ p j, p ++ [j] <+: q → ∀ table, descend next mem root p = some table
      → next (mem' table j) = next (mem table j))
    : descend next mem' root q = descend next mem root q := by
  induction q using List.reverseRecOn with
  | nil => rfl
  | append_singleton q j ih =>
    have hq : descend next mem' root q = descend next mem root q := by
      apply ih
      intro p i hp
      exact h p i (hp.trans (List.prefix_append q [j]))
    rw [descend_snoc, descend_snoc, hq]
    cases hd : descend next mem root q with
    | none => rfl
    | some table => exact h q j (List.prefix_refl _) table hd

end

def Tree (next : ω → Option α) (mem : α → ι → ω) (root : α) (depth : Nat) : Prop :=
  ∀ p q table, p.length ≤ depth → q.length ≤ depth → descend next mem root p = some table
    → descend next mem root q = some table → p = q

section

variable [DecidableEq α] [DecidableEq ι]

def write (mem : α → ι → ω) (table : α) (i : ι) (word : ω) : α → ι → ω :=
  fun t j => if t = table ∧ j = i then word else mem t j

def clear (mem : α → ι → ω) (table : α) (word : ω) : α → ι → ω :=
  fun t j => if t = table then word else mem t j

variable {next : ω → Option α} {mem : α → ι → ω} {root table b : α} {depth : Nat} {t q : List ι} {i j : ι}
  {word : ω}

omit [DecidableEq α] [DecidableEq ι] in
theorem tree_of_blank (h : ∀ j, next (mem root j) = none) : Tree next mem root depth := by
  have hroot : ∀ p b, descend next mem root p = some b → p = [] := by
    intro p b hp
    cases p with
    | nil => rfl
    | cons j p =>
      simp only [descend, h j] at hp
      cases hp
  intro p q b _ _ hp hq
  rw [hroot p b hp, hroot q b hq]

section

variable (htree : Tree next mem root depth) (ht : descend next mem root t = some table)
  (hlen : t.length ≤ depth)

include htree ht hlen

theorem descend_write_off_path (hq : q.length ≤ depth) (hnot : ¬ t ++ [i] <+: q)
    : descend next (write mem table i word) root q = descend next mem root q := by
  apply descend_congr
  intro p j hp b hb
  unfold write
  rw [if_neg]
  rintro ⟨rfl, rfl⟩
  have hplen := hp.length_le
  simp at hplen
  have : p = t := htree p t b (by omega) hlen hb ht
  exact hnot (this ▸ hp)

theorem descend_cut (hnext : t.length < depth → next word = none) (hq : q.length ≤ depth)
    (hb : descend next (write mem table i word) root q = some b)
    : ¬ t ++ [i] <+: q ∧ descend next mem root q = some b := by
  have hnot : ¬ t ++ [i] <+: q := by
    rintro ⟨r, rfl⟩
    simp at hq
    have htable : descend next (write mem table i word) root t = some table := by
      rw [descend_write_off_path htree ht hlen hlen]
      . exact ht
      . intro hpre
        have := hpre.length_le
        simp at this
    rw [descend_append, descend_snoc_of i htable] at hb
    unfold write at hb
    rw [if_pos ⟨rfl, rfl⟩, hnext (by omega)] at hb
    cases hb
  rw [descend_write_off_path htree ht hlen hq hnot] at hb
  exact ⟨hnot, hb⟩

theorem Tree.cut (hnext : t.length < depth → next word = none)
    : Tree next (Radix.write mem table i word) root depth := by
  intro p q b hp hq hpb hqb
  exact htree p q b hp hq (descend_cut htree ht hlen hnext hp hpb).2
    (descend_cut htree ht hlen hnext hq hqb).2

theorem find_write_off_path (kind : ω → Bool) (hq : q.length ≤ depth) (hnot : ¬ t ++ [i] <+: q ++ [j])
    : find next (write mem table i word) root kind q j = find next mem root kind q j := by
  have hnotq : ¬ t ++ [i] <+: q := fun h => hnot (h.trans (List.prefix_append _ _))
  have hd : descend next (write mem table i word) root q = descend next mem root q :=
    descend_write_off_path htree ht hlen hq hnotq
  cases hb : descend next mem root q with
  | none => rw [find_none j hb, find_none j (hd.trans hb)]
  | some b =>
    rw [find_of j hb, find_of j (hd.trans hb)]
    unfold write
    rw [if_neg]
    rintro ⟨rfl, rfl⟩
    have : q = t := htree q t b hq hlen hb ht
    exact hnot (this ▸ List.prefix_refl _)

end

/-!
A table that is not in the tree is cleared and hung below a word that referred to nothing.
-/

def link (mem : α → ι → ω) (table : α) (i : ι) (fresh : α) (blank word : ω) : α → ι → ω :=
  write (clear mem fresh blank) table i word

variable {fresh : α} {blank : ω}

theorem link_self (mem : α → ι → ω) (table : α) (i : ι) (fresh : α) (blank word : ω)
    : link mem table i fresh blank word table i = word := by
  simp [link, write]

theorem link_fresh (mem : α → ι → ω) (i : ι) (blank word : ω) (hne : fresh ≠ table) (j : ι)
    : link mem table i fresh blank word fresh j = blank := by
  simp [link, write, clear, hne]

theorem link_of_ne (mem : α → ι → ω) (blank word : ω) (hb : b ≠ fresh) (h : ¬ (b = table ∧ j = i))
    : link mem table i fresh blank word b j = mem b j := by
  simp only [link, write, clear, if_neg h, if_neg hb]

structure Linkable (next : ω → Option α) (mem : α → ι → ω) (root : α) (depth : Nat) (t : List ι) (table : α)
    (i : ι) (fresh : α) (blank word : ω) : Prop where
  tree : Tree next mem root depth
  at_table : descend next mem root t = some table
  len : t.length < depth
  empty : next (mem table i) = none
  apart : ∀ p, p.length ≤ depth → descend next mem root p ≠ some fresh
  next_blank : next blank = none
  next_word : next word = some fresh

namespace Linkable

section

variable (h : Linkable next mem root depth t table i fresh blank word)

include h

omit [DecidableEq α] [DecidableEq ι] in
theorem fresh_ne : fresh ≠ table := by
  rintro rfl
  exact h.apart t (by have := h.len; omega) h.at_table

theorem descend_link (hq : q.length ≤ depth)
    : descend next (link mem table i fresh blank word) root q
        =
      if q = t ++ [i] then some fresh else descend next mem root q := by
  induction q using List.reverseRecOn with
  | nil => simp
  | append_singleton p j ih =>
    have hlen : p.length < depth := by
      simp at hq
      omega
    rw [descend_snoc, ih (by omega)]
    by_cases hp : p = t ++ [i]
    . -- the path goes on in the new table, which refers to nothing, before there was no table
      subst hp
      have hnot : descend next mem root (t ++ [i] ++ [j]) = none := by
        rw [descend_snoc, descend_snoc_of i h.at_table, h.empty]
        rfl
      rw [if_pos rfl, if_neg (by simp), hnot]
      simp only [Option.bind_some]
      rw [link_fresh mem i blank word h.fresh_ne j, h.next_blank]
    . rw [if_neg hp]
      cases hd : descend next mem root p with
      | none =>
        have hpt : p ≠ t := by
          rintro rfl
          rw [h.at_table] at hd
          cases hd
        rw [if_neg (by simp [hpt]), descend_snoc, hd]
        rfl
      | some b =>
        have hb : b ≠ fresh := by
          rintro rfl
          exact h.apart p (by omega) hd
        simp only [Option.bind_some]
        by_cases hslot : b = table ∧ j = i
        . obtain ⟨rfl, rfl⟩ := hslot
          have : p = t := h.tree p t b (by omega) (by have := h.len; omega) hd h.at_table
          rw [if_pos (by rw [this]), link_self, h.next_word]
        . rw [link_of_ne mem blank word hb hslot, if_neg, descend_snoc_of j hd]
          intro heq
          obtain ⟨rfl, hj⟩ := List.append_inj' heq rfl
          rw [h.at_table] at hd
          refine hslot ⟨(Option.some.inj hd).symm, ?_⟩
          simpa using hj

theorem tree_link : Tree next (link mem table i fresh blank word) root depth := by
  intro p q b hp hq hpb hqb
  rw [h.descend_link hp] at hpb
  rw [h.descend_link hq] at hqb
  split at hpb
  . next hpt =>
    split at hqb
    . next hqt => rw [hpt, hqt]
    . rw [← hpb] at hqb
      exact absurd hqb (h.apart q hq)
  . split at hqb
    . rw [← hqb] at hpb
      exact absurd hpb (h.apart p hp)
    . exact h.tree p q b hp hq hpb hqb

theorem find_link (kind : ω → Bool) (hblank : kind blank = false) (hq : q.length ≤ depth)
    (hkind : q = t → kind word = false ∧ kind (mem table i) = false) (j : ι)
    : find next (link mem table i fresh blank word) root kind q j
        =
      find next mem root kind q j := by
  have hd' := h.descend_link hq
  split at hd'
  . next hqt =>
    rw [find_of j hd', link_fresh mem i blank word h.fresh_ne j, find_none j]
    . simp [hblank]
    . rw [hqt, descend_snoc_of i h.at_table]
      exact h.empty
  . cases hd : descend next mem root q with
    | none =>
      rw [hd] at hd'
      rw [find_none j hd, find_none j hd']
    | some b =>
      rw [hd] at hd'
      rw [find_of j hd, find_of j hd']
      have hb : b ≠ fresh := by
        rintro rfl
        exact h.apart q hq hd
      by_cases hslot : b = table ∧ j = i
      . obtain ⟨rfl, rfl⟩ := hslot
        have hqt : q = t := h.tree q t b hq (by have := h.len; omega) hd h.at_table
        obtain ⟨hword, hold⟩ := hkind hqt
        rw [link_self]
        rw [Option.filter_some_neg hword, Option.filter_some_neg hold]
      . rw [link_of_ne mem blank word hb hslot]

end

end Linkable

end

end Radix
end Nyy
