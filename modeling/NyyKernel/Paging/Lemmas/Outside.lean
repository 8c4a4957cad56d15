import NyyKernel.Paging.Lemmas.Map
import NyyKernel.Paging.Lemmas.Size

namespace Nyy
namespace Paging

open Radix (descend find)

structure Rights where
  write : Bool
  user : Bool
  execute : Bool
  deriving DecidableEq, Repr

namespace Rights

def full : Rights := ⟨true, true, true⟩

def and (a b : Rights) : Rights := ⟨a.write && b.write, a.user && b.user, a.execute && b.execute⟩

@[simp]
theorem and_full (a : Rights) : a.and full = a := by
  simp [Rights.and, full]

@[simp]
theorem full_and (a : Rights) : full.and a = a := by
  simp [Rights.and, full]

theorem and_assoc (a b c : Rights) : (a.and b).and c = a.and (b.and c) := by
  simp [Rights.and, Bool.and_assoc]

end Rights

def wordRights (entry : BitVec 64) : Rights :=
  ⟨entry.getLsbD 1, entry.getLsbD 2, !entry.getLsbD 63⟩

def tableRights (mem : PageMem) (t : Addr) : List (BitVec 9) → Rights
  | [] => .full
  | i :: path =>
    match tableBelow (mem t i) with
    | none => .full
    | some t' => (wordRights (mem t i)).and (tableRights mem t' path)

theorem wordRights_tableEntry {page : Addr} (h : page &&& pteAddress = page)
    : wordRights (tableEntry page) = .full := by
  have hpage : page.getLsbD 63 = false := by
    rw [← h, BitVec.getLsbD_and, getLsbD_pteAddress (by decide)]
    simp
  unfold wordRights tableEntry Rights.full
  simp only [BitVec.getLsbD_or, hpage]
  simp [ptePresent, pteUser, pteWrite]

variable {σ : Type} {pmAllocateN : PmAllocate σ} {Ok : σ → Prop} {used : σ → Set Addr}
  {mem mem' mem'' : PageMem} {cr3 v t : Addr} {size : PageSize} {m m' : Mmu σ} {s p : List (BitVec 9)}
  {j i : BitVec 9} {entry : BitVec 64}

def lastRights (mem : PageMem) (cr3 : Addr) (p : List (BitVec 9)) (j : BitVec 9)
    : Rights :=
  match descend tableBelow mem cr3 p with
  | none => .full
  | some t => if tableBelow (mem t j) = none then .full else wordRights (mem t j)

theorem lastRights_of (hp : descend tableBelow mem cr3 p = some t) (hj : tableBelow (mem t j) ≠ none)
    : lastRights mem cr3 p j = wordRights (mem t j) := by
  unfold lastRights
  rw [hp]
  exact if_neg hj

theorem lastRights_eq_full
    (h : ∀ t, descend tableBelow mem cr3 p = some t → tableBelow (mem t j) ≠ none
      → wordRights (mem t j) = .full)
    : lastRights mem cr3 p j = .full := by
  unfold lastRights
  split
  . rfl
  . next t ht =>
    split
    . rfl
    . next hj => exact h t ht hj

theorem tableRights_snoc (mem : PageMem) (cr3 : Addr) (p : List (BitVec 9)) (j : BitVec 9)
    : tableRights mem cr3 (p ++ [j]) = (tableRights mem cr3 p).and (lastRights mem cr3 p j) := by
  induction p generalizing cr3 with
  | nil =>
    simp only [List.nil_append, tableRights, lastRights, Radix.descend_nil]
    cases tableBelow (mem cr3 j) with
    | none => rfl
    | some t => simp
  | cons i p ih =>
    simp only [List.cons_append, tableRights, lastRights, descend]
    cases tableBelow (mem cr3 i) with
    | none => rfl
    | some t =>
      dsimp only
      rw [ih t, Rights.and_assoc]
      rfl

structure Outside (s : List (BitVec 9)) (mem mem' : PageMem) (cr3 : Addr)
    : Prop where
  kept : ∀ p t j, p.length ≤ 2 → ¬ s <+: p ++ [j] → descend tableBelow mem cr3 p = some t
    → tableBelow (mem t j) ≠ none → descend tableBelow mem' cr3 p = some t ∧ mem' t j = mem t j
  made : ∀ p t j, p.length ≤ 2 → descend tableBelow mem' cr3 p = some t
    → tableBelow (mem' t j) ≠ none
    → (descend tableBelow mem cr3 p = some t ∧ mem' t j = mem t j) ∨ wordRights (mem' t j) = .full
  large : ∀ q j, q.length ≤ 2 → ¬ s <+: q ++ [j]
    → find tableBelow mem' cr3 isLarge q j = find tableBelow mem cr3 isLarge q j
  small : ∀ q j, q.length = 3 → ¬ s <+: q ++ [j]
    → find tableBelow mem' cr3 present q j = find tableBelow mem cr3 present q j

namespace Outside

variable {q : List (BitVec 9)}

theorem refl : Outside s mem mem cr3 := by
  constructor
  . intro p t j _ _ hp _
    exact ⟨hp, rfl⟩
  . intro p t j _ hp _
    exact .inl ⟨hp, rfl⟩
  . intro q j _ _
    rfl
  . intro q j _ _
    rfl

theorem trans (h : Outside s mem mem' cr3) (h' : Outside s mem' mem'' cr3)
    : Outside s mem mem'' cr3 := by
  constructor
  . intro p t j hlen hs hp hj
    obtain ⟨hp', hword⟩ := h.kept p t j hlen hs hp hj
    obtain ⟨hp'', hword'⟩ := h'.kept p t j hlen hs hp' (by rw [hword]; exact hj)
    exact ⟨hp'', hword'.trans hword⟩
  . intro p t j hlen hp hj
    cases h'.made p t j hlen hp hj with
    | inl hold =>
      obtain ⟨hp', hword'⟩ := hold
      rw [hword'] at hj ⊢
      exact h.made p t j hlen hp' hj
    | inr hfull => exact .inr hfull
  . intro q j hlen hs
    rw [h'.large q j hlen hs, h.large q j hlen hs]
  . intro q j hlen hs
    rw [h'.small q j hlen hs, h.small q j hlen hs]

theorem mono {s' : List (BitVec 9)} (h : Outside s' mem mem' cr3) (hs : s <+: s')
    : Outside s mem mem' cr3 := by
  constructor
  . intro p t j hlen hnot
    exact h.kept p t j hlen (fun hpre => hnot (hs.trans hpre))
  . exact h.made
  . intro q j hlen hnot
    exact h.large q j hlen (fun hpre => hnot (hs.trans hpre))
  . intro q j hlen hnot
    exact h.small q j hlen (fun hpre => hnot (hs.trans hpre))

section

variable (h : Outside s mem mem' cr3)

include h

theorem hardwareWalk {w : Addr} (hw : ¬ s <+: slot PageSize.kib4.flags w)
    : hardwareWalk mem' cr3 w = hardwareWalk mem cr3 w := by
  have hnot : ∀ q, q <+: slot PageSize.kib4.flags w → ¬ s <+: q := fun q hq hs => hw (hs.trans hq)
  rw [hardwareWalk_eq, hardwareWalk_eq, h.large _ _ (by simp), h.large _ _ (by simp),
    h.small _ _ (by simp)]
  . exact hnot _ (List.prefix_refl _)
  . exact hnot _ (List.prefix_append _ [index w 0])
  . exact hnot _ (List.prefix_append _ [index w 1, index w 0])

theorem clear {path : List (BitVec 9)} (hlen : path.length ≤ 3) (hs : ¬ s <+: path)
    (hclear : Clear mem cr3 path)
    : Clear mem' cr3 path := by
  intro p i hp
  have := hp.length_le
  simp at this
  rw [h.large p i (by omega) (fun hpre => hs (hpre.trans hp))]
  exact hclear p i hp

theorem root (hs : 2 ≤ s.length) (hroot : ∀ i, isLarge (mem cr3 i) = false) (i : BitVec 9)
    : isLarge (mem' cr3 i) = false := by
  have hnot : ¬ s <+: [] ++ [i] := by
    intro hpre
    have := hpre.length_le
    simp at this
    omega
  have hlarge := h.large [] i (by simp) hnot
  rw [(find_isLarge_eq_none Radix.descend_nil).mpr (hroot i)] at hlarge
  exact (find_isLarge_eq_none Radix.descend_nil).mp hlarge

theorem descend_eq (hlen : q.length ≤ 3) (hs : ¬ s <+: q) {t : Addr}
    (hq : descend tableBelow mem cr3 q = some t)
    : descend tableBelow mem' cr3 q = some t := by
  induction q using List.reverseRecOn generalizing t with
  | nil => exact hq
  | append_singleton p j _ =>
    rw [List.length_append, List.length_singleton] at hlen
    rw [Radix.descend_snoc] at hq
    obtain ⟨t₁, hp, hj⟩ := Option.bind_eq_some_iff.mp hq
    obtain ⟨hp', hword⟩ := h.kept p t₁ j (by omega) hs hp (by rw [hj]; simp)
    rw [Radix.descend_snoc_of j hp', hword]
    exact hj

theorem lastRights (hlen : p.length ≤ 2) (hs : ¬ s <+: p ++ [j])
    : lastRights mem' cr3 p j = lastRights mem cr3 p j := by
  by_cases hold : ∃ t, descend tableBelow mem cr3 p = some t ∧ tableBelow (mem t j) ≠ none
  . obtain ⟨t, hp, hj⟩ := hold
    obtain ⟨hp', hword⟩ := h.kept p t j hlen hs hp hj
    rw [lastRights_of hp hj, lastRights_of hp' (by rw [hword]; exact hj), hword]
  . rw [lastRights_eq_full, lastRights_eq_full]
    . intro t hp hj
      exact absurd ⟨t, hp, hj⟩ hold
    . intro t hp' hj'
      cases h.made p t j hlen hp' hj' with
      | inl hsame =>
        obtain ⟨hp, hword⟩ := hsame
        rw [hword] at hj'
        exact absurd ⟨t, hp, hj'⟩ hold
      | inr hfull => exact hfull

theorem tableRights (hlen : q.length ≤ 3) (hs : ¬ s <+: q)
    : tableRights mem' cr3 q = tableRights mem cr3 q := by
  induction q using List.reverseRecOn with
  | nil => rfl
  | append_singleton p j ih =>
    rw [List.length_append, List.length_singleton] at hlen
    have hpre := ih (by omega) (fun hpre => hs (hpre.trans (List.prefix_append _ _)))
    rw [tableRights_snoc, tableRights_snoc, hpre, h.lastRights (by omega) hs]

end

end Outside

theorem outside_rel (hsrc : PageSource pmAllocateN Ok used) {flags : WalkFlags}
    : WalkRel pmAllocateN Ok used cr3 flags fun a b => Outside s a.mem b.mem cr3 := by
  refine ⟨fun _ => Outside.refl, Outside.trans, ?_⟩
  intro a b p table i r hok hsound hp hlen h
  cases pteNext_cases h with
  | there _ => exact Outside.refl
  | missing _ _ => exact Outside.refl
  | @made page pm hpres _ htake =>
    have hframe := hsrc.frame hok htake
    have hlink := linkable_of_taken hsrc hok hsound hp hlen hpres htake
    -- a word of a table that was there before is neither in the new table nor the one that is set
    have hword : ∀ {q t j}, q.length ≤ 3 → descend tableBelow a.mem cr3 q = some t
        → ¬ (t = table ∧ j = i)
        → Radix.link a.mem table i page 0 (tableEntry page) t j = a.mem t j := by
      intro q t j hq ht hne
      apply Radix.link_of_ne a.mem 0 (tableEntry page) _ hne
      rintro rfl
      exact hlink.apart q hq ht
    constructor
    . intro q t j hq _ ht hj
      have hne : ¬ (t = table ∧ j = i) := by
        rintro ⟨rfl, rfl⟩
        exact hj hlink.empty
      refine ⟨?_, hword (by omega) ht hne⟩
      rw [hlink.descend_link (by omega), if_neg]
      . exact ht
      . rintro rfl
        rw [Radix.descend_snoc_of i hp, hlink.empty] at ht
        cases ht
    . intro q t j hq ht hj
      rw [hlink.descend_link (by omega)] at ht
      dsimp only at hj ⊢
      split at ht
      . cases ht
        rw [Radix.link_fresh a.mem i 0 (tableEntry page) hlink.fresh_ne j, tableBelow_zero] at hj
        exact absurd rfl hj
      . by_cases hne : t = table ∧ j = i
        . obtain ⟨rfl, rfl⟩ := hne
          rw [Radix.link_self]
          exact .inr (wordRights_tableEntry hframe)
        . exact .inl ⟨ht, hword (by omega) ht hne⟩
    . intro q j hq _
      apply hlink.find_link isLarge isLarge_zero (by omega)
      intro _
      exact ⟨isLarge_tableEntry hframe, isLarge_of_not_present hpres⟩
    . intro q j hq _
      apply hlink.find_link present present_zero (by omega)
      rintro rfl
      omega

theorem outside_write (htree : Radix.Tree tableBelow mem cr3 3) (ht : descend tableBelow mem cr3 p = some t)
    (hlen : p.length ≤ 3) (hentry : p.length < 3 → tableBelow entry = none)
    : Outside (p ++ [i]) mem (Radix.write mem t i entry) cr3 := by
  constructor
  . intro q t' j hq hs hd hj
    constructor
    . rw [Radix.descend_write_off_path htree ht hlen (by omega)]
      . exact hd
      . exact fun hpre => hs (hpre.trans (List.prefix_append _ _))
    . unfold Radix.write
      rw [if_neg]
      rintro ⟨rfl, rfl⟩
      have heq := htree q p t' (by omega) hlen hd ht
      exact hs (heq ▸ List.prefix_refl _)
  . intro q t' j hq hd' hj
    have hd := (Radix.descend_cut htree ht hlen hentry (by omega) hd').2
    by_cases hne : t' = t ∧ j = i
    . obtain ⟨rfl, rfl⟩ := hne
      have heq := htree q p t' (by omega) hlen hd ht
      unfold Radix.write at hj
      rw [if_pos ⟨rfl, rfl⟩, hentry (by rw [← heq]; omega)] at hj
      exact absurd rfl hj
    . unfold Radix.write
      rw [if_neg hne]
      exact .inl ⟨hd, rfl⟩
  . intro q j hq hs
    exact Radix.find_write_off_path htree ht hlen isLarge (by omega) hs
  . intro q j hq hs
    exact Radix.find_write_off_path htree ht hlen present (by omega) hs

theorem slot_eq_append (flags : WalkFlags) (v : Addr)
    : slot flags v = slotPath flags v ++ [slotIndex flags v] := by
  rfl

theorem find_below_none {kind : BitVec 64 → Bool} {q : List (BitVec 9)} (hpq : p <+: q)
    (h : descend tableBelow mem cr3 p = none)
    : find tableBelow mem cr3 kind q j = none :=
  Radix.find_none j (descend_none_of_isPrefix hpq h)

theorem hardwareWalk_slot {t : Addr} (hclear : Clear mem cr3 (slotPath size.flags v))
    (ht : descend tableBelow mem cr3 (slotPath size.flags v) = some t)
    (hentry : size ≠ .kib4 → tableBelow (mem t (slotIndex size.flags v)) = none)
    : hardwareWalk mem cr3 v
        =
      if present (mem t (slotIndex size.flags v)) then
        some (size.leaf (mem t (slotIndex size.flags v)))
      else
        none := by
  rw [hardwareWalk_eq]
  generalize hword : mem t (slotIndex size.flags v) = entry at hentry ⊢
  -- below a word that refers to no table nothing is found, and such a word is large if it is present
  have hbelow : tableBelow entry = none → descend tableBelow mem cr3 (slot size.flags v) = none := by
    intro hnone
    rw [slot_eq_append, Radix.descend_snoc_of _ ht, hword]
    exact hnone
  have hlarge : tableBelow entry = none → isLarge entry = present entry := by
    intro hnone
    cases hpres : present entry with
    | false => exact isLarge_of_not_present hpres
    | true =>
      by_contra hne
      rw [tableBelow_of_present hpres (by simpa using hne)] at hnone
      cases hnone
  have hfind : ∀ kind, find tableBelow mem cr3 kind (slotPath size.flags v) (slotIndex size.flags v)
      = (some entry).filter kind := by
    intro kind
    rw [Radix.find_of _ ht, hword]
  cases size with
  | gib1 =>
    have hnone := hentry (by decide)
    have hb := hbelow hnone
    rw [slot_gib1] at hb
    have h2 := hfind isLarge
    change find tableBelow mem cr3 isLarge [index v 3] (index v 2) = _ at h2
    have hpre : [index v 3, index v 2] <+: [index v 3, index v 2, index v 1] :=
      List.prefix_append _ [index v 1]
    rw [h2, find_below_none (List.prefix_refl _) hb, find_below_none hpre hb, Option.filter_some,
      hlarge hnone]
    cases present entry <;> rfl
  | mib2 =>
    have hnone := hentry (by decide)
    have hb := hbelow hnone
    rw [slot_mib2] at hb
    have h1 := hfind isLarge
    change find tableBelow mem cr3 isLarge [index v 3, index v 2] (index v 1) = _ at h1
    have h2 : find tableBelow mem cr3 isLarge [index v 3] (index v 2) = none :=
      hclear _ _ (List.prefix_refl _)
    rw [h2, h1, find_below_none (List.prefix_refl _) hb, Option.filter_some, hlarge hnone]
    cases present entry <;> rfl
  | kib4 =>
    have h0 := hfind present
    change find tableBelow mem cr3 present [index v 3, index v 2, index v 1] (index v 0) = _ at h0
    have h2 : find tableBelow mem cr3 isLarge [index v 3] (index v 2) = none :=
      hclear _ _ (List.prefix_append [index v 3, index v 2] [index v 1])
    have h1 : find tableBelow mem cr3 isLarge [index v 3, index v 2] (index v 1) = none :=
      hclear _ _ (List.prefix_refl _)
    rw [h2, h1, h0, Option.filter_some]
    cases present entry <;> rfl

structure Placed (pmAllocateN : PmAllocate σ) (used : σ → Set Addr) (cr3 v : Addr) (size : PageSize)
    (m m' : Mmu σ) (leaf : Option Leaf) : Prop where
  taken : Relation.ReflTransGen (Takes pmAllocateN) m.pm m'.pm
  sound : Sound m'.mem cr3 (used m'.pm)
  outside : Outside (slot size.flags v) m.mem m'.mem cr3
  here : ∀ w, slot size.flags w = slot size.flags v → hardwareWalk m'.mem cr3 w = leaf

theorem slot_not_isPrefix (flags : WalkFlags) (v : Addr) : ¬ slot flags v <+: slotPath flags v := by
  intro h
  have := h.length_le
  rw [slot_eq_append, List.length_append, List.length_singleton] at this
  omega

theorem slotPath_lt_iff : (slotPath size.flags v).length < 3 ↔ size ≠ .kib4 := by
  cases size <;> simp [slotPath, PageSize.flags]

theorem placed_write {m₁ : Mmu σ} {t : Addr} {entry : BitVec 64}
    (htaken : Relation.ReflTransGen (Takes pmAllocateN) m.pm m₁.pm) (hsound : Sound m₁.mem cr3 (used m₁.pm))
    (hout : Outside (slot size.flags v) m.mem m₁.mem cr3) (hclear : Clear m.mem cr3 (slotPath size.flags v))
    (ht : descend tableBelow m₁.mem cr3 (slotPath size.flags v) = some t)
    (hentry : size ≠ .kib4 → tableBelow entry = none)
    : Placed pmAllocateN used cr3 v size m
        { m₁ with mem := Radix.write m₁.mem t (slotIndex size.flags v) entry }
        (if present entry then some (size.leaf entry) else none) := by
  have htree := hsound.tree
  have hlen := slotPath_length size.flags v
  have hnext : (slotPath size.flags v).length < 3 → tableBelow entry = none :=
    fun hlt => hentry (slotPath_lt_iff.mp hlt)
  have hwrite : Outside (slot size.flags v) m₁.mem
      (Radix.write m₁.mem t (slotIndex size.flags v) entry) cr3 :=
    outside_write htree ht hlen hnext
  have hout := hout.trans hwrite
  refine ⟨htaken, ⟨htree.cut ht hlen hnext, ?_⟩, hout, ?_⟩
  . intro p b hp hb
    exact hsound.inUse p b hp (Radix.descend_cut htree ht hlen hnext hp hb).2
  . intro w hw
    rw [slot_eq_append, slot_eq_append] at hw
    obtain ⟨hpath, hindex⟩ := List.append_inj' hw rfl
    have hindex : slotIndex size.flags w = slotIndex size.flags v := by simpa using hindex
    have hself : Radix.write m₁.mem t (slotIndex size.flags v) entry t (slotIndex size.flags w)
        = entry := by
      simp [Radix.write, hindex]
    have hd : descend tableBelow (Radix.write m₁.mem t (slotIndex size.flags v) entry) cr3
        (slotPath size.flags w) = some t := by
      rw [hpath]
      exact hwrite.descend_eq hlen (slot_not_isPrefix _ _) ht
    have := @hardwareWalk_slot (Radix.write m₁.mem t (slotIndex size.flags v) entry) cr3 w size t
    rw [hself] at this
    apply this
    . rw [hpath]
      exact hout.clear hlen (slot_not_isPrefix _ _) hclear
    . exact hd
    . exact hentry

theorem mapEntry_placed (hsrc : PageSource pmAllocateN Ok used) (hok : Ok m.pm)
    (hsound : Sound m.mem cr3 (used m.pm)) (hclear : Clear m.mem cr3 (slotPath size.flags v))
    (hentry : size ≠ .kib4 → tableBelow entry = none)
    (h : mapEntry pmAllocateN m cr3 v size.flags entry = .ok m')
    : Placed pmAllocateN used cr3 v size m m'
        (if present entry then some (size.leaf entry) else none) := by
  obtain ⟨m₁, t, hout, hw, ht, rfl⟩ :=
    (outside_rel (s := slot size.flags v) hsrc).mapEntry hsrc hok hsound hclear h
  exact placed_write hw.taken hw.sound hout hclear ht hentry

end Paging
end Nyy
