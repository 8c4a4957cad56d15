import Mathlib.Tactic
import Mathlib.Logic.Relation
import NyyKernel.Paging.Lemmas.Entry

namespace Nyy
namespace Paging

open Radix (descend find)

variable {σ : Type} {pmAllocateN : PmAllocate σ} {Ok : σ → Prop} {used : σ → Set Addr} {mem mem' : PageMem}
  {cr3 t v table : Addr} {p path q : List (BitVec 9)} {i : BitVec 9} {flags : WalkFlags} {m m' : Mmu σ}

def Takes (pmAllocateN : PmAllocate σ) (a a' : σ) : Prop :=
  ∃ page, pmAllocateN a = .ok (page, a')

structure PageSource (pmAllocateN : PmAllocate σ) (Ok : σ → Prop) (used : σ → Set Addr)
    : Prop where
  ok : ∀ {a page a'}, Ok a → pmAllocateN a = .ok (page, a') → Ok a'
  frame : ∀ {a page a'}, Ok a → pmAllocateN a = .ok (page, a') → page &&& pteAddress = page
  fresh : ∀ {a page a'}, Ok a → pmAllocateN a = .ok (page, a') → page ∉ used a
  used_eq : ∀ {a page a'}, Ok a → pmAllocateN a = .ok (page, a')
    → used a' = insert page (used a)

theorem PageSource.ok_of_taken (hsrc : PageSource pmAllocateN Ok used) {a a' : σ} (hok : Ok a)
    (h : Relation.ReflTransGen (Takes pmAllocateN) a a')
    : Ok a' := by
  induction h with
  | refl => exact hok
  | tail _ h ih =>
    obtain ⟨page, h⟩ := h
    exact hsrc.ok ih h

structure Sound (mem : PageMem) (cr3 : Addr) (inUse : Set Addr) : Prop where
  tree : Radix.Tree tableBelow mem cr3 3
  inUse : ∀ p t, p.length ≤ 3 → descend tableBelow mem cr3 p = some t → t ∈ inUse

structure Same (mem mem' : PageMem) (cr3 : Addr) : Prop where
  large : ∀ q j, q.length ≤ 2
    → find tableBelow mem' cr3 isLarge q j = find tableBelow mem cr3 isLarge q j
  small : ∀ q j, q.length = 3
    → find tableBelow mem' cr3 present q j = find tableBelow mem cr3 present q j

theorem Same.refl (mem : PageMem) (cr3 : Addr) : Same mem mem cr3 := by
  constructor
  . intro q j _
    rfl
  . intro q j _
    rfl

theorem Same.trans {mem'' : PageMem} (h : Same mem mem' cr3) (h' : Same mem' mem'' cr3)
    : Same mem mem'' cr3 := by
  constructor
  . intro q j hq
    rw [h'.large q j hq, h.large q j hq]
  . intro q j hq
    rw [h'.small q j hq, h.small q j hq]

theorem find_isLarge_eq_none (h : descend tableBelow mem cr3 p = some t)
    : find tableBelow mem cr3 isLarge p i = none ↔ isLarge (mem t i) = false := by
  rw [Radix.find_of i h]
  simp

theorem hardwareWalk_eq (mem : PageMem) (cr3 v : Addr)
    : hardwareWalk mem cr3 v
        =
      (((find tableBelow mem cr3 isLarge [index v 3] (index v 2)).map Leaf.page1G).or
        ((find tableBelow mem cr3 isLarge [index v 3, index v 2] (index v 1)).map Leaf.page2M)).or
        ((find tableBelow mem cr3 present [index v 3, index v 2, index v 1] (index v 0)).map
          Leaf.page4K) := by
  unfold hardwareWalk
  cases h3 : tableBelow (mem cr3 (index v 3)) with
  | none => simp [find, descend, h3]
  | some pml3 =>
    cases hl3 : isLarge (mem pml3 (index v 2)) with
    | true => simp [find, descend, Option.filter_some, h3, hl3]
    | false =>
      cases h2 : tableBelow (mem pml3 (index v 2)) with
      | none => simp [find, descend, Option.filter_some, h3, hl3, h2]
      | some pml2 =>
        cases hl2 : isLarge (mem pml2 (index v 1)) with
        | true => simp [find, descend, Option.filter_some, h3, hl3, h2, hl2]
        | false =>
          cases h1 : tableBelow (mem pml2 (index v 1)) with
          | none => simp [find, descend, Option.filter_some, h3, hl3, h2, hl2, h1]
          | some pml1 =>
            cases hp : present (mem pml1 (index v 0)) with
            | true => simp [find, descend, Option.filter_some, h3, hl3, h2, hl2, h1, hp]
            | false => simp [find, descend, Option.filter_some, h3, hl3, h2, hl2, h1, hp]

theorem Same.hardwareWalk (h : Same mem mem' cr3) (v : Addr)
    : hardwareWalk mem' cr3 v = hardwareWalk mem cr3 v := by
  rw [hardwareWalk_eq, hardwareWalk_eq, h.large _ _ (by simp), h.large _ _ (by simp),
    h.small _ _ (by simp)]

structure Walked (pmAllocateN : PmAllocate σ) (used : σ → Set Addr) (cr3 : Addr) (flags : WalkFlags)
    (path : List (BitVec 9)) (m m' : Mmu σ) : Prop where
  taken : Relation.ReflTransGen (Takes pmAllocateN) m.pm m'.pm
  sound : Sound m'.mem cr3 (used m'.pm)
  same : Same m.mem m'.mem cr3
  grown : ∀ q t, q.length ≤ 3 → descend tableBelow m'.mem cr3 q = some t
    → descend tableBelow m.mem cr3 q = some t ∨ q <+: path
  kept : flags.createNew = false → m' = m

theorem Walked.refl (h : Sound m.mem cr3 (used m.pm))
    : Walked pmAllocateN used cr3 flags path m m := by
  constructor
  . exact Relation.ReflTransGen.refl
  . exact h
  . exact Same.refl m.mem cr3
  . intro q t _ hq
    exact Or.inl hq
  . intro _
    rfl

theorem Walked.trans {m'' : Mmu σ} (h : Walked pmAllocateN used cr3 flags path m m')
    (h' : Walked pmAllocateN used cr3 flags path m' m'')
    : Walked pmAllocateN used cr3 flags path m m'' := by
  constructor
  . exact h.taken.trans h'.taken
  . exact h'.sound
  . exact h.same.trans h'.same
  . intro q t hlen hq
    cases h'.grown q t hlen hq with
    | inl hq' => exact h.grown q t hlen hq'
    | inr hq' => exact Or.inr hq'
  . intro hc
    rw [h'.kept hc, h.kept hc]

inductive NextCase (pmAllocateN : PmAllocate σ) (flags : WalkFlags) (m : Mmu σ) (table : Addr)
    (i : BitVec 9) : Option Addr → Mmu σ → Prop where
  | there : present (m.mem table i) = true
      → NextCase pmAllocateN flags m table i (some (m.mem table i &&& pteAddress)) m
  | missing : present (m.mem table i) = false → flags.createNew = false
      → NextCase pmAllocateN flags m table i none m
  | made {page : Addr} {pm : σ} : present (m.mem table i) = false → flags.createNew = true
      → pmAllocateN m.pm = .ok (page, pm) → NextCase pmAllocateN flags m table i (some page)
        ⟨Radix.link m.mem table i page 0 (tableEntry page), pm⟩

theorem pteNext_cases {r : Option Addr} (h : pteNext pmAllocateN m table i flags = .ok (r, m'))
    : NextCase pmAllocateN flags m table i r m' := by
  unfold pteNext at h
  split at h
  . next hpres =>
    cases h
    exact .there hpres
  . next hpres =>
    have hpres : present (m.mem table i) = false := by simpa using hpres
    split at h
    . next hc =>
      cases h
      exact .missing hpres (by simpa using hc)
    . next hc =>
      obtain ⟨⟨page, m₁⟩, halloc, h⟩ := Except.bind_eq_ok h
      cases h
      obtain ⟨⟨page', pm⟩, htake, heq⟩ := Except.bind_eq_ok halloc
      cases heq
      exact .made hpres (by simpa using hc) htake

section

variable (hsrc : PageSource pmAllocateN Ok used) (hok : Ok m.pm) (hsound : Sound m.mem cr3 (used m.pm))
  (hp : descend tableBelow m.mem cr3 p = some table) (hlen : p.length < 3)

include hsrc hok hsound hp hlen

theorem linkable_of_taken {page : Addr} {pm : σ} (hpres : present (m.mem table i) = false)
    (htake : pmAllocateN m.pm = .ok (page, pm))
    : Radix.Linkable tableBelow m.mem cr3 3 p table i page 0 (tableEntry page) := by
  constructor
  . exact hsound.tree
  . exact hp
  . exact hlen
  . exact tableBelow_of_not_present hpres
  . intro q hq hd
    exact hsrc.fresh hok htake (hsound.inUse q page hq hd)
  . exact tableBelow_zero
  . exact tableBelow_tableEntry (hsrc.frame hok htake)

theorem pteNext_spec {r : Option Addr} (hpath : p ++ [i] <+: path)
    (hlarge : isLarge (m.mem table i) = false) (h : pteNext pmAllocateN m table i flags = .ok (r, m'))
    : Walked pmAllocateN used cr3 flags path m m' ∧ descend tableBelow m'.mem cr3 (p ++ [i]) = r
        ∧ (r = none → flags.createNew = false) := by
  cases pteNext_cases h with
  | there hpres =>
    refine ⟨Walked.refl hsound, ?_, ?_⟩
    . rw [Radix.descend_snoc_of i hp]
      exact tableBelow_of_present hpres hlarge
    . intro hr
      cases hr
  | missing hpres hc =>
    refine ⟨Walked.refl hsound, ?_, fun _ => hc⟩
    rw [Radix.descend_snoc_of i hp]
    exact tableBelow_of_not_present hpres
  | @made page pm hpres hc htake =>
    have hframe := hsrc.frame hok htake
    have hlink := linkable_of_taken hsrc hok hsound hp hlen hpres htake
    refine ⟨⟨?_, ⟨?_, ?_⟩, ⟨?_, ?_⟩, ?_, ?_⟩, ?_, ?_⟩
    . exact Relation.ReflTransGen.single ⟨page, htake⟩
    . exact hlink.tree_link
    . intro q t hq hd
      rw [hlink.descend_link hq] at hd
      rw [hsrc.used_eq hok htake]
      split at hd
      . left
        exact (Option.some.inj hd).symm
      . right
        exact hsound.inUse q t hq hd
    . intro q j hq
      apply hlink.find_link isLarge isLarge_zero (by omega)
      intro _
      exact ⟨isLarge_tableEntry hframe, isLarge_of_not_present hpres⟩
    . intro q j hq
      apply hlink.find_link present present_zero (by omega)
      intro hqp
      rw [hqp] at hq
      omega
    . intro q t hq hd
      rw [hlink.descend_link hq] at hd
      split at hd
      . next hqp =>
        right
        rw [hqp]
        exact hpath
      . left
        exact hd
    . intro hc'
      rw [hc'] at hc
      cases hc
    . rw [hlink.descend_link (by simp; omega), if_pos rfl]
    . intro hr
      cases hr

end

def slotPath (flags : WalkFlags) (v : Addr) : List (BitVec 9) :=
  if flags.size1GB then
    [index v 3]
  else if flags.size2MB then
    [index v 3, index v 2]
  else
    [index v 3, index v 2, index v 1]

def slotIndex (flags : WalkFlags) (v : Addr) : BitVec 9 :=
  if flags.size1GB then index v 2 else if flags.size2MB then index v 1 else index v 0

def Clear (mem : PageMem) (cr3 : Addr) (path : List (BitVec 9)) : Prop :=
  ∀ p i, p ++ [i] <+: path → find tableBelow mem cr3 isLarge p i = none

theorem slotPath_length (flags : WalkFlags) (v : Addr) : (slotPath flags v).length ≤ 3 := by
  unfold slotPath
  split
  . simp
  . split
    . simp
    . simp

theorem descend_none_of_isPrefix (hpq : p <+: q) (h : descend tableBelow mem cr3 p = none)
    : descend tableBelow mem cr3 q = none := by
  obtain ⟨r, rfl⟩ := hpq
  rw [Radix.descend_append, h]
  rfl

structure Walk (pmAllocateN : PmAllocate σ) (used : σ → Set Addr) (cr3 v : Addr) (flags : WalkFlags)
    (m m' : Mmu σ) (r : Option (Addr × BitVec 9)) : Prop where
  walked : Walked pmAllocateN used cr3 flags (slotPath flags v) m m'
  slot : r = (descend tableBelow m'.mem cr3 (slotPath flags v)).map (·, slotIndex flags v)
  missing : r = none → flags.createNew = false

def walkPath (pmAllocateN : PmAllocate σ) (flags : WalkFlags)
    : Mmu σ → Addr → List (BitVec 9) → Except Fault (Option Addr × Mmu σ)
  | m, t, [] => .ok (some t, m)
  | m, t, i :: path => do
    match ← pteNext pmAllocateN m t i flags with
    | (none, m) => .ok (none, m)
    | (some t, m) => walkPath pmAllocateN flags m t path

theorem pteWalk_eq (pmAllocateN : PmAllocate σ) (m : Mmu σ) (cr3 v : Addr) (flags : WalkFlags)
    : pteWalk pmAllocateN m cr3 v flags =
        (walkPath pmAllocateN flags m cr3 (slotPath flags v)).map fun r =>
          (r.1.map (·, slotIndex flags v), r.2) := by
  unfold pteWalk slotPath slotIndex
  split
  . simp only [walkPath]
    rcases pteNext pmAllocateN m cr3 (index v 3) flags with f | ⟨_ | t, m⟩ <;> rfl
  . split
    . simp only [walkPath]
      rcases pteNext pmAllocateN m cr3 (index v 3) flags with f | ⟨_ | t, m⟩ <;> try rfl
      simp only [Except.ok_bind]
      rcases pteNext pmAllocateN m t (index v 2) flags with f | ⟨_ | t, m⟩ <;> rfl
    . simp only [walkPath]
      rcases pteNext pmAllocateN m cr3 (index v 3) flags with f | ⟨_ | t, m⟩ <;> try rfl
      simp only [Except.ok_bind]
      rcases pteNext pmAllocateN m t (index v 2) flags with f | ⟨_ | t, m⟩ <;> try rfl
      simp only [Except.ok_bind]
      rcases pteNext pmAllocateN m t (index v 1) flags with f | ⟨_ | t, m⟩ <;> rfl

theorem Clear.mono (h : Clear mem cr3 path) (hlen : path.length ≤ 3) (hlarge : ∀ q j, q.length ≤ 2
      → find tableBelow mem' cr3 isLarge q j = find tableBelow mem cr3 isLarge q j)
    : Clear mem' cr3 path := by
  intro p i hp
  rw [hlarge p i]
  . exact h p i hp
  . have := hp.length_le
    simp at this
    omega

structure WalkRel (pmAllocateN : PmAllocate σ) (Ok : σ → Prop) (used : σ → Set Addr) (cr3 : Addr)
    (flags : WalkFlags) (R : Mmu σ → Mmu σ → Prop) : Prop where
  refl : ∀ a, R a a
  trans : ∀ {a b c}, R a b → R b c → R a c
  next : ∀ {a b p table i r}, Ok a.pm → Sound a.mem cr3 (used a.pm)
    → descend tableBelow a.mem cr3 p = some table → p.length < 3
    → pteNext pmAllocateN a table i flags = .ok (r, b) → R a b

variable {R : Mmu σ → Mmu σ → Prop}

section

variable (hR : WalkRel pmAllocateN Ok used cr3 flags R) (hsrc : PageSource pmAllocateN Ok used)
  (hok : Ok m.pm) (hsound : Sound m.mem cr3 (used m.pm))

include hR hsrc hok hsound

theorem WalkRel.walkPath {r : Option Addr} (hp : descend tableBelow m.mem cr3 p = some t)
    (hlen : (p ++ path).length ≤ 3) (hclear : Clear m.mem cr3 (p ++ path))
    (h : walkPath pmAllocateN flags m t path = .ok (r, m'))
    : R m m' ∧ Walked pmAllocateN used cr3 flags (p ++ path) m m'
        ∧ descend tableBelow m'.mem cr3 (p ++ path) = r ∧ (r = none → flags.createNew = false) := by
  induction path generalizing p t m with
  | nil =>
    cases h
    rw [List.append_nil]
    exact ⟨hR.refl _, Walked.refl hsound, hp, by simp⟩
  | cons i path ih =>
    have hpath : p ++ [i] <+: p ++ i :: path := by simp
    have hlt : p.length < 3 := by
      simp at hlen
      omega
    obtain ⟨⟨r₁, m₁⟩, h₁, h⟩ := Except.bind_eq_ok h
    have hlarge := (find_isLarge_eq_none hp).mp (hclear p i hpath)
    obtain ⟨hw₁, hd₁, hc₁⟩ := pteNext_spec hsrc hok hsound hp hlt hpath hlarge h₁
    have hR₁ := hR.next hok hsound hp hlt h₁
    cases r₁ with
    | none =>
      cases h
      exact ⟨hR₁, hw₁, descend_none_of_isPrefix hpath hd₁, fun _ => hc₁ rfl⟩
    | some t₁ =>
      rw [List.append_cons] at hlen hclear hw₁ ⊢
      obtain ⟨hR₂, hw₂, hrest⟩ := ih (hsrc.ok_of_taken hok hw₁.taken) hw₁.sound hd₁ hlen
        (hclear.mono hlen hw₁.same.large) h
      exact ⟨hR.trans hR₁ hR₂, hw₁.trans hw₂, hrest⟩

theorem WalkRel.pteWalk {r : Option (Addr × BitVec 9)} (hclear : Clear m.mem cr3 (slotPath flags v))
    (h : pteWalk pmAllocateN m cr3 v flags = .ok (r, m'))
    : R m m' ∧ Walk pmAllocateN used cr3 v flags m m' r := by
  rw [pteWalk_eq] at h
  obtain ⟨⟨s, m₁⟩, hpath, heq⟩ := Except.map_eq_ok h
  cases heq
  obtain ⟨hrel, hw, hd, hc⟩ := hR.walkPath hsrc hok hsound Radix.descend_nil (slotPath_length flags v)
    hclear hpath
  refine ⟨hrel, hw, ?_, fun hr => hc (Option.map_eq_none_iff.mp hr)⟩
  rw [← hd]
  rfl

end

theorem WalkRel.trivial : WalkRel pmAllocateN Ok used cr3 flags fun _ _ => True := by
  constructor <;> intros <;> exact True.intro

theorem pteWalk_spec (hsrc : PageSource pmAllocateN Ok used) {r : Option (Addr × BitVec 9)} (hok : Ok m.pm)
    (hsound : Sound m.mem cr3 (used m.pm)) (hclear : Clear m.mem cr3 (slotPath flags v))
    (h : pteWalk pmAllocateN m cr3 v flags = .ok (r, m'))
    : Walk pmAllocateN used cr3 v flags m m' r :=
  (WalkRel.trivial.pteWalk hsrc hok hsound hclear h).2

theorem WalkRel.mapEntry (hR : WalkRel pmAllocateN Ok used cr3 flags R)
    (hsrc : PageSource pmAllocateN Ok used) {entry : BitVec 64} (hok : Ok m.pm)
    (hsound : Sound m.mem cr3 (used m.pm)) (hclear : Clear m.mem cr3 (slotPath flags v))
    (h : mapEntry pmAllocateN m cr3 v flags entry = .ok m')
    : ∃ m₁ t, R m m₁ ∧ Walked pmAllocateN used cr3 flags (slotPath flags v) m m₁
        ∧ descend tableBelow m₁.mem cr3 (slotPath flags v) = some t
        ∧ m' = { m₁ with mem := Radix.write m₁.mem t (slotIndex flags v) entry } := by
  obtain ⟨⟨r, m₁⟩, hwalk, h⟩ := Except.bind_eq_ok h
  obtain ⟨hrel, hwalk⟩ := hR.pteWalk hsrc hok hsound hclear hwalk
  cases r with
  | none => cases h
  | some slot =>
    obtain ⟨t, ht, heq⟩ := Option.map_eq_some_iff.mp hwalk.slot.symm
    cases heq
    cases h
    exact ⟨m₁, t, hrel, hwalk.walked, ht, rfl⟩

end Paging
end Nyy
