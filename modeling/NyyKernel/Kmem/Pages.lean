import NyyKernel.Kmem.Impl
import NyyKernel.Paging.Run
import NyyKernel.Pm.Lemmas

namespace Nyy
namespace Kmem

open Pm
open Paging (Addr Mmu PageSource)

variable {s s' : State} {a : Addr} {p q : PagePtr} {new old u usage : PageUse}

structure PagesOk (s : State) : Prop where
  ok : Ok s
  taken : ∀ p page, s.page? p = some page → page.usage ≠ .free → page.usage ≠ .internal → Owned s p

def HasFrame (s : State) (usage : PageUse) (a : Addr) (p : PagePtr) : Prop :=
  ∃ page, s.page? p = some page ∧ page.usage = usage ∧ pg2p page = a

def frames (usage : PageUse) (s : State) : Set Addr := {a | ∃ p, HasFrame s usage a p}

theorem HasFrame.inj (h : Shaped s) {u' : PageUse} (hp : HasFrame s u a p) (hq : HasFrame s u' a q)
    : p = q ∧ u = u' := by
  rcases hp with ⟨page, hpage, rfl, rfl⟩
  rcases hq with ⟨page', hpage', rfl, heq⟩
  have hpq := h.pg2p_inj hpage hpage' heq.symm
  subst hpq
  rw [hpage] at hpage'
  cases hpage'
  exact ⟨rfl, rfl⟩

theorem HasFrame.frame (h : Shaped s) (hp : HasFrame s u a p) : a &&& Paging.pteAddress = a := by
  rcases hp with ⟨page, hpage, _, rfl⟩
  rcases h.pg2p_eq hpage with ⟨e, he, hlt, haddr⟩
  have hok := h.extent e (List.mem_of_getElem? he)
  have := hok.aligned
  have := hok.physical
  rw [Paging.and_pteAddress_iff]
  omega

structure Reused (s s' : State) (p : PagePtr) (old new : PageUse) (a : Addr) : Prop where
  before : HasFrame s old a p
  after : HasFrame s' new a p
  others : ∀ {q : PagePtr} {usage : PageUse} {b : Addr}, q ≠ p →
    (HasFrame s' usage b q ↔ HasFrame s usage b q)

theorem reused_setUsage {page : Page} (hpage : s.page? p = some page)
    (hs' : ∀ q, s'.page? q = (s.setUsage p new).page? q)
    : Reused s s' p page.usage new (pg2p page) := by
  refine ⟨⟨page, hpage, rfl, rfl⟩, ⟨{ page with usage := new }, ?_, rfl, rfl⟩, ?_⟩
  . rw [hs', State.page?_setUsage, hpage]
    simp
  . intro q usage b hq
    unfold HasFrame
    rw [hs', State.page?_setUsage]
    simp [hq]

theorem Reused.frames_new (h : Reused s s' p old new a) (hne : old ≠ new)
    : frames new s' = insert a (frames new s) := by
  ext b
  constructor
  . rintro ⟨q, hq⟩
    by_cases hqp : q = p
    . left
      rcases h.after with ⟨page, hpage, _, rfl⟩
      rcases hq with ⟨page', hpage', _, rfl⟩
      rw [hqp, hpage] at hpage'
      cases hpage'
      rfl
    . right
      exact ⟨q, (h.others hqp).mp hq⟩
  . rintro (rfl | ⟨q, hq⟩)
    . exact ⟨p, h.after⟩
    . have hqp : q ≠ p := by
        rintro rfl
        rcases h.before with ⟨page, hpage, hold, _⟩
        rcases hq with ⟨page', hpage', hnew, _⟩
        rw [hpage] at hpage'
        cases hpage'
        exact hne (hold.symm.trans hnew)
      exact ⟨q, (h.others hqp).mpr hq⟩

theorem Reused.hasFrame_other {b : Addr} (h : Reused s s' p old new a) (hold : usage ≠ old)
    (hnew : usage ≠ new)
    : HasFrame s' usage b q ↔ HasFrame s usage b q := by
  have hneq : ∀ {t : State} {u : PageUse}, HasFrame t u a p → usage ≠ u → HasFrame t usage b q →
      q ≠ p := by
    rintro t u ⟨page, hpage, hu, _⟩ hne ⟨page', hpage', husage, _⟩ rfl
    rw [hpage] at hpage'
    cases hpage'
    exact hne (husage.symm.trans hu)
  constructor
  . intro hq
    exact (h.others (hneq h.after hnew hq)).mp hq
  . intro hq
    exact (h.others (hneq h.before hold hq)).mpr hq

theorem Reused.frames_other (h : Reused s s' p old new a) (hold : usage ≠ old) (hnew : usage ≠ new)
    : frames usage s' = frames usage s := by
  ext b
  exact exists_congr fun q => h.hasFrame_other hold hnew

section

variable {cfg : Config} {s s' : State} {p : PagePtr} {usage : PageUse}

theorem PagesOk.allocate (h : PagesOk s) (hfree : usage ≠ .free) (he : pmAllocate cfg s usage = .ok (p, s'))
    : PagesOk s' ∧ (∃ a, Reused s s' p .free usage a) ∧
        s.buddyFreelist 0 = p :: s'.buddyFreelist 0 ∧ s'.vmstat.used = s.vmstat.used + 1 := by
  have hok := h.ok.allocate hfree he
  have howned := fun q => h.ok.owned_allocate hfree he (q := q)
  rcases pmAllocate_eq_ok he with ⟨rest, hlist, hs'⟩
  have hpages : ∀ q, s'.page? q = (s.setUsage p usage).page? q := by
    intro q
    rw [hs']
    rfl
  have hmem : p ∈ s.buddyFreelist 0 := hlist ▸ List.mem_cons_self
  rcases (h.ok.free p).mp hmem with ⟨page, hpage, husage⟩
  have hreused := reused_setUsage hpage hpages
  refine ⟨⟨hok, ?_⟩, ⟨pg2p page, husage ▸ hreused⟩, by simpa [hs'] using hlist, by rw [hs']⟩
  intro q page' hq hused hinternal
  rw [howned]
  by_cases hqp : q = p
  . exact .inl hqp
  . have hbefore := (hreused.others hqp).mp ⟨page', hq, rfl, rfl⟩
    rcases hbefore with ⟨page'', hpage'', hsame, _⟩
    exact .inr (h.taken q page'' hpage'' (hsame ▸ hused) (hsame ▸ hinternal))

theorem PagesOk.free (h : PagesOk s) {a : Addr} (hp : HasFrame s usage a p) (hused : usage ≠ .free)
    (hinternal : usage ≠ .internal) (he : pmFree cfg s p = .ok s')
    : PagesOk s' ∧ Reused s s' p usage .free a ∧
        s'.buddyFreelist 0 = s.buddyFreelist 0 ++ [p] ∧ s'.vmstat.used = s.vmstat.used - 1 := by
  rcases hp with ⟨page, hpage, rfl, rfl⟩
  have hok := h.ok.pmFree (h.taken p page hpage hused hinternal) he
  have howned := fun q => owned_pmFree he (q := q)
  rw [pmFree_eq] at he
  have hs' := Except.ok.inj he.symm
  have hpages : ∀ q, s'.page? q = (s.setUsage p .free).page? q := by
    intro q
    rw [hs']
    rfl
  have hreused := reused_setUsage hpage hpages
  refine ⟨⟨hok, ?_⟩, hreused, by simp [hs'], by rw [hs']⟩
  intro q page' hq hused' hinternal'
  rw [howned]
  have hqp : q ≠ p := by
    rintro rfl
    rcases hreused.after with ⟨page'', hpage'', hfree, _⟩
    rw [hq] at hpage''
    cases hpage''
    exact hused' hfree
  have hbefore := (hreused.others hqp).mp ⟨page', hq, rfl, rfl⟩
  rcases hbefore with ⟨page'', hpage'', hsame, _⟩
  exact ⟨hqp, h.taken q page'' hpage'' (hsame ▸ hused') (hsame ▸ hinternal')⟩

theorem tablePage_eq_ok (he : tablePage cfg s = .ok (a, s'))
    : ∃ p, pmAllocate cfg s .vm = .ok (p, s') ∧ ∃ page, s'.page? p = some page ∧ pg2p page = a := by
  unfold tablePage at he
  rcases Except.bind_eq_ok he with ⟨⟨p, s1⟩, halloc, he⟩
  dsimp only at he
  split at he
  . cases he
  . next page hpage =>
    cases he
    exact ⟨p, halloc, page, hpage, rfl⟩

theorem tablePage_reused (h : PagesOk s) (he : tablePage cfg s = .ok (a, s'))
    : PagesOk s' ∧ s'.vmstat.used = s.vmstat.used + 1 ∧ ∃ p, Reused s s' p .free .vm a := by
  rcases tablePage_eq_ok he with ⟨p, halloc, page, hpage, rfl⟩
  rcases h.allocate (by decide) halloc with ⟨hok, ⟨b, hreused⟩, _, hused⟩
  refine ⟨hok, hused, p, ?_⟩
  rcases hreused.after with ⟨page', hpage', _, rfl⟩
  rw [hpage] at hpage'
  cases hpage'
  exact hreused

end

theorem pageSource (cfg : Config) : PageSource (tablePage cfg) PagesOk (frames .vm) := by
  constructor
  . intro s a s' h he
    exact (tablePage_reused h he).1
  . intro s a s' h he
    rcases tablePage_reused h he with ⟨hok, _, p, hreused⟩
    exact hreused.after.frame hok.ok.shaped
  . rintro s a s' h he ⟨q, hq⟩
    rcases tablePage_reused h he with ⟨_, _, p, hreused⟩
    exact absurd (hreused.before.inj h.ok.shaped hq).2 (by decide)
  . intro s a s' h he
    rcases tablePage_reused h he with ⟨_, _, p, hreused⟩
    exact hreused.frames_new (by decide)

theorem PagesOk.init : PagesOk pmInit := by
  refine ⟨ok_pmInit, ?_⟩
  intro p page hpage
  cases hpage

theorem PagesOk.addRegion {base length : BitVec 64} (h : PagesOk s) (hfits : Fits base length)
    (hapart : ∀ e ∈ s.extents, e.Disjoint (newExtent base length))
    : PagesOk (pmAddRegion s base length) := by
  refine ⟨h.ok.addRegion hfits hapart, ?_⟩
  intro p page hpage hfree hinternal
  cases pmAddRegion_eq s hfits with
  | inl heq =>
    rw [heq] at hpage ⊢
    exact h.taken p page hpage hfree hinternal
  | inr heq =>
    cases (page?_append heq.1 p page).mp hpage with
    | inl hold => exact (h.taken p page hold hfree hinternal).addRegion hfits
    | inr hnew =>
      -- a new page is free or holds descriptors
      exfalso
      rw [hnew.2.2] at hfree hinternal
      unfold newPage at hfree hinternal
      dsimp only at hfree hinternal
      split at hfree
      . next hlt =>
        rw [if_pos hlt] at hinternal
        exact hinternal rfl
      . exact hfree rfl

def smallPm : State := pmAddRegion pmInit 0x100000 0x10000

theorem smallPm_ok : PagesOk smallPm := by
  apply PagesOk.init.addRegion
  . exact ⟨by decide, by decide, by decide, by decide⟩
  . intro e he
    cases he

def smallSetup : Setup := ⟨⟨false⟩, ⟨false, false, false⟩, 0x101000⟩

def smallMap : Except Fault (Addr × Mmu State) :=
  Paging.vmPortInitMap (tablePage smallSetup.cfg) ⟨fun _ _ => 0, smallPm⟩

theorem smallMap_blank {kmap : Addr} {mmu : Mmu State} (h : smallMap = .ok (kmap, mmu))
    : PagesOk mmu.pm ∧ Paging.Refines mmu.mem smallSetup.kmap (frames .vm mmu.pm) fun _ => none := by
  have hroot : smallMap.map Prod.fst = .ok smallSetup.kmap := by decide +kernel
  rw [h] at hroot
  cases hroot
  exact Paging.Refines.init (m := ⟨fun _ _ => 0, smallPm⟩) (pageSource smallSetup.cfg) smallPm_ok h

end Kmem
end Nyy
