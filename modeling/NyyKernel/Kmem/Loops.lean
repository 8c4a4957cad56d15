import NyyKernel.Kmem.Arena
import NyyKernel.Kmem.Wire

/-!
This module contains the loops of `allocwired` and `freewired`.
-/

namespace Nyy
namespace Kmem

open Pm Vmem
open Paging (Addr Mmu PageMem Clear Sound hardwareWalk pagePath Canonical pteAddress)
open Slab (pageSize)

section Frames

variable {s s' : State} {p q : PagePtr} {a b : Addr} {u u' old new : PageUse}

theorem HasFrame.usage_eq (hp : HasFrame s u a p) (hq : HasFrame s u' b p) : u = u' := by
  rcases hp with ⟨page, hpage, rfl, _⟩
  rcases hq with ⟨page', hpage', rfl, _⟩
  rw [hpage] at hpage'
  cases hpage'
  rfl

theorem HasFrame.ptr_ne (hp : HasFrame s u a p) (hq : HasFrame s u' b q) (hne : u ≠ u')
    : p ≠ q := by
  rintro rfl
  exact hne (hp.usage_eq hq)

theorem Reused.usage (h : Reused s s' p old new a) (hq : HasFrame s' u b q)
    : (q = p ∧ u = new) ∨ (q ≠ p ∧ HasFrame s u b q) := by
  by_cases hqp : q = p
  . subst hqp
    exact .inl ⟨rfl, hq.usage_eq h.after⟩
  . exact .inr ⟨hqp, (h.others hqp).mp hq⟩

theorem taken_tablePage {cfg : Config} (h : PagesOk s)
    (ht : Relation.ReflTransGen (Paging.Takes (tablePage cfg)) s s')
    : (∀ u a q, u ≠ .free → HasFrame s u a q → HasFrame s' u a q) ∧
        ∀ u a q, HasFrame s' u a q → u = .vm ∨ HasFrame s u a q := by
  induction ht using Relation.ReflTransGen.head_induction_on with
  | refl => exact ⟨fun _ _ _ _ hq => hq, fun _ _ _ hq => .inr hq⟩
  | head htake _ ih =>
    rcases htake with ⟨t, htake⟩
    rcases tablePage_reused h htake with ⟨hok, _, p, hreused⟩
    rcases ih hok with ⟨hkept, hbefore⟩
    constructor
    . intro u a q hu hq
      exact hkept u a q hu ((hreused.others (hq.ptr_ne hreused.before hu)).mpr hq)
    . intro u a q hq
      rcases hbefore u a q hq with hu | hq
      . exact .inl hu
      . exact (hreused.usage hq).imp And.right And.right

end Frames

structure KernelPage (i : Nat) : Prop where
  page : pageSize ∣ i
  low : memKernelStart ≤ i
  high : i < kernelTop

def InPageAt (w : Addr) (i : Nat) : Prop := Paging.page w = Paging.page (BitVec.ofNat 64 i)

section KernelPage

variable {i j : Nat} {w : Addr}

theorem KernelPage.toNat (h : KernelPage i) : (BitVec.ofNat 64 i).toNat = i := by
  have := kernelTop_lt
  have := h.high
  rw [BitVec.toNat_ofNat]
  exact Nat.mod_eq_of_lt (by omega)

theorem KernelPage.inPageAt (h : KernelPage i)
    : InPageAt w i ↔ i ≤ w.toNat ∧ w.toNat < i + pageSize := by
  rcases h.page with ⟨c, rfl⟩
  unfold InPageAt
  rw [← BitVec.toNat_inj]
  simp only [Paging.page, BitVec.toNat_ushiftRight, Nat.shiftRight_eq_div_pow, h.toNat]
  unfold pageSize
  omega

theorem KernelPage.canonical (h : KernelPage i) (hw : InPageAt w i) : Canonical w := by
  have hlow : 2 ^ 64 - 2 ^ 47 ≤ memKernelStart := by decide
  rw [Paging.canonical_iff]
  exact .inr (Nat.le_trans hlow (Nat.le_trans h.low (h.inPageAt.mp hw).1))

theorem KernelPage.apart (hi : KernelPage i) (hj : KernelPage j) (hne : i ≠ j) (hw : InPageAt w i)
    : ¬ InPageAt w j := by
  rw [hi.inPageAt] at hw
  rw [hj.inPageAt]
  rcases hi.page with ⟨c, rfl⟩
  rcases hj.page with ⟨d, rfl⟩
  unfold pageSize at hw hne ⊢
  omega

end KernelPage

def IsBehind (k : Setup) (m : Mmu State) (i : Nat) (p : PagePtr) : Prop :=
  ∃ a, HasFrame m.pm .wired a p ∧ ∀ w, InPageAt w i →
    hardwareWalk m.mem k.kmap w = some (.page4K (wiredEntry k a))

def Covered (ms : List (Nat × PagePtr)) (w : Addr) : Prop := ∃ x ∈ ms, InPageAt w x.1

structure Backs (k : Setup) (m₀ : Mmu State) (ms : List (Nat × PagePtr)) (m : Mmu State) : Prop where
  pages : PagesOk m.pm
  sound : Sound m.mem k.kmap (frames .vm m.pm)
  clear : ∀ i, KernelPage i → Clear m.mem k.kmap (pagePath (BitVec.ofNat 64 i))
  keys : ∀ x ∈ ms, KernelPage x.1
  once : (ms.map Prod.fst).Nodup
  behind : ∀ x ∈ ms, IsBehind k m x.1 x.2
  distinct : (ms.map Prod.snd).Nodup
  elsewhere : ∀ w, Canonical w → ¬ Covered ms w →
    hardwareWalk m.mem k.kmap w = none ∨ hardwareWalk m.mem k.kmap w = hardwareWalk m₀.mem k.kmap w
  others : ∀ u a p, HasFrame m.pm u a p → p ∉ ms.map Prod.snd →
    u = .free ∨ u = .vm ∨ HasFrame m₀.pm u a p

section Backs

variable {k : Setup} {m₀ m m' : Mmu State} {i fuel : Nat} {ms ms' : List (Nat × PagePtr)} {p : PagePtr}
  {w : Addr}

theorem covered_cons : Covered ((i, p) :: ms) w ↔ InPageAt w i ∨ Covered ms w := by
  simp only [Covered, List.exists_mem_cons_iff]

theorem Backs.perm (h : Backs k m₀ ms m) (hp : ms.Perm ms') : Backs k m₀ ms' m := by
  refine ⟨h.pages, h.sound, h.clear, fun x hx => h.keys x (hp.mem_iff.mpr hx),
    (hp.map _).nodup_iff.mp h.once, fun x hx => h.behind x (hp.mem_iff.mpr hx),
    (hp.map _).nodup_iff.mp h.distinct, ?_, ?_⟩
  . intro w hw hne
    apply h.elsewhere w hw
    rintro ⟨x, hx, hxw⟩
    exact hne ⟨x, hp.mem_iff.mp hx, hxw⟩
  . intro u a p hu hmem
    exact h.others u a p hu fun hp' => hmem ((hp.map _).mem_iff.mp hp')

theorem clear_of_large {mem mem' : PageMem} {cr3 v : Addr} (h : Clear mem cr3 (pagePath v))
    (hlarge : ∀ q j, q.length ≤ 2 → Radix.find Paging.tableBelow mem' cr3 Paging.isLarge q j =
      Radix.find Paging.tableBelow mem cr3 Paging.isLarge q j)
    : Clear mem' cr3 (pagePath v) := by
  intro q j hq
  have hlen := hq.length_le
  rw [List.length_append] at hlen
  rw [hlarge q j (Nat.le_of_succ_le_succ hlen)]
  exact h q j hq

theorem IsBehind.of_eq (h : IsBehind k m i p)
    (hwalk : ∀ w, InPageAt w i → hardwareWalk m'.mem k.kmap w = hardwareWalk m.mem k.kmap w)
    (hframe : ∀ a, HasFrame m.pm .wired a p → HasFrame m'.pm .wired a p)
    : IsBehind k m' i p := by
  rcases h with ⟨a, hp, hentry⟩
  exact ⟨a, hframe _ hp, fun w hw => (hwalk w hw).trans (hentry w hw)⟩

theorem Backs.wire (h : Backs k m₀ ms m) (hi : KernelPage i) (hnew : i ∉ ms.map Prod.fst)
    (he : wirePage k i m = .ok m')
    : ∃ p, Backs k m₀ ((i, p) :: ms) m' := by
  rcases wirePage_spec h.pages h.sound (hi.canonical rfl) (h.clear i hi) he with ⟨p, a, pm, hw⟩
  rcases taken_tablePage hw.ok hw.remapped.taken with ⟨hkept, hbefore⟩
  have hp : ∀ x ∈ ms, x.2 ≠ p := by
    intro x hx
    rcases h.behind x hx with ⟨_, hframe, _⟩
    exact hframe.ptr_ne hw.reused.before (by decide)
  refine ⟨p, (pageSource k.cfg).ok_of_taken hw.ok hw.remapped.taken, hw.remapped.sound,
    fun j hj => clear_of_large (h.clear j hj) hw.remapped.large, List.forall_mem_cons.mpr ⟨hi, h.keys⟩,
    List.nodup_cons.mpr ⟨hnew, h.once⟩, ?_, ?_, ?_, ?_⟩
  . refine List.forall_mem_cons.mpr ⟨⟨a, hkept _ a p (by decide) hw.reused.after, hw.remapped.here⟩, ?_⟩
    intro x hx
    have hne : x.1 ≠ i := fun heq => hnew (List.mem_map.mpr ⟨x, hx, heq⟩)
    apply (h.behind x hx).of_eq
    . intro w hxw
      exact hw.remapped.elsewhere w ((h.keys x hx).canonical hxw) ((h.keys x hx).apart hi hne hxw)
    . intro b hb
      exact hkept _ b x.2 (by decide) ((hw.reused.others (hp x hx)).mpr hb)
  . refine List.nodup_cons.mpr ⟨?_, h.distinct⟩
    intro hmem
    rcases List.mem_map.mp hmem with ⟨x, hx, hxp⟩
    exact hp x hx hxp
  . intro w hcw hne
    rw [covered_cons, not_or] at hne
    rw [hw.remapped.elsewhere w hcw hne.1]
    exact h.elsewhere w hcw hne.2
  . intro u b q hq hmem
    rw [List.map_cons, List.mem_cons, not_or] at hmem
    rcases hbefore u b q hq with hu | hq
    . exact .inr (.inl hu)
    . exact h.others u b q ((hw.reused.others hmem.1).mp hq) hmem.2

theorem Backs.descriptors (h : Backs k m₀ ms m) (he : vmemAllocPages k.cfg m = .ok m')
    : Backs k m₀ ms m' := by
  rcases Except.bind_eq_ok he with ⟨⟨p, pm⟩, halloc, he⟩
  cases he
  rcases h.pages.allocate (by decide) halloc with ⟨hok, ⟨a, hreused⟩, _, _⟩
  have hmono : frames .vm m.pm ⊆ frames .vm pm := by
    rw [hreused.frames_new (by decide)]
    exact Set.subset_insert _ _
  refine ⟨hok, ⟨h.sound.tree, fun q t hq hd => hmono (h.sound.inUse q t hq hd)⟩, h.clear, h.keys, h.once,
    ?_, h.distinct, h.elsewhere, ?_⟩
  . intro x hx
    exact (h.behind x hx).of_eq (fun _ _ => rfl) fun b =>
      (hreused.hasFrame_other (by decide) (by decide)).mpr
  . intro u b q hq hmem
    rcases hreused.usage hq with ⟨_, hu⟩ | ⟨_, hq⟩
    . exact .inr (.inl hu)
    . exact h.others u b q hq hmem

structure Unwired (k : Setup) (ms : List (Nat × PagePtr)) (m m' : Mmu State) : Prop where
  freed : m'.pm.buddyFreelist 0 = m.pm.buddyFreelist 0 ++ ms.map Prod.snd
  here : ∀ w, Canonical w → Covered ms w → hardwareWalk m'.mem k.kmap w = none
  elsewhere : ∀ w, Canonical w → ¬ Covered ms w →
    hardwareWalk m'.mem k.kmap w = hardwareWalk m.mem k.kmap w

theorem unwirePage_returns {entry : BitVec 64} (hok : PagesOk m.pm)
    (hclear : Clear m.mem k.kmap (pagePath (BitVec.ofNat 64 i)))
    (hwalk : hardwareWalk m.mem k.kmap (BitVec.ofNat 64 i) = some (.page4K entry))
    (hframe : HasFrame m.pm .wired (entry &&& pteAddress) p)
    : ∃ m', unwirePage k i m = .ok m' := by
  have hflags : Paging.unmapFlags k.cfg k.features 0 = .ok ⟨false, false, false⟩ := if_pos (by decide)
  have hunmap : ∃ m1, Paging.vmPortUnmap (tablePage k.cfg) k.cfg k.features m k.kmap (BitVec.ofNat 64 i) 0 =
      .ok m1 :=
    Paging.vmPortUnmap_returns hflags rfl
  rcases hunmap with ⟨m1, hm1⟩
  unfold unwirePage
  rw [vmPortTranslate_mapped _ hclear hwalk, Except.ok_bind]
  dsimp only
  rw [hframe.pmLookup_eq hok.ok.shaped, Option.isSome_some, check_true, Except.ok_bind]
  dsimp only
  rw [hm1, Except.ok_bind, pmFree_eq]
  exact ⟨_, rfl⟩

theorem Backs.unwire (h : Backs k m₀ ((i, p) :: ms) m)
    : ∃ m', unwirePage k i m = .ok m' ∧ Backs k m₀ ms m' ∧
        m'.pm.buddyFreelist 0 = m.pm.buddyFreelist 0 ++ [p] ∧
        (∀ w, InPageAt w i → hardwareWalk m'.mem k.kmap w = none) ∧
        ∀ w, Canonical w → ¬ InPageAt w i →
          hardwareWalk m'.mem k.kmap w = hardwareWalk m.mem k.kmap w := by
  rcases List.forall_mem_cons.mp h.keys with ⟨hi, hkeys⟩
  rcases List.forall_mem_cons.mp h.behind with ⟨⟨a, hframe, hwalk⟩, hbehind⟩
  rcases List.nodup_cons.mp h.once with ⟨honce, honce'⟩
  rcases List.nodup_cons.mp h.distinct with ⟨hdistinct, hdistinct'⟩
  dsimp only at hi hframe hwalk
  have hentry : wiredEntry k a &&& pteAddress = a :=
    Paging.newEntry_and _ _ _ (by decide) (hframe.frame h.pages.ok.shaped)
  rw [← hentry] at hframe
  have hwalk' := hwalk (BitVec.ofNat 64 i) rfl
  rcases unwirePage_returns h.pages (h.clear i hi) hwalk' hframe with ⟨m', he⟩
  rcases unwirePage_spec h.pages h.sound (hi.canonical rfl) (h.clear i hi) hwalk' hframe he with
    ⟨hre, hfree⟩
  rcases h.pages.free hframe (by decide) (by decide) hfree with ⟨hok, hreused, hlist, _⟩
  have hframes : frames .vm m'.pm = frames .vm m.pm := hreused.frames_other (by decide) (by decide)
  refine ⟨m', he, ⟨hok, hframes ▸ hre.sound, fun j hj => clear_of_large (h.clear j hj) hre.large,
    hkeys, honce', ?_, hdistinct', ?_, ?_⟩, hlist, hre.here, hre.elsewhere⟩
  . intro x hx
    have hne : x.1 ≠ i := fun heq => honce (List.mem_map.mpr ⟨x, hx, heq⟩)
    have hp : x.2 ≠ p := fun heq => hdistinct (List.mem_map.mpr ⟨x, hx, heq⟩)
    apply (hbehind x hx).of_eq
    . intro w hxw
      exact hre.elsewhere w ((hkeys x hx).canonical hxw) ((hkeys x hx).apart hi hne hxw)
    . intro b hb
      exact (hreused.others hp).mpr hb
  . intro w hcw hne
    by_cases hpage : InPageAt w i
    . exact .inl (hre.here w hpage)
    . rw [hre.elsewhere w hcw hpage]
      apply h.elsewhere w hcw
      rw [covered_cons, not_or]
      exact ⟨hpage, hne⟩
  . intro u b q hq hmem
    rcases hreused.usage hq with ⟨_, hu⟩ | ⟨hqp, hq⟩
    . exact .inl hu
    . apply h.others u b q hq
      rw [List.map_cons, List.mem_cons, not_or]
      exact ⟨hqp, hmem⟩

def pagesFrom (i : Nat) : List PagePtr → List (Nat × PagePtr)
  | [] => []
  | p :: ps => (i, p) :: pagesFrom (i + pageSize) ps

theorem of_mem_pagesFrom {ps : List PagePtr} {x : Nat × PagePtr} (h : x ∈ pagesFrom i ps)
    : i ≤ x.1 ∧ x.1 + pageSize ≤ i + ps.length * pageSize := by
  induction ps generalizing i with
  | nil => cases h
  | cons p ps ih =>
    rw [List.length_cons, Nat.succ_mul]
    rcases List.mem_cons.mp h with rfl | h
    . dsimp only
      omega
    . have := ih h
      omega

theorem forPages_next {σ : Type} {body : Nat → σ → Except Fault σ} {stop : Nat} (s : σ) (h : i < stop)
    (hlt : i + pageSize < 2 ^ 64)
    : forPages body (fuel + 1) i stop s = (body i s >>= forPages body fuel (i + pageSize) stop) := by
  rw [forPages, if_pos h, Word.add_eq hlt]

theorem forPages_stop {σ : Type} {body : Nat → σ → Except Fault σ} (s : σ)
    : forPages body (fuel + 1) i i s = .ok s := by
  rw [forPages, if_neg (Nat.lt_irrefl i)]
  rfl

theorem kernelTop_add_lt : kernelTop + pageSize < 2 ^ 64 := by decide

theorem Backs.wireAll {c : Nat} (h : Backs k m₀ ms m) (hi : pageSize ∣ i) (hlow : memKernelStart ≤ i)
    (hhigh : i + c * pageSize ≤ kernelTop) (hnew : ∀ x ∈ ms, x.1 < i ∨ i + c * pageSize ≤ x.1)
    (he : forPages (wirePage k) fuel i (i + c * pageSize) m = .ok m')
    : ∃ ps, ps.length = c ∧ Backs k m₀ (pagesFrom i ps ++ ms) m' := by
  induction c generalizing i ms m fuel with
  | zero =>
    cases fuel with
    | zero => cases he
    | succ fuel =>
      rw [Nat.zero_mul, Nat.add_zero i, forPages_stop] at he
      cases he
      exact ⟨[], rfl, h⟩
  | succ c ih =>
    have htop := kernelTop_add_lt
    have hpos : 0 < pageSize := by decide
    rw [Nat.succ_mul, Nat.add_comm (c * pageSize), ← Nat.add_assoc] at he hhigh hnew
    have hlast : i + pageSize ≤ i + pageSize + c * pageSize := Nat.le_add_right _ _
    cases fuel with
    | zero => cases he
    | succ fuel =>
      rw [forPages_next m (by omega) (by omega)] at he
      rcases Except.bind_eq_ok he with ⟨m1, hwire, he⟩
      have hkey : i ∉ ms.map Prod.fst := by
        intro hmem
        rcases List.mem_map.mp hmem with ⟨x, hx, rfl⟩
        have := hnew x hx
        omega
      rcases h.wire ⟨hi, hlow, by omega⟩ hkey hwire with ⟨p, h1⟩
      have hrest : ∀ x ∈ (i, p) :: ms, x.1 < i + pageSize ∨ i + pageSize + c * pageSize ≤ x.1 := by
        refine List.forall_mem_cons.mpr ⟨.inl (by omega), fun x hx => ?_⟩
        have := hnew x hx
        omega
      rcases ih h1 (hi.add (dvd_refl _)) (by omega) hhigh hrest he with ⟨ps, hlen, h2⟩
      exact ⟨p :: ps, by rw [List.length_cons, hlen], h2.perm List.perm_middle⟩

theorem Backs.unwireAll {ps : List PagePtr} (h : Backs k m₀ (pagesFrom i ps ++ ms) m)
    (hfuel : ps.length < fuel)
    : ∃ m', forPages (unwirePage k) fuel i (i + ps.length * pageSize) m = .ok m' ∧
        Backs k m₀ ms m' ∧ Unwired k (pagesFrom i ps) m m' := by
  induction ps generalizing i m fuel with
  | nil =>
    cases fuel with
    | zero => exact absurd hfuel (Nat.lt_irrefl _)
    | succ fuel =>
      refine ⟨m, ?_, h, ?_⟩
      . rw [List.length_nil, Nat.zero_mul, Nat.add_zero i, forPages_stop]
      . exact ⟨(List.append_nil _).symm, by simp [pagesFrom, Covered], fun _ _ _ => rfl⟩
  | cons p ps ih =>
    cases fuel with
    | zero => exact absurd hfuel (Nat.not_lt_zero _)
    | succ fuel =>
      have htop := kernelTop_add_lt
      have hpos : 0 < pageSize := by decide
      have hi : KernelPage i := h.keys (i, p) List.mem_cons_self
      have hhigh := hi.high
      rcases h.unwire with ⟨m1, he1, h1, hlist, hhere, helse⟩
      rcases ih h1 (Nat.lt_of_succ_lt_succ hfuel) with ⟨m', he, h', hu⟩
      refine ⟨m', ?_, h', ?_, ?_, ?_⟩
      . rw [List.length_cons, Nat.succ_mul, Nat.add_comm (ps.length * pageSize), ← Nat.add_assoc,
          forPages_next m (by omega) (by omega), he1, Except.ok_bind, he]
      . rw [hu.freed, hlist, List.append_assoc]
        rfl
      . intro w hw hcovered
        by_cases hrest : Covered (pagesFrom (i + pageSize) ps) w
        . exact hu.here w hw hrest
        . rw [hu.elsewhere w hw hrest]
          exact hhere w ((covered_cons.mp hcovered).resolve_right hrest)
      . intro w hw hne
        rw [pagesFrom, covered_cons, not_or] at hne
        rw [hu.elsewhere w hw hne.2, helse w hw hne.1]

end Backs

end Kmem
end Nyy
