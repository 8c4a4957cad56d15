import Mathlib.Tactic
import Mathlib.Data.BitVec
import NyyKernel.Lib.Word
import NyyKernel.Pm.Impl

namespace Nyy
namespace Pm

open Paging (Addr Mmu)

variable {length base : BitVec 64} {s s' : State} {p q : PagePtr} {i x : Nat} {cfg : Config}
  {usage : PageUse} {paddr : Addr} {e : Extent} {a b : Page}

theorem toNat_pageAlignUp {a : BitVec 64} (ha : a.toNat + 2 ^ 12 ≤ 2 ^ 64)
    : (pageAlignUp a).toNat = 2 ^ 12 * ((a.toNat + (2 ^ 12 - 1)) / 2 ^ 12) := by
  have hsum : (a + 0x1000 - 1 : BitVec 64).toNat = a.toNat + (2 ^ 12 - 1) := by
    bv_omega
  have hmask : (~~~(0x1000 - 1) : BitVec 64).toNat = Word.not (2 ^ 12 - 1) := by
    decide
  unfold pageAlignUp
  rw [BitVec.toNat_and, hsum, hmask]
  exact Word.and_not_low (by omega) (by decide)

def reserved (pagecnt : Nat) : Nat := (32 + 32 * pagecnt + (2 ^ 12 - 1)) / 2 ^ 12

theorem le_reserved (pagecnt : Nat) : 32 + 32 * pagecnt ≤ 2 ^ 12 * reserved pagecnt := by
  unfold reserved
  omega

theorem toNat_regionUsed_eq (hmax : length.toNat ≤ 2 ^ 52)
    : (regionUsed length).toNat
        = 2 ^ 12 * ((32 + 32 * length.toNat / 2 ^ 12 + (2 ^ 12 - 1)) / 2 ^ 12) := by
  have hsize : (sizeofRegion + sizeofPage * length / 0x1000).toNat
      = 32 + 32 * length.toNat / 2 ^ 12 := by
    unfold sizeofRegion sizeofPage
    rw [BitVec.toNat_add, BitVec.toNat_udiv, BitVec.toNat_mul]
    change (32 + 32 * length.toNat % 2 ^ 64 / 4096) % 2 ^ 64 = 32 + 32 * length.toNat / 2 ^ 12
    omega
  unfold regionUsed
  rw [toNat_pageAlignUp (by omega), hsize]

theorem toNat_regionUsed {pagecnt : Nat} (hlength : length.toNat = 2 ^ 12 * pagecnt)
    (hmax : length.toNat ≤ 2 ^ 52)
    : (regionUsed length).toNat = 2 ^ 12 * reserved pagecnt := by
  rw [toNat_regionUsed_eq hmax, hlength, Nat.mul_left_comm, Nat.mul_div_cancel_left _ (by decide)]
  rfl

theorem State.page?_setUsage (s : State) (p q : PagePtr) (usage : PageUse)
    : (s.setUsage p usage).page? q
        = (s.page? q).map (fun page => if q = p then { page with usage := usage } else page) := by
  unfold State.setUsage State.page?
  dsimp only
  rw [List.getElem?_modify]
  cases hr : s.regionlist[q.region]? with
  | none => rfl
  | some r =>
    by_cases hregion : p.region = q.region
    . simp only [hregion, Option.map_eq_map, Option.map_some, if_true, Option.bind_some,
        List.getElem?_modify]
      cases hp : r.pages[q.index]? with
      | none => rfl
      | some page =>
        have : p.index = q.index ↔ q = p := by
          cases p
          cases q
          simp only at hregion ⊢
          subst hregion
          simp [eq_comm]
        simp [this]
    . have : q ≠ p := by
        rintro rfl
        exact hregion rfl
      simp [hregion, this]

structure Extent where
  base : Addr
  pagecnt : BitVec 64
  length : Nat

def Region.extent (r : Region) : Extent := ⟨r.base, r.pagecnt, r.pages.length⟩

def State.extents (s : State) : List Extent := s.regionlist.map Region.extent

theorem State.extents_setUsage (s : State) (p : PagePtr) (usage : PageUse)
    : (s.setUsage p usage).extents = s.extents := by
  unfold State.extents State.setUsage
  apply List.ext_getElem?
  intro i
  simp only [List.getElem?_map, List.getElem?_modify]
  cases s.regionlist[i]? with
  | none => rfl
  | some r =>
    simp only [Option.map_eq_map, Option.map_some]
    split
    . simp [Region.extent]
    . rfl

theorem State.page?_eq_some {page : Page} (h : s.page? p = some page)
    : ∃ r, s.regionlist[p.region]? = some r ∧ r.pages[p.index]? = some page := by
  unfold State.page? at h
  exact Option.bind_eq_some_iff.mp h

structure Extent.Ok (e : Extent) : Prop where
  aligned : e.base.toNat % 2 ^ 12 = 0
  physical : e.base.toNat + 2 ^ 12 * e.length ≤ 2 ^ 52
  count : e.pagecnt.toNat = e.length
  nonempty : e.length ≠ 0

def Extent.Has (e : Extent) (x : Nat) : Prop :=
  e.base.toNat ≤ x ∧ x < e.base.toNat + 2 ^ 12 * e.length

def Extent.Disjoint (e e' : Extent) : Prop := ∀ x, e.Has x → ¬ e'.Has x

structure Shaped (s : State) : Prop where
  extent : ∀ e ∈ s.extents, e.Ok
  apart : s.extents.Pairwise Extent.Disjoint
  page : ∀ p page, s.page? p = some page → ∃ e, s.extents[p.region]? = some e ∧ p.index < e.length
    ∧ page.pfn.toNat = e.base.toNat / 2 ^ 12 + p.index ∧ page.order = 0

structure Ok (s : State) : Prop where
  shaped : Shaped s
  nodup : (s.buddyFreelist 0).Nodup
  free : ∀ p, p ∈ s.buddyFreelist 0 ↔ ∃ page, s.page? p = some page ∧ page.usage = .free
  metadata : ∀ p page e, s.page? p = some page → s.extents[p.region]? = some e
    → p.index < reserved e.length → page.usage ≠ .free
  balance : s.vmstat.total - s.vmstat.used = BitVec.ofNat 64 (s.buddyFreelist 0).length

def Owned (s : State) (p : PagePtr) : Prop :=
  ∃ page e, s.page? p = some page ∧ page.usage ≠ .free ∧ s.extents[p.region]? = some e
    ∧ reserved e.length ≤ p.index

theorem Shaped.pg2p_eq (h : Shaped s) {page : Page} (hp : s.page? p = some page)
    : ∃ e, s.extents[p.region]? = some e ∧ p.index < e.length
      ∧ (pg2p page).toNat = e.base.toNat + 2 ^ 12 * p.index := by
  obtain ⟨e, he, hlt, hpfn, _⟩ := h.page p page hp
  have hok := h.extent e (List.mem_of_getElem? he)
  have := hok.aligned
  have := hok.physical
  refine ⟨e, he, hlt, ?_⟩
  unfold pg2p
  rw [BitVec.toNat_shiftLeft, BitVec.toNat_setWidth, hpfn, Nat.shiftLeft_eq]
  omega

theorem Shaped.eq_of_has (h : Shaped s) {j : Nat} {e' : Extent} (hi : s.extents[i]? = some e)
    (hj : s.extents[j]? = some e') (hx : e.Has x) (hx' : e'.Has x)
    : i = j := by
  have hpair := List.pairwise_iff_getElem.mp h.apart
  obtain ⟨hi', rfl⟩ := List.getElem?_eq_some_iff.mp hi
  obtain ⟨hj', rfl⟩ := List.getElem?_eq_some_iff.mp hj
  by_contra hne
  cases Nat.lt_or_gt_of_ne hne with
  | inl hlt => exact hpair i j hi' hj' hlt x hx hx'
  | inr hlt => exact hpair j i hj' hi' hlt x hx' hx

theorem Shaped.eq_of_frame (h : Shaped s) (hp : s.page? p = some a) (hq : s.page? q = some b)
    (ha : (pg2p a).toNat ≤ x ∧ x < (pg2p a).toNat + 2 ^ 12)
    (hb : (pg2p b).toNat ≤ x ∧ x < (pg2p b).toNat + 2 ^ 12)
    : p = q := by
  obtain ⟨e, he, hlt, haddr⟩ := h.pg2p_eq hp
  obtain ⟨e', he', hlt', haddr'⟩ := h.pg2p_eq hq
  rw [haddr] at ha
  rw [haddr'] at hb
  have hregion : p.region = q.region := by
    apply h.eq_of_has he he' (x := x)
    . unfold Extent.Has
      omega
    . unfold Extent.Has
      omega
  rw [hregion, he'] at he
  cases he
  have hindex : p.index = q.index := by omega
  cases p
  cases q
  cases hregion
  cases hindex
  rfl

theorem Shaped.pg2p_inj (h : Shaped s) (hp : s.page? p = some a) (hq : s.page? q = some b)
    (heq : pg2p a = pg2p b)
    : p = q := by
  apply h.eq_of_frame hp hq (x := (pg2p a).toNat)
  . omega
  . rw [heq]
    omega

theorem Shaped.of_eq (h : Shaped s) (hextents : s'.extents = s.extents)
    (hpage : ∀ p page', s'.page? p = some page' → ∃ page, s.page? p = some page
      ∧ page'.pfn = page.pfn ∧ page'.order = page.order)
    : Shaped s' := by
  constructor
  . rw [hextents]
    exact h.extent
  . rw [hextents]
    exact h.apart
  . intro p page' hp
    obtain ⟨page, hpage, hpfn, horder⟩ := hpage p page' hp
    rw [hextents, hpfn, horder]
    exact h.page p page hpage

theorem Shaped.setUsage (h : Shaped s) (p : PagePtr) (usage : PageUse)
    : Shaped (s.setUsage p usage) := by
  apply h.of_eq (State.extents_setUsage s p usage)
  intro q page' hq
  rw [State.page?_setUsage] at hq
  obtain ⟨page, hpage, rfl⟩ := Option.map_eq_some_iff.mp hq
  refine ⟨page, hpage, ?_⟩
  split
  . exact ⟨rfl, rfl⟩
  . exact ⟨rfl, rfl⟩

theorem pmAllocate_eq_ok (h : pmAllocate cfg s usage = .ok (p, s'))
    : ∃ rest, s.buddyFreelist 0 = p :: rest
      ∧ s' = { s.setUsage p usage with
          buddyFreelist := Function.update s.buddyFreelist 0 rest
          vmstat.used := s.vmstat.used + 1 } := by
  unfold pmAllocate pmAllocateN at h
  obtain ⟨_, _, h⟩ := Except.bind_eq_ok h
  obtain ⟨_, _, h⟩ := Except.bind_eq_ok h
  cases hlist : s.buddyFreelist 0 with
  | nil =>
    rw [hlist] at h
    cases h
  | cons q rest =>
    rw [hlist] at h
    cases h
    refine ⟨rest, rfl, ?_⟩
    simp [State.remove, State.setUsage, hlist]

theorem Ok.allocate (h : Ok s) (husage : usage ≠ .free) (ha : pmAllocate cfg s usage = .ok (p, s'))
    : Ok s' := by
  obtain ⟨rest, hlist, rfl⟩ := pmAllocate_eq_ok ha
  have hnodup := h.nodup
  rw [hlist, List.nodup_cons] at hnodup
  constructor
  . exact (h.shaped.setUsage p usage).of_eq rfl (fun q page hq => ⟨page, hq, rfl, rfl⟩)
  . simpa using hnodup.2
  . intro q
    have hq := h.free q
    rw [hlist, List.mem_cons] at hq
    change q ∈ Function.update s.buddyFreelist 0 rest 0
      ↔ ∃ page, (s.setUsage p usage).page? q = some page ∧ page.usage = .free
    rw [Function.update_self, State.page?_setUsage]
    by_cases hqp : q = p
    . subst hqp
      simp only [hnodup.1, if_true, Option.map_eq_some_iff, false_iff]
      rintro ⟨_, ⟨page, _, rfl⟩, hfree⟩
      exact husage hfree
    . simpa [hqp] using hq
  . intro q page e hq he hlt
    change (s.setUsage p usage).page? q = some page at hq
    change (s.setUsage p usage).extents[q.region]? = some e at he
    rw [State.extents_setUsage] at he
    rw [State.page?_setUsage] at hq
    obtain ⟨page', hpage', rfl⟩ := Option.map_eq_some_iff.mp hq
    split
    . exact husage
    . exact h.metadata q page' e hpage' he hlt
  . have hbal := h.balance
    rw [hlist, List.length_cons, BitVec.ofNat_add] at hbal
    change s.vmstat.total - (s.vmstat.used + 1)
      = BitVec.ofNat 64 (Function.update s.buddyFreelist 0 rest 0).length
    rw [Function.update_self, ← BitVec.sub_sub, hbal]
    exact BitVec.add_sub_cancel _ _

theorem pmFree_eq (cfg : Config) (s : State) (p : PagePtr)
    : pmFree cfg s p
        =
      .ok { s.setUsage p .free with
        buddyFreelist := Function.update s.buddyFreelist 0 (s.buddyFreelist 0 ++ [p])
        vmstat.used := s.vmstat.used - 1 } := by
  unfold pmFree pmFreeN
  rw [beq_self_eq_true, check_true, Except.ok_bind]
  rfl

theorem Ok.pmFree (h : Ok s) (howned : Owned s p) (hfree : pmFree cfg s p = .ok s') : Ok s' := by
  obtain ⟨page, e, hp, husage, he, hindex⟩ := howned
  rw [pmFree_eq] at hfree
  cases hfree
  have hnot : p ∉ s.buddyFreelist 0 := by
    rw [h.free p]
    rintro ⟨page', hpage', hfree'⟩
    rw [hp] at hpage'
    cases hpage'
    exact husage hfree'
  constructor
  . exact (h.shaped.setUsage p .free).of_eq rfl (fun q page hq => ⟨page, hq, rfl, rfl⟩)
  . simp only [Function.update_self]
    rw [List.nodup_append]
    refine ⟨h.nodup, List.nodup_singleton p, ?_⟩
    intro q hq q' hq'
    rw [List.mem_singleton] at hq'
    rintro rfl
    exact hnot (hq' ▸ hq)
  . intro q
    change q ∈ Function.update s.buddyFreelist 0 (s.buddyFreelist 0 ++ [p]) 0
      ↔ ∃ page, (s.setUsage p .free).page? q = some page ∧ page.usage = .free
    rw [Function.update_self, State.page?_setUsage, List.mem_append, List.mem_singleton, h.free q]
    by_cases hqp : q = p
    . subst hqp
      simp [hp]
    . simp [hqp]
  . intro q page' e' hq he' hlt
    change (s.setUsage p .free).page? q = some page' at hq
    change (s.setUsage p .free).extents[q.region]? = some e' at he'
    rw [State.extents_setUsage] at he'
    rw [State.page?_setUsage] at hq
    obtain ⟨page'', hpage'', rfl⟩ := Option.map_eq_some_iff.mp hq
    by_cases hqp : q = p
    . subst hqp
      rw [he] at he'
      cases he'
      omega
    . rw [if_neg hqp]
      exact h.metadata q page'' e' hpage'' he' hlt
  . change s.vmstat.total - (s.vmstat.used - 1)
      = BitVec.ofNat 64 (Function.update s.buddyFreelist 0 (s.buddyFreelist 0 ++ [p]) 0).length
    rw [Function.update_self, List.length_append, List.length_singleton, BitVec.ofNat_add,
      ← h.balance]
    bv_omega

def pageCount (length : BitVec 64) : Nat := length.toNat / 2 ^ 12

theorem toNat_pageCount (length : BitVec 64) : (length / 0x1000).toNat = pageCount length := by
  exact BitVec.toNat_udiv

structure Fits (base length : BitVec 64) : Prop where
  aligned : base.toNat % 2 ^ 12 = 0
  whole : length.toNat % 2 ^ 12 = 0
  nonzero : length.toNat ≠ 0
  physical : base.toNat + length.toNat ≤ 2 ^ 52

def newExtent (base length : BitVec 64) : Extent := ⟨base, length / 0x1000, pageCount length⟩

theorem extent_newRegion (base length : BitVec 64)
    : (newRegion base length).extent = newExtent base length := by
  unfold newRegion Region.extent newExtent
  rw [List.length_map, List.length_range, toNat_pageCount]

theorem Fits.pageCount_ne (h : Fits base length) : pageCount length ≠ 0 := by
  have := h.whole
  have := h.nonzero
  unfold pageCount
  omega

theorem Fits.newExtent_ok (h : Fits base length) : (newExtent base length).Ok := by
  have := h.whole
  have := h.physical
  constructor
  . exact h.aligned
  . simp only [newExtent, pageCount]
    omega
  . exact toNat_pageCount length
  . exact h.pageCount_ne

theorem Fits.toNat_used (h : Fits base length)
    : (regionUsed length / 0x1000).toNat = reserved (pageCount length) := by
  have := h.whole
  have := h.physical
  have hused := toNat_regionUsed (show length.toNat = 2 ^ 12 * pageCount length by
    unfold pageCount
    omega) (by omega)
  rw [BitVec.toNat_udiv, hused]
  exact Nat.mul_div_cancel_left _ (by decide)

theorem reserved_le {n : Nat} (h : n ≠ 0) : reserved n ≤ n := by
  unfold reserved
  omega

theorem Fits.newPage (h : Fits base length) (hi : i < pageCount length)
    : (newPage base (regionUsed length) i).pfn.toNat = base.toNat / 2 ^ 12 + i
      ∧ (newPage base (regionUsed length) i).order = 0
      ∧ ((newPage base (regionUsed length) i).usage = .free
        ↔ reserved (pageCount length) ≤ i) := by
  have := h.aligned
  have := h.physical
  have : pageCount length ≤ 2 ^ 40 := by
    unfold pageCount
    omega
  refine ⟨?_, rfl, ?_⟩
  . have hsum : (base + BitVec.ofNat 64 i * 0x1000).toNat = base.toNat + i * 2 ^ 12 := by
      rw [BitVec.toNat_add, BitVec.toNat_mul, BitVec.toNat_ofNat]
      change (base.toNat + i % 2 ^ 64 * 4096 % 2 ^ 64) % 2 ^ 64 = base.toNat + i * 2 ^ 12
      omega
    unfold Pm.newPage
    rw [BitVec.toNat_setWidth, BitVec.toNat_ushiftRight, hsum, Nat.shiftRight_eq_div_pow]
    omega
  . have hlt : BitVec.ofNat 64 i < regionUsed length / 0x1000
        ↔ i < reserved (pageCount length) := by
      rw [BitVec.lt_def, h.toNat_used, BitVec.toNat_ofNat]
      omega
    unfold Pm.newPage
    rw [← Nat.not_lt, ← hlt]
    simp

theorem getElem?_newRegion (base length : BitVec 64) (i : Nat)
    : (newRegion base length).pages[i]?
        = if i < pageCount length then some (newPage base (regionUsed length) i) else none := by
  unfold newRegion
  rw [List.getElem?_map, toNat_pageCount]
  split
  . next hlt => rw [List.getElem?_range hlt, Option.map_some]
  . next hge => rw [List.getElem?_eq_none (by simpa using hge), Option.map_none]

theorem foldl_insertTail {order : Nat → Nat} {region : Nat} {l : List Nat} (h : ∀ i ∈ l, order i = 0)
    (s : State)
    : (l.foldl (fun s i => s.insertTail (order i) ⟨region, i⟩) s).regionlist = s.regionlist
      ∧ (l.foldl (fun s i => s.insertTail (order i) ⟨region, i⟩) s).vmstat = s.vmstat
      ∧ (l.foldl (fun s i => s.insertTail (order i) ⟨region, i⟩) s).buddyFreelist 0
        = s.buddyFreelist 0 ++ l.map (PagePtr.mk region) := by
  induction l generalizing s with
  | nil => simp
  | cons i l ih =>
    obtain ⟨hregions, hstat, hlist⟩ :=
      ih (fun j hj => h j (List.mem_cons_of_mem i hj)) (s.insertTail (order i) ⟨region, i⟩)
    rw [List.foldl_cons, hregions, hstat, hlist]
    refine ⟨rfl, rfl, ?_⟩
    rw [h i List.mem_cons_self]
    simp [State.insertTail]

theorem pmAddRegion_cases (s : State) (base length : BitVec 64)
    : length - regionUsed length < 0x1000 * 2 ∧ pmAddRegion s base length = s
      ∨ ¬ length - regionUsed length < 0x1000 * 2
        ∧ (pmAddRegion s base length).regionlist = s.regionlist ++ [newRegion base length]
        ∧ (pmAddRegion s base length).buddyFreelist 0
          = s.buddyFreelist 0
            ++ (List.range' (regionUsed length / 0x1000).toNat
                (pageCount length - (regionUsed length / 0x1000).toNat)).map
              (PagePtr.mk s.regionlist.length)
        ∧ (pmAddRegion s base length).vmstat
          = ⟨s.vmstat.total + length / 0x1000,
              s.vmstat.used + regionUsed length / 0x1000⟩ := by
  unfold pmAddRegion
  dsimp only
  split
  . next hsmall => exact Or.inl ⟨hsmall, rfl⟩
  . next hlarge =>
    refine Or.inr ⟨hlarge, ?_⟩
    unfold insertPages
    have hlength : (newRegion base length).pages.length = pageCount length :=
      congrArg Extent.length (extent_newRegion base length)
    rw [hlength]
    have horder : ∀ i ∈ List.range' (regionUsed length / 0x1000).toNat
        (pageCount length - (regionUsed length / 0x1000).toNat),
        (newRegion base length).pages[i]?.elim 0 Page.order = 0 := by
      intro i _
      rw [getElem?_newRegion]
      split
      . rfl
      . rfl
    obtain ⟨hregions, hstat, hlist⟩ := foldl_insertTail horder { s with
      regionlist := s.regionlist ++ [newRegion base length]
      vmstat := ⟨s.vmstat.total + (newRegion base length).pagecnt,
        s.vmstat.used + regionUsed length / 0x1000⟩ }
    exact ⟨hregions, hlist, hstat⟩

theorem pmAddRegion_eq (s : State) (h : Fits base length)
    : pmAddRegion s base length = s
      ∨ (pmAddRegion s base length).regionlist = s.regionlist ++ [newRegion base length]
        ∧ (pmAddRegion s base length).buddyFreelist 0
          = s.buddyFreelist 0
            ++ (List.range' (reserved (pageCount length))
                (pageCount length - reserved (pageCount length))).map
              (PagePtr.mk s.regionlist.length)
        ∧ (pmAddRegion s base length).vmstat
          = ⟨s.vmstat.total + length / 0x1000,
              s.vmstat.used + regionUsed length / 0x1000⟩ := by
  rcases pmAddRegion_cases s base length with ⟨_, heq⟩ | ⟨_, hregions, hlist, hstat⟩
  . exact Or.inl heq
  . rw [h.toNat_used] at hlist
    exact Or.inr ⟨hregions, hlist, hstat⟩

theorem extents_append (h : s'.regionlist = s.regionlist ++ [newRegion base length])
    : s'.extents = s.extents ++ [newExtent base length] := by
  unfold State.extents
  rw [h, List.map_append, List.map_singleton, extent_newRegion]

theorem page?_append (h : s'.regionlist = s.regionlist ++ [newRegion base length]) (p : PagePtr)
    (page : Page)
    : s'.page? p = some page
        ↔ s.page? p = some page
          ∨ p.region = s.regionlist.length ∧ p.index < pageCount length
            ∧ page = newPage base (regionUsed length) p.index := by
  unfold State.page?
  rw [h, List.getElem?_append]
  split
  . next hlt =>
    simp
    omega
  . next hge =>
    rw [List.getElem?_eq_none (show s.regionlist.length ≤ p.region by omega),
      List.getElem?_singleton]
    by_cases hlast : p.region - s.regionlist.length = 0
    . rw [if_pos hlast, Option.bind_some, getElem?_newRegion]
      have : p.region = s.regionlist.length := by omega
      by_cases hindex : p.index < pageCount length
      . rw [if_pos hindex]
        simp [this, hindex, eq_comm]
      . simp [hindex]
    . rw [if_neg hlast]
      have : p.region ≠ s.regionlist.length := by omega
      simp [this]

theorem Ok.addRegion (h : Ok s) (hfits : Fits base length)
    (hapart : ∀ e ∈ s.extents, e.Disjoint (newExtent base length))
    : Ok (pmAddRegion s base length) := by
  cases pmAddRegion_eq s hfits with
  | inl heq =>
    rw [heq]
    exact h
  | inr heq =>
    obtain ⟨hregions, hlist, hstat⟩ := heq
    have hreserved := reserved_le hfits.pageCount_ne
    have hextents := extents_append hregions
    have hpage := page?_append hregions
    have hcount : s.extents.length = s.regionlist.length := List.length_map ..
    have hold : ∀ p page, s.page? p = some page → p.region < s.regionlist.length := by
      intro p page hp
      obtain ⟨r, hr, _⟩ := State.page?_eq_some hp
      exact (List.getElem?_eq_some_iff.mp hr).1
    have hlast : (s.extents ++ [newExtent base length])[s.regionlist.length]?
        = some (newExtent base length) := by
      rw [← hcount]
      simp
    constructor
    . constructor
      . rw [hextents]
        intro e he
        rw [List.mem_append, List.mem_singleton] at he
        cases he with
        | inl he => exact h.shaped.extent e he
        | inr he =>
          rw [he]
          exact hfits.newExtent_ok
      . rw [hextents, List.pairwise_append]
        refine ⟨h.shaped.apart, List.pairwise_singleton _ _, ?_⟩
        intro e he e' he'
        rw [List.mem_singleton] at he'
        rw [he']
        exact hapart e he
      . intro p page hp
        rw [hextents]
        cases (hpage p page).mp hp with
        | inl hp =>
          obtain ⟨e, he, hrest⟩ := h.shaped.page p page hp
          exact ⟨e, by rw [List.getElem?_append_left (List.getElem?_eq_some_iff.mp he).1, he],
            hrest⟩
        | inr hp =>
          obtain ⟨hregion, hindex, rfl⟩ := hp
          obtain ⟨hpfn, horder, _⟩ := hfits.newPage hindex
          exact ⟨newExtent base length, by rw [hregion, hlast], hindex, hpfn, horder⟩
    . rw [hlist, List.nodup_append]
      refine ⟨h.nodup, ?_, ?_⟩
      . apply List.Nodup.map
        . intro i j hij
          cases hij
          rfl
        . exact List.nodup_range'
      . intro p hp q hq
        obtain ⟨page, hpage, _⟩ := (h.free p).mp hp
        have := hold p page hpage
        obtain ⟨i, _, rfl⟩ := List.mem_map.mp hq
        rintro rfl
        exact absurd this (Nat.lt_irrefl _)
    . intro p
      rw [hlist, List.mem_append, h.free p]
      simp only [hpage, or_and_right, exists_or]
      apply or_congr Iff.rfl
      constructor
      . intro hp
        obtain ⟨i, hi, rfl⟩ := List.mem_map.mp hp
        rw [List.mem_range'_1] at hi
        have hindex : i < pageCount length := by omega
        exact ⟨_, ⟨rfl, hindex, rfl⟩, (hfits.newPage hindex).2.2.mpr hi.1⟩
      . rintro ⟨_, ⟨hregion, hindex, rfl⟩, hfree⟩
        have hge := (hfits.newPage hindex).2.2.mp hfree
        refine List.mem_map.mpr ⟨p.index, ?_, ?_⟩
        . rw [List.mem_range'_1]
          omega
        . rw [← hregion]
    . intro p page e hp he hlt
      rw [hextents] at he
      cases (hpage p page).mp hp with
      | inl hp =>
        rw [List.getElem?_append_left (by rw [hcount]; exact hold p page hp)] at he
        exact h.metadata p page e hp he hlt
      | inr hp =>
        obtain ⟨hregion, hindex, rfl⟩ := hp
        rw [hregion, hlast] at he
        cases he
        intro hfree
        have := (hfits.newPage hindex).2.2.mp hfree
        simp only [newExtent] at hlt
        omega
    . have hused := hfits.toNat_used
      have htotal := toNat_pageCount length
      have hphysical := hfits.physical
      rw [hlist, hstat, List.length_append, List.length_map, List.length_range', BitVec.ofNat_add,
        ← h.balance]
      have hdiff : BitVec.ofNat 64 (pageCount length - reserved (pageCount length))
          = length / 0x1000 - regionUsed length / 0x1000 := by
        apply BitVec.eq_of_toNat_eq
        rw [BitVec.toNat_ofNat, BitVec.toNat_sub, hused, htotal]
        omega
      rw [hdiff]
      exact add_sub_add_comm _ _ _ _

theorem Ok.not_owned (h : Ok s) (hp : p ∈ s.buddyFreelist 0) : ¬ Owned s p := by
  rintro ⟨page, e, hpage, husage, _⟩
  obtain ⟨page', hpage', hfree⟩ := (h.free p).mp hp
  rw [hpage] at hpage'
  cases hpage'
  exact husage hfree

theorem Ok.owned_allocate (h : Ok s) (husage : usage ≠ .free) (ha : pmAllocate cfg s usage = .ok (p, s'))
    : Owned s' q ↔ q = p ∨ Owned s q := by
  obtain ⟨rest, hlist, rfl⟩ := pmAllocate_eq_ok ha
  have hmem : p ∈ s.buddyFreelist 0 := by
    rw [hlist]
    exact List.mem_cons_self
  change (∃ page e, (s.setUsage p usage).page? q = some page ∧ page.usage ≠ .free
    ∧ (s.setUsage p usage).extents[q.region]? = some e ∧ reserved e.length ≤ q.index) ↔ _
  rw [State.extents_setUsage, State.page?_setUsage]
  by_cases hqp : q = p
  . subst hqp
    simp only [true_or, iff_true, if_true]
    obtain ⟨page, hpage, hfree⟩ := (h.free q).mp hmem
    obtain ⟨e, he, _⟩ := h.shaped.page q page hpage
    refine ⟨_, e, by rw [hpage, Option.map_some], husage, he, ?_⟩
    by_contra hlt
    exact h.metadata q page e hpage he (by omega) hfree
  . simp [hqp, Owned]

theorem owned_pmFree (hfree : pmFree cfg s p = .ok s') : Owned s' q ↔ q ≠ p ∧ Owned s q := by
  rw [pmFree_eq] at hfree
  cases hfree
  change (∃ page e, (s.setUsage p .free).page? q = some page ∧ page.usage ≠ .free
    ∧ (s.setUsage p .free).extents[q.region]? = some e ∧ reserved e.length ≤ q.index) ↔ _
  rw [State.extents_setUsage, State.page?_setUsage]
  by_cases hqp : q = p
  . subst hqp
    simp only [ne_eq, not_true_eq_false, false_and, iff_false, if_true]
    rintro ⟨_, e, hpage, husage, _⟩
    obtain ⟨page, _, rfl⟩ := Option.map_eq_some_iff.mp hpage
    exact husage rfl
  . simp [hqp, Owned]

theorem Owned.addRegion (hfits : Fits base length) (h : Owned s p)
    : Owned (pmAddRegion s base length) p := by
  cases pmAddRegion_eq s hfits with
  | inl heq =>
    rw [heq]
    exact h
  | inr heq =>
    obtain ⟨page, e, hpage, husage, he, hindex⟩ := h
    refine ⟨page, e, (page?_append heq.1 p page).mpr (Or.inl hpage), husage, ?_, hindex⟩
    rw [extents_append heq.1, List.getElem?_append_left (List.getElem?_eq_some_iff.mp he).1, he]

theorem ok_pmInit : Ok pmInit := by
  constructor
  . constructor
    . intro e he
      cases he
    . exact List.Pairwise.nil
    . intro p page hp
      cases hp
  . exact List.nodup_nil
  . intro p
    simp [pmInit, State.page?]
  . intro p page e hp
    cases hp
  . rfl

theorem Region.contains_iff {r : Region} (h : r.extent.Ok)
    : r.contains paddr = true ↔ r.extent.Has paddr.toNat := by
  have hcount : r.pagecnt.toNat = r.pages.length := h.count
  have hphysical : r.base.toNat + 2 ^ 12 * r.pages.length ≤ 2 ^ 52 := h.physical
  have hsum : (r.base + r.pagecnt * 0x1000).toNat = r.base.toNat + 2 ^ 12 * r.pages.length := by
    rw [BitVec.toNat_add, BitVec.toNat_mul, hcount]
    change (r.base.toNat + r.pages.length * 4096 % 2 ^ 64) % 2 ^ 64 = _
    omega
  unfold Region.contains Extent.Has
  rw [Bool.and_eq_true, decide_eq_true_eq, decide_eq_true_eq, BitVec.le_def, BitVec.lt_def, hsum]
  rfl

theorem State.getElem?_extents (s : State) (i : Nat)
    : s.extents[i]? = s.regionlist[i]?.map Region.extent := by
  unfold State.extents
  rw [List.getElem?_map]

theorem Shaped.pmLookupRegion_eq (h : Shaped s) (he : s.extents[i]? = some e) (hhas : e.Has paddr.toNat)
    : pmLookupRegion s paddr = some i := by
  have hok : ∀ r ∈ s.regionlist, r.extent.Ok :=
    fun r hr => h.extent _ (List.mem_map_of_mem hr)
  have he' := he
  rw [State.getElem?_extents] at he'
  obtain ⟨r, hr, rfl⟩ := Option.map_eq_some_iff.mp he'
  obtain ⟨hbound, hget⟩ := List.getElem?_eq_some_iff.mp hr
  unfold pmLookupRegion
  rw [List.findIdx?_eq_some_iff_getElem]
  refine ⟨hbound, ?_, ?_⟩
  . rw [hget, Region.contains_iff (hok r (List.mem_of_getElem? hr))]
    exact hhas
  . intro j hj hcontains
    -- an earlier region that has the address would be the same one
    have hrj := List.getElem?_eq_getElem (Nat.lt_trans hj hbound)
    have hhas' := (Region.contains_iff (hok _ (List.mem_of_getElem? hrj))).mp hcontains
    have := h.eq_of_has (by rw [State.getElem?_extents, hrj]; rfl) he hhas' hhas
    omega

theorem Shaped.pmLookup_eq (h : Shaped s) {page : Page} (hp : s.page? p = some page)
    (hpaddr : (pg2p page).toNat ≤ paddr.toNat ∧ paddr.toNat < (pg2p page).toNat + 2 ^ 12)
    : pmLookup s paddr = some p := by
  obtain ⟨e, he, hlt, haddr⟩ := h.pg2p_eq hp
  rw [haddr] at hpaddr
  have hhas : e.Has paddr.toNat := by
    unfold Extent.Has
    omega
  have hregion := h.pmLookupRegion_eq he hhas
  rw [State.getElem?_extents] at he
  obtain ⟨r, hr, rfl⟩ := Option.map_eq_some_iff.mp he
  have hindex : ((paddr - r.base) / 0x1000).toNat = p.index := by
    have hbase : r.extent.base.toNat = r.base.toNat := rfl
    rw [BitVec.toNat_udiv, BitVec.toNat_sub]
    change (2 ^ 64 - r.base.toNat + paddr.toNat) % 2 ^ 64 / 4096 = p.index
    omega
  unfold pmLookup
  rw [hregion]
  simp only [Option.bind_eq_bind, Option.bind_some, hr, hindex]

end Pm
end Nyy
