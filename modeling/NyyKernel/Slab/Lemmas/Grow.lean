import NyyKernel.Slab.Lemmas.Exchange

namespace Nyy
namespace Slab

variable {μ : Type}

structure Fresh (env : KmemEnv) : Prop where
  addr : ∀ ranges n a, env ranges n = some a →
    pageSize ∣ a ∧ 0 < a ∧ a + n * pageSize < 2 ^ 64
  apart : ∀ ranges n a, env ranges n = some a → ∀ r ∈ ranges,
    Apart a (n * pageSize) r.1 (r.2 * pageSize)

namespace Kmem

structure Unowned (s : Kmem μ) (created : List Nat) (a : Nat) : Prop where
  range : ∃ n, (a, n) ∈ s.ranges
  cache : a ∉ created
  slab : ∀ cp ∈ created, ∀ sp ∈ s.slabs cp, s.chunkBase sp ≠ a

structure Stable (s s' : Kmem μ) : Prop where
  slabCache : s'.slabCache = s.slabCache
  bufctlCache : s'.bufctlCache = s.bufctlCache
  ranges : s.ranges ⊆ s'.ranges
  geometry : ∀ cp, (s'.cache cp).geometry = (s.cache cp).geometry
  constructor : ∀ cp, (s'.cache cp).constructor = (s.cache cp).constructor

structure Kept (s s' : Kmem μ) (created : List Nat) (held : Set (Nat × Nat)) : Prop where
  stable : Stable s s'
  bufctl : s'.bufctl = s.bufctl
  slab : ∀ x, (s.slabCache, x) ∈ held → s'.slab x = s.slab x
  unowned : ∀ a, Unowned s created a → Unowned s' created a

section

variable {s s' s2 : Kmem μ} {created : List Nat} {used used' : Nat → List Nat} {held : Set (Nat × Nat)}
  {cp cp' sp sp' x a n : Nat}

theorem Stable.refl (s : Kmem μ) : Stable s s :=
  ⟨rfl, rfl, fun _ hr => hr, fun _ => rfl, fun _ => rfl⟩

theorem Stable.trans (h : Stable s s') (h' : Stable s' s2) : Stable s s2 := by
  constructor
  . rw [h'.slabCache, h.slabCache]
  . rw [h'.bufctlCache, h.bufctlCache]
  . exact fun r hr => h'.ranges (h.ranges hr)
  . intro cp
    rw [h'.geometry, h.geometry]
  . intro cp
    rw [h'.constructor, h.constructor]

theorem Stable.chunksize (h : Stable s s') (cp : Nat)
    : (s'.cache cp).chunksize = (s.cache cp).chunksize := by
  exact congrArg Prod.fst (h.geometry cp)

theorem Kept.trans (h : Kept s s' created held) (h' : Kept s' s2 created held)
    : Kept s s2 created held := by
  constructor
  . exact h.stable.trans h'.stable
  . rw [h'.bufctl, h.bufctl]
  . intro x hx
    have hx' : (s'.slabCache, x) ∈ held := by rwa [h.stable.slabCache]
    rw [h'.slab x hx', h.slab x hx]
  . exact fun a ha => h'.unowned a (h.unowned a ha)

section Kalloc

variable {env : KmemEnv}

theorem vmKalloc_cases (hf : Fresh env) (h : RangesOk s.ranges) (hn : 0 < n)
    : vmKalloc env s n = .error .noMemory ∨
        ∃ a, vmKalloc env s n = .ok (a, { s with ranges := (a, n) :: s.ranges }) ∧
          RangesOk ((a, n) :: s.ranges) ∧
          ∀ r ∈ s.ranges, Apart a (n * pageSize) r.1 (r.2 * pageSize) := by
  unfold vmKalloc
  cases ha : env s.ranges n with
  | none => exact .inl rfl
  | some a =>
    have hapart := hf.apart _ _ _ ha
    refine .inr ⟨a, rfl, ?_, hapart⟩
    constructor
    . simp only [List.forall_mem_cons]
      exact ⟨hn, h.count⟩
    . simp only [List.forall_mem_cons]
      exact ⟨hf.addr _ _ _ ha, h.addr⟩
    . simp only [List.forall_mem_cons]
      refine ⟨⟨fun hne => absurd rfl hne, fun r hr _ => hapart r hr⟩, ?_⟩
      intro r hr
      exact ⟨fun _ => (hapart r hr).symm, h.apart r hr⟩

theorem ne_of_apart (h : RangesOk s.ranges) (hn : 0 < n)
    (hapart : ∀ r ∈ s.ranges, Apart a (n * pageSize) r.1 (r.2 * pageSize)) {r : Nat × Nat}
    (hr : r ∈ s.ranges)
    : r.1 ≠ a := by
  have hpos : ∀ k, 0 < k → 0 < k * pageSize := fun k hk => Nat.mul_pos hk (by decide)
  exact ((hapart r hr).ne (hpos n hn) (hpos r.2 (h.count r hr))).symm

theorem Inv.kalloc (h : Inv s created used held) (hranges : RangesOk ((a, n) :: s.ranges))
    : Inv { s with ranges := (a, n) :: s.ranges } created used held := by
  refine h.frame ?_ hranges
  exact ⟨fun _ _ => rfl, fun _ _ _ _ => rfl, fun _ _ _ _ _ _ _ => rfl, rfl, rfl,
    fun _ hr => List.mem_cons_of_mem _ hr⟩

theorem Core.unowned (h : Core s created used) (hn : 0 < n)
    (hapart : ∀ r ∈ s.ranges, Apart a (n * pageSize) r.1 (r.2 * pageSize))
    : Unowned { s with ranges := (a, n) :: s.ranges } created a := by
  constructor
  . exact ⟨n, List.mem_cons_self⟩
  . intro ha
    exact ne_of_apart h.ranges hn hapart (h.descr a ha) rfl
  . intro cp hcp sp hsp
    exact ne_of_apart h.ranges hn hapart (h.slabOk hcp hsp).range

theorem Inv.held_apart (h : Inv s created used held) (hheld : Allocated s used cp x) (hcp : cp ∈ created)
    (hapart : ∀ r ∈ s.ranges, Apart a (n * pageSize) r.1 (r.2 * pageSize))
    : Apart a (n * pageSize) x (s.cache cp).chunksize := by
  rcases hheld with ⟨sp, hsp, y, hy, rfl⟩
  have hin := h.core.inside hcp hsp (List.mem_append_right _ hy)
  exact (hapart _ (h.core.slabOk hcp hsp).range).mono (Nat.le_refl _) (Nat.le_refl _) hin.1 hin.2

end Kalloc

section Link

def linked (s : Kmem μ) (cp sp : Nat) : Set (Nat × Nat) :=
  { p | kmemSmallMax < (s.cache cp).chunksize ∧
    ((p.1 = s.slabCache ∧ p.2 = sp) ∨ (p.1 = s.bufctlCache ∧ p.2 ∈ (s.slab sp).freelist)) }

def link (s : Kmem μ) (cp sp : Nat) : Kmem μ :=
  s.setCache cp { s.cache cp with slablist := sp :: (s.cache cp).slablist }

theorem link_cache (s : Kmem μ) (sp : Nat) (h : cp' ≠ cp)
    : (s.link cp sp).cache cp' = s.cache cp' := by
  exact Function.update_of_ne h ..

theorem link_geometry (s : Kmem μ) (cp sp cp' : Nat)
    : ((s.link cp sp).cache cp').geometry = (s.cache cp').geometry := by
  by_cases h : cp' = cp
  . subst h
    simp [link, setCache, KmemCache.geometry]
  . rw [link_cache s sp h]

theorem link_constructor (s : Kmem μ) (cp sp cp' : Nat)
    : ((s.link cp sp).cache cp').constructor = (s.cache cp').constructor := by
  by_cases h : cp' = cp
  . subst h
    simp [link, setCache]
  . rw [link_cache s sp h]

theorem link_chunksize (s : Kmem μ) (cp sp cp' : Nat)
    : ((s.link cp sp).cache cp').chunksize = (s.cache cp').chunksize := by
  exact congrArg Prod.fst (link_geometry s cp sp cp')

theorem mem_slabs_link {y : Nat}
    : y ∈ (s.link cp sp).slabs cp' ↔ (cp' = cp ∧ y = sp) ∨ y ∈ s.slabs cp' := by
  by_cases h : cp' = cp
  . subst h
    simp [slabs, link, setCache]
  . rw [slabs_congr (link_cache s sp h)]
    simp [h]

theorem link_obj (s : Kmem μ) (cp sp cp' x : Nat) : (s.link cp sp).obj cp' x = s.obj cp' x := by
  unfold obj
  rw [link_chunksize]
  rfl

theorem link_stable (s : Kmem μ) (cp sp : Nat) : Stable s (s.link cp sp) :=
  ⟨rfl, rfl, fun _ hr => hr, link_geometry s cp sp, link_constructor s cp sp⟩

def fresh (used : Nat → List Nat) (sp : Nat) : Nat → List Nat := Function.update used sp []

theorem fresh_self (used : Nat → List Nat) (sp : Nat) : fresh used sp sp = [] := by
  exact Function.update_self ..

theorem fresh_of_ne (used : Nat → List Nat) (h : sp' ≠ sp) : fresh used sp sp' = used sp' := by
  exact Function.update_of_ne h ..

structure Prepared (s : Kmem μ) (created : List Nat) (cp sp : Nat) : Prop where
  slab : SlabOk s cp sp []
  loose : ∀ cp' ∈ created, sp ∉ s.slabs cp'
  base : Unowned s created (s.chunkBase sp)

theorem slabs_link (s : Kmem μ) (cp sp : Nat) : (s.link cp sp).slabs cp = sp :: s.slabs cp := by
  simp [slabs, link, setCache]

theorem slabOk_link {u : List Nat} : SlabOk (s.link cp sp) cp' sp' u ↔ SlabOk s cp' sp' u := by
  have hgeom := link_geometry s cp sp cp'
  constructor
  . exact fun h => h.congr hgeom.symm rfl (fun _ _ _ => rfl) fun _ hr => hr
  . exact fun h => h.congr hgeom rfl (fun _ _ _ => rfl) fun _ hr => hr

theorem forall_slabs_link {P : Nat → List Nat → Prop} (hne : ∀ sp' ∈ s.slabs cp', sp' ≠ sp)
    : (∀ sp' ∈ (s.link cp sp).slabs cp', P sp' (fresh used sp sp')) ↔
        (cp' = cp → P sp []) ∧ ∀ sp' ∈ s.slabs cp', P sp' (used sp') := by
  simp only [mem_slabs_link, or_imp, forall_and, and_imp, forall_comm (α := Nat), forall_eq]
  refine and_congr (by rw [fresh_self]) (forall₂_congr fun sp' hsp' => ?_)
  rw [fresh_of_ne used (hne sp' hsp')]

theorem exists_slabs_link {P : List Nat → Prop} (hne : ∀ sp' ∈ s.slabs cp', sp' ≠ sp) (hnil : ¬ P [])
    : (∃ sp' ∈ (s.link cp sp).slabs cp', P (fresh used sp sp')) ↔ ∃ sp' ∈ s.slabs cp', P (used sp') := by
  have h : (∀ sp' ∈ (s.link cp sp).slabs cp', ¬ P (fresh used sp sp')) ↔ _ :=
    forall_slabs_link (P := fun _ u => ¬ P u) hne
  rw [← not_iff_not]
  push Not
  simpa [hnil] using h

theorem cacheOk_link (hne : ∀ sp' ∈ s.slabs cp', sp' ≠ sp) (hslab : SlabOk s cp sp [])
    : CacheOk (s.link cp sp) (fresh used sp) cp' ↔ CacheOk s used cp' := by
  have hused : ∀ sp' ∈ s.slabs cp', fresh used sp sp' = used sp' := fun sp' hsp' =>
    fresh_of_ne used (hne sp' hsp')
  by_cases heq : cp' = cp
  . subst heq
    have hgeom := link_geometry s cp' sp cp'
    have hok : ((s.link cp' sp).cache cp').GeometryOk ↔ (s.cache cp').GeometryOk :=
      ⟨fun h => h.congr hgeom.symm, fun h => h.congr hgeom⟩
    have hcap : ((s.link cp' sp).cache cp').slabcap = (s.cache cp').slabcap :=
      congrArg (fun g => g.2.1) hgeom
    have hlists : ((s.link cp' sp).cache cp').slablist = sp :: (s.cache cp').slablist ∧
        ((s.link cp' sp).cache cp').fullSlablist = (s.cache cp').fullSlablist ∧
        ((s.link cp' sp).cache cp').buflist = (s.cache cp').buflist := by
      simp [Kmem.link, setCache]
    have hloose : sp ∉ s.slabs cp' := fun h => hne sp h rfl
    rw [cacheOk_iff, cacheOk_iff, hok, hcap, hlists.1, hlists.2.1, hlists.2.2, link_chunksize]
    refine and_congr_right fun hgeometry => ?_
    refine and_congr ?_ (and_congr ?_ (and_congr ?_ (and_congr ?_ (and_congr Iff.rfl ?_))))
    . rw [slabs_link, List.nodup_cons, and_iff_right hloose]
    . rw [forall_slabs_link (P := fun sp' u => SlabOk (s.link cp' sp) cp' sp' u) hne,
        and_iff_right fun _ => slabOk_link.mpr hslab]
      simp only [slabOk_link]
    . rw [List.forall_mem_cons, fresh_self, List.length_nil, and_iff_right hgeometry.slabcap]
      refine forall₂_congr fun sp' hsp' => ?_
      rw [hused sp' (List.mem_append_left _ hsp')]
    . refine forall₂_congr fun sp' hsp' => ?_
      rw [hused sp' (List.mem_append_right _ hsp')]
    . refine forall₂_congr fun _ x => ?_
      rw [exists_slabs_link (P := fun u => x ∈ u) hne List.not_mem_nil]
  . have hcache := link_cache s sp heq
    have hslabs := slabs_congr hcache
    constructor
    . intro h
      refine h.congr hcache.symm (fun sp' hsp' => ?_) fun sp' hsp' => slabOk_link.mp (h.slab sp' hsp')
      rw [hslabs] at hsp'
      exact (hused sp' hsp').symm
    . exact fun h => h.congr hcache hused fun sp' hsp' => slabOk_link.mpr (h.slab sp' hsp')

theorem core_link (hp : Prepared s created cp sp)
    : Core (s.link cp sp) created (fresh used sp) ↔ Core s created used := by
  have hne : ∀ cp' ∈ created, ∀ sp' ∈ s.slabs cp', sp' ≠ sp := by
    rintro cp' hcp' sp' hsp' rfl
    exact hp.loose cp' hcp' hsp'
  have hbase : (s.link cp sp).chunkBase = s.chunkBase := rfl
  rw [core_iff, core_iff, hbase]
  refine and_congr Iff.rfl (and_congr ?_ (and_congr Iff.rfl (and_congr ?_ (and_congr ?_ ?_))))
  . exact forall₂_congr fun cp' hcp' => cacheOk_link (hne cp' hcp') hp.slab
  . refine forall₂_congr fun cp' hcp' => ?_
    constructor
    . exact fun h sp' hsp' => h sp' (mem_slabs_link.mpr (.inr hsp'))
    . intro h sp' hsp' cp2 hcp2
      rcases mem_slabs_link.mp hsp' with ⟨_, rfl⟩ | hsp'
      . rintro rfl
        exact hp.base.cache hcp2
      . exact h sp' hsp' cp2 hcp2
  . constructor
    . intro h cp1 hcp1 sp1 hsp1 cp2 hcp2 sp2 hsp2
      exact h cp1 hcp1 sp1 (mem_slabs_link.mpr (.inr hsp1)) cp2 hcp2 sp2 (mem_slabs_link.mpr (.inr hsp2))
    . intro h cp1 hcp1 sp1 hsp1 cp2 hcp2 sp2 hsp2 heq
      rcases mem_slabs_link.mp hsp1 with ⟨_, rfl⟩ | hold1
      . rcases mem_slabs_link.mp hsp2 with ⟨_, rfl⟩ | hold2
        . rfl
        . exact absurd heq.symm (hp.base.slab cp2 hcp2 sp2 hold2)
      . rcases mem_slabs_link.mp hsp2 with ⟨_, rfl⟩ | hold2
        . exact absurd heq (hp.base.slab cp1 hcp1 sp1 hold1)
        . exact h cp1 hcp1 sp1 hold1 cp2 hcp2 sp2 hold2 heq
  . constructor
    . intro h
      refine ⟨h.slabCache, h.bufctlCache, h.ne, fun cp' hcp' => ?_⟩
      have hold := h.small cp' hcp'
      rwa [link_chunksize, link_constructor] at hold
    . intro h
      refine ⟨h.slabCache, h.bufctlCache, h.ne, fun cp' hcp' => ?_⟩
      rw [link_chunksize, link_constructor]
      exact h.small cp' hcp'

theorem allocated_link (hcp' : cp' ∈ created) (hp : Prepared s created cp sp)
    : Allocated (s.link cp sp) (fresh used sp) cp' x ↔ Allocated s used cp' x := by
  unfold Allocated
  simp only [link_obj]
  refine exists_slabs_link (P := fun u => ∃ y ∈ u, s.obj cp' y = x) ?_ (by simp)
  rintro sp' hsp' rfl
  exact hp.loose cp' hcp' hsp'

theorem largeSlab_link (hcp : cp ∈ created)
    : LargeSlab (s.link cp sp) created sp' ↔
        (kmemSmallMax < (s.cache cp).chunksize ∧ sp' = sp) ∨ LargeSlab s created sp' := by
  unfold LargeSlab
  simp only [link_chunksize, mem_slabs_link]
  constructor
  . rintro ⟨cp', hcp', hlarge, ⟨rfl, rfl⟩ | hsp'⟩
    . exact .inl ⟨hlarge, rfl⟩
    . exact .inr ⟨cp', hcp', hlarge, hsp'⟩
  . rintro (⟨hlarge, rfl⟩ | ⟨cp', hcp', hlarge, hsp'⟩)
    . exact ⟨cp, hcp, hlarge, .inl ⟨rfl, rfl⟩⟩
    . exact ⟨cp', hcp', hlarge, .inr hsp'⟩

theorem metaObj_link (hcp : cp ∈ created) (hp : Prepared s created cp sp)
    : Meta (s.link cp sp) created (fresh used sp) cp' x ↔
        (cp', x) ∈ linked s cp sp ∨ Meta s created used cp' x := by
  have hne : ∀ sp', LargeSlab s created sp' → sp' ≠ sp := by
    rintro sp' ⟨cp2, hcp2, _, hsp'⟩ rfl
    exact hp.loose cp2 hcp2 hsp'
  have hslab : (s.link cp sp).slab = s.slab := rfl
  have hslabCache : (s.link cp sp).slabCache = s.slabCache := rfl
  have hbufctlCache : (s.link cp sp).bufctlCache = s.bufctlCache := rfl
  unfold Meta linked
  simp only [largeSlab_link hcp, hslab, hslabCache, hbufctlCache, Set.mem_ofPred_eq]
  constructor
  . rintro (⟨rfl, ⟨hlarge, rfl⟩ | hsp'⟩ | ⟨rfl, sp', ⟨hlarge, rfl⟩ | hsp', hx⟩)
    . exact .inl ⟨hlarge, .inl ⟨rfl, rfl⟩⟩
    . exact .inr (.inl ⟨rfl, hsp'⟩)
    . rw [fresh_self, List.append_nil] at hx
      exact .inl ⟨hlarge, .inr ⟨rfl, hx⟩⟩
    . rw [fresh_of_ne used (hne sp' hsp')] at hx
      exact .inr (.inr ⟨rfl, sp', hsp', hx⟩)
  . rintro (⟨hlarge, ⟨rfl, rfl⟩ | ⟨rfl, hx⟩⟩ | ⟨rfl, hsp'⟩ | ⟨rfl, sp', hsp', hx⟩)
    . exact .inl ⟨rfl, .inl ⟨hlarge, rfl⟩⟩
    . refine .inr ⟨rfl, sp, .inl ⟨hlarge, rfl⟩, ?_⟩
      rw [fresh_self, List.append_nil]
      exact hx
    . exact .inl ⟨rfl, .inr hsp'⟩
    . refine .inr ⟨rfl, sp', .inr hsp', ?_⟩
      rwa [fresh_of_ne used (hne sp' hsp')]

theorem Inv.link (h : Inv s created used held) (hcp : cp ∈ created) (hp : Prepared s created cp sp)
    (hsub : linked s cp sp ⊆ held)
    : Inv (s.link cp sp) created (fresh used sp) (held \ linked s cp sp) := by
  constructor
  . exact (core_link hp).mpr h.core
  . intro cp' x hx
    exact h.heldCreated cp' x hx.1
  . intro cp' hcp' x
    rw [allocated_link hcp' hp, metaObj_link hcp hp, h.own cp' hcp', Set.mem_sdiff]
    constructor
    . rintro (hx | hx)
      . by_cases hl : (cp', x) ∈ linked s cp sp
        . exact .inr (.inl hl)
        . exact .inl ⟨hx, hl⟩
      . exact .inr (.inr hx)
    . rintro (hx | hl | hx)
      . exact .inl hx.1
      . exact .inl (hsub hl)
      . exact .inr hx
  . intro cp' x hx
    rw [metaObj_link hcp hp, not_or]
    exact ⟨hx.2, h.sep cp' x hx.1⟩

theorem linked_of_small (hsmall : (s.cache cp).chunksize ≤ kmemSmallMax)
    : linked s cp sp = ∅ := by
  ext p
  simp only [linked, Set.mem_ofPred_eq, Set.mem_empty_iff_false, iff_false, not_and]
  omega

theorem Unowned.link (h : Unowned s created a) (hne : s.chunkBase sp ≠ a)
    : Unowned (s.link cp sp) created a := by
  refine ⟨h.range, h.cache, ?_⟩
  intro cp' hcp' sp' hsp'
  rcases mem_slabs_link.mp hsp' with ⟨_, rfl⟩ | hsp'
  . exact hne
  . exact h.slab cp' hcp' sp' hsp'

end Link

section Small

variable {env : KmemEnv}

theorem foldl_cons_eq (f : Nat → Nat) (l acc : List Nat)
    : l.foldl (fun acc i => f i :: acc) acc = (l.map f).reverse ++ acc := by
  induction l generalizing acc with
  | nil => rfl
  | cons i l ih =>
    rw [List.foldl_cons, ih]
    simp

theorem small_freelist (pg size cap : Nat) (h : pg + cap * size < 2 ^ 64)
    : (List.range cap).foldl (fun freelist i => Word.add pg (Word.mul i size) :: freelist) [] =
        (Nyy.chunks pg size cap).reverse := by
  rw [foldl_cons_eq, List.append_nil]
  unfold Nyy.chunks
  congr 1
  apply List.map_congr_left
  intro i hi
  have hle : i * size ≤ cap * size := Nat.mul_le_mul_right size (List.mem_range.mp hi).le
  rw [Word.mul_eq (by omega), Word.add_eq (by omega)]

def header (pg : Nat) : Nat := pg + pageSize - sizeofSlab

section

variable (h : Inv s created used held)
  (hapart : ∀ r ∈ s.ranges, Apart a (1 * pageSize) r.1 (r.2 * pageSize))

include h hapart

theorem Inv.header_loose (hcp : cp ∈ created) : header a ∉ s.slabs cp := by
  intro hsp
  have hslab := h.core.slabOk hcp hsp
  have hsize : sizeofSlab < pageSize := by decide
  by_cases hlarge : kmemSmallMax < (s.cache cp).chunksize
  . -- the header of a large slab is an object, and those are in older pages
    have hmem := h.core.metaCaches.slabCache
    have hall : Allocated s used s.slabCache (header a) :=
      (h.own _ hmem _).mpr (.inr (.inl ⟨rfl, cp, hcp, hlarge, hsp⟩))
    have hpos := (h.core.cache _ hmem).geometry.chunksize
    have hout := h.held_apart hall hmem hapart
    have hzero : 0 < kmemAlign ∧ 0 < sizeofSlab := by decide
    unfold Apart header at hout
    omega
  . have hbase := chunkBase_small (hslab.small (by omega)).1
    have heq : s.chunkBase (header a) = a := by
      rw [hbase]
      unfold header
      omega
    exact ne_of_apart h.core.ranges Nat.one_pos hapart hslab.range heq

theorem Inv.header_not_held (hheld : (cp, x) ∈ held) : x ≠ header a := by
  rintro rfl
  have hcp := h.heldCreated _ _ hheld
  have hpos := (h.core.cache cp hcp).geometry.chunksize
  have hout := h.held_apart (h.allocated hheld) hcp hapart
  have hsize : sizeofSlab < pageSize := by decide
  have hzero : 0 < kmemAlign ∧ 0 < sizeofSlab := by decide
  unfold Apart header at hout
  omega

end

def smallCreated (s : Kmem μ) (cp pg : Nat) : Kmem μ :=
  { s with ranges := (pg, 1) :: s.ranges }.setSlab (header pg)
    ⟨(Nyy.chunks pg (s.cache cp).chunksize (s.cache cp).slabcap).reverse, 0, cp, 0⟩

theorem smallSlabCreate_cases (hf : Fresh env) (h : Core s created used) (hcp : cp ∈ created)
    (hsmall : (s.cache cp).chunksize ≤ kmemSmallMax)
    : smallSlabCreate env s cp = .error .noMemory ∨
        ∃ pg, smallSlabCreate env s cp = .ok (header pg, smallCreated s cp pg) ∧
          RangesOk ((pg, 1) :: s.ranges) ∧
          ∀ r ∈ s.ranges, Apart pg (1 * pageSize) r.1 (r.2 * pageSize) := by
  unfold smallSlabCreate
  rcases vmKalloc_cases hf h.ranges Nat.one_pos with herr | ⟨pg, hok, hranges, hapart⟩
  . left
    rw [herr]
    rfl
  . right
    refine ⟨pg, ?_, hranges, hapart⟩
    have hfits := ((h.cache cp hcp).geometry.small hsmall).2
    have haddr : pg + 1 * pageSize < 2 ^ 64 := (hranges.addr _ List.mem_cons_self).2.2
    rw [Nat.one_mul] at haddr
    have hsp : Word.sub (Word.add pg pageSize) sizeofSlab = header pg := by
      have hle : sizeofSlab ≤ pg + pageSize := Nat.le_trans (by decide) (Nat.le_add_left ..)
      rw [Word.add_eq haddr, Word.sub_eq haddr hle]
      rfl
    have hlist := small_freelist pg (s.cache cp).chunksize (s.cache cp).slabcap (by omega)
    rw [hok]
    simp only [Except.ok_bind, hsp, hlist]
    rfl

theorem smallCreated_chunkBase (s : Kmem μ) (cp pg : Nat)
    : (smallCreated s cp pg).chunkBase (header pg) = pg := by
  have hsize : sizeofSlab < pageSize := by decide
  rw [chunkBase_small]
  . unfold header
    omega
  . simp [Kmem.smallCreated, Kmem.setSlab]

section Created

variable {pg : Nat} (cp : Nat) (hapart : ∀ r ∈ s.ranges, Apart pg (1 * pageSize) r.1 (r.2 * pageSize))

include hapart

theorem Inv.smallCreated (hranges : RangesOk ((pg, 1) :: s.ranges)) (h : Inv s created used held)
    : Inv (smallCreated s cp pg) created used held := by
  refine (h.kalloc hranges).frame ?_ hranges
  constructor
  . exact fun _ _ => rfl
  . intro cp' hcp' sp' hsp'
    apply Function.update_of_ne
    rintro rfl
    exact h.header_loose hapart hcp' hsp'
  . exact fun _ _ _ _ _ _ _ => rfl
  . rfl
  . rfl
  . exact fun _ hr => hr

theorem Inv.smallCreated_unowned (h : Inv s created used held) (ha : Unowned s created a)
    : Unowned (Kmem.smallCreated s cp pg) created a ∧ pg ≠ a := by
  rcases ha.range with ⟨n, hn⟩
  refine ⟨⟨⟨n, List.mem_cons_of_mem _ hn⟩, ha.cache, ?_⟩, ?_⟩
  . intro cp' hcp' sp' hsp'
    have hne : sp' ≠ header pg := by
      rintro rfl
      exact h.header_loose hapart hcp' hsp'
    rw [chunkBase_congr (s := s)]
    . exact ha.slab cp' hcp' sp' hsp'
    . simp [Kmem.smallCreated, Kmem.setSlab, hne]
  . exact (ne_of_apart h.core.ranges Nat.one_pos hapart hn).symm

theorem Inv.smallCreated_prepared (h : Inv s created used held) (hcp : cp ∈ created)
    (hsmall : (s.cache cp).chunksize ≤ kmemSmallMax)
    : Prepared (Kmem.smallCreated s cp pg) created cp (header pg) := by
  have hbase := smallCreated_chunkBase s cp pg
  have hgeom := (h.core.cache cp hcp).geometry
  have hobj : (Kmem.smallCreated s cp pg).obj cp = id := by
    funext x
    unfold obj
    rw [if_pos]
    . rfl
    . exact hsmall
  constructor
  . constructor
    . simp [Kmem.smallCreated, Kmem.setSlab]
    . simp [Kmem.smallCreated, Kmem.setSlab]
    . rw [hbase, hobj, List.map_id, List.append_nil]
      simp only [Kmem.smallCreated, Kmem.setSlab, Function.update_self]
      exact List.reverse_perm _
    . rw [hbase]
      have hone : ((Kmem.smallCreated s cp pg).cache cp).slabsize = 1 := (hgeom.small hsmall).1
      rw [hone]
      exact List.mem_cons_self
    . intro _
      have hsize : sizeofSlab < pageSize := by decide
      refine ⟨by simp [Kmem.smallCreated, Kmem.setSlab], ?_⟩
      unfold header
      omega
    . intro hlarge
      have : kmemSmallMax < (s.cache cp).chunksize := hlarge
      omega
  . intro cp' hcp'
    exact h.header_loose hapart hcp'
  . rw [hbase]
    have hun := h.core.unowned Nat.one_pos hapart
    refine ⟨hun.range, hun.cache, ?_⟩
    intro cp' hcp' sp' hsp'
    have hne : sp' ≠ header pg := by
      rintro rfl
      exact h.header_loose hapart hcp' hsp'
    rw [chunkBase_congr (s := s)]
    . exact hun.slab cp' hcp' sp' hsp'
    . simp [Kmem.smallCreated, Kmem.setSlab, hne]

theorem Inv.smallCreated_kept (h : Inv s created used held)
    : Kept s ((Kmem.smallCreated s cp pg).link cp (header pg)) created held := by
  constructor
  . refine Stable.trans ?_ (link_stable ..)
    exact ⟨rfl, rfl, fun _ hr => List.mem_cons_of_mem _ hr, fun _ => rfl, fun _ => rfl⟩
  . rfl
  . intro x hx
    apply Function.update_of_ne
    exact h.header_not_held hapart hx
  . intro a ha
    have hboth := h.smallCreated_unowned cp hapart ha
    apply hboth.1.link
    rw [smallCreated_chunkBase]
    exact hboth.2

end Created

theorem grow_small (hf : Fresh env) (h : Inv s created used held) (hcp : cp ∈ created)
    (hsmall : (s.cache cp).chunksize ≤ kmemSmallMax) (hempty : (s.cache cp).slablist = [])
    : grow (smallSlabCreate env) s cp = .error .noMemory ∨
        ∃ s' used', grow (smallSlabCreate env) s cp = .ok s' ∧ Inv s' created used' held ∧
          (s'.cache cp).slablist ≠ [] ∧ Kept s s' created held := by
  unfold grow
  simp only [hempty, List.isEmpty_nil, if_true]
  rcases smallSlabCreate_cases hf h.core hcp hsmall with herr | ⟨pg, hok, hranges, hapart⟩
  . left
    rw [herr]
    rfl
  . right
    have hprepared := h.smallCreated_prepared cp hapart hcp hsmall
    have hlinked : linked (smallCreated s cp pg) cp (header pg) = ∅ := linked_of_small hsmall
    have hinv := (h.smallCreated cp hapart hranges).link hcp hprepared (by simp [hlinked])
    rw [hlinked, Set.sdiff_empty] at hinv
    refine ⟨(smallCreated s cp pg).link cp (header pg), _, ?_, hinv, ?_,
      h.smallCreated_kept cp hapart⟩
    . rw [hok]
      rfl
    . simp [link, setCache]

end Small

end

end Kmem
end Slab
end Nyy
