import NyyKernel.Lib.Chunks
import NyyKernel.Slab.Impl

/-!
This module contains the invariant of the slab allocator. It talks about the chunks that are in use; who uses
them is its second half.
-/

namespace Nyy
namespace Slab

variable {μ : Type}

namespace KmemCache

def geometry (c : KmemCache μ) : Nat × Nat × Nat := (c.chunksize, c.slabcap, c.slabsize)

structure GeometryOk (c : KmemCache μ) : Prop where
  slabcap : 0 < c.slabcap
  slabsize : 0 < c.slabsize
  chunksize : kmemAlign ≤ c.chunksize
  fits : c.slabcap * c.chunksize ≤ c.slabsize * pageSize
  small : c.chunksize ≤ kmemSmallMax →
    c.slabsize = 1 ∧ c.slabcap * c.chunksize + sizeofSlab ≤ pageSize

theorem GeometryOk.congr {c c' : KmemCache μ} (h : GeometryOk c) (heq : c'.geometry = c.geometry)
    : GeometryOk c' := by
  simp only [geometry, Prod.mk.injEq] at heq
  rcases heq with ⟨h1, h2, h3⟩
  constructor
  . rw [h2]
    exact h.slabcap
  . rw [h3]
    exact h.slabsize
  . rw [h1]
    exact h.chunksize
  . rw [h1, h2, h3]
    exact h.fits
  . rw [h1, h2, h3]
    exact h.small

end KmemCache

structure RangesOk (ranges : List (Nat × Nat)) : Prop where
  count : ∀ r ∈ ranges, 0 < r.2
  addr : ∀ r ∈ ranges, pageSize ∣ r.1 ∧ 0 < r.1 ∧ r.1 + r.2 * pageSize < 2 ^ 64
  apart : ∀ r ∈ ranges, ∀ r' ∈ ranges, r.1 ≠ r'.1 →
    Apart r.1 (r.2 * pageSize) r'.1 (r'.2 * pageSize)

namespace Kmem

def obj (s : Kmem μ) (cp x : Nat) : Nat :=
  if (s.cache cp).chunksize ≤ kmemSmallMax then x else (s.bufctl x).base

def chunkBase (s : Kmem μ) (sp : Nat) : Nat :=
  if (s.slab sp).base = 0 then sp + sizeofSlab - pageSize else (s.slab sp).base

def slabs (s : Kmem μ) (cp : Nat) : List Nat := (s.cache cp).slablist ++ (s.cache cp).fullSlablist

structure SlabOk (s : Kmem μ) (cp sp : Nat) (used : List Nat) : Prop where
  parent : (s.slab sp).parentCache = cp
  refcnt : (s.slab sp).refcnt = used.length
  chunks : (((s.slab sp).freelist ++ used).map (s.obj cp)).Perm
    (chunks (s.chunkBase sp) (s.cache cp).chunksize (s.cache cp).slabcap)
  range : (s.chunkBase sp, (s.cache cp).slabsize) ∈ s.ranges
  small : (s.cache cp).chunksize ≤ kmemSmallMax →
    (s.slab sp).base = 0 ∧ pageSize ≤ sp + sizeofSlab
  large : kmemSmallMax < (s.cache cp).chunksize →
    (s.slab sp).base ≠ 0 ∧ ∀ x ∈ (s.slab sp).freelist ++ used, (s.bufctl x).slab = sp

@[mk_iff]
structure CacheOk (s : Kmem μ) (used : Nat → List Nat) (cp : Nat) : Prop where
  geometry : (s.cache cp).GeometryOk
  nodup : (s.slabs cp).Nodup
  slab : ∀ sp ∈ s.slabs cp, SlabOk s cp sp (used sp)
  notFull : ∀ sp ∈ (s.cache cp).slablist, (used sp).length < (s.cache cp).slabcap
  full : ∀ sp ∈ (s.cache cp).fullSlablist, (used sp).length = (s.cache cp).slabcap
  buflistNodup : (s.cache cp).buflist.Nodup
  buflist : kmemSmallMax < (s.cache cp).chunksize →
    ∀ x, x ∈ (s.cache cp).buflist ↔ ∃ sp ∈ s.slabs cp, x ∈ used sp

structure MetaOk (s : Kmem μ) (created : List Nat) : Prop where
  slabCache : s.slabCache ∈ created
  bufctlCache : s.bufctlCache ∈ created
  ne : s.slabCache ≠ s.bufctlCache
  small : ∀ cp, cp = s.slabCache ∨ cp = s.bufctlCache →
    (s.cache cp).chunksize ≤ kmemSmallMax ∧ (s.cache cp).constructor = none

@[mk_iff]
structure Core (s : Kmem μ) (created : List Nat) (used : Nat → List Nat) : Prop where
  ranges : RangesOk s.ranges
  cache : ∀ cp ∈ created, CacheOk s used cp
  descr : ∀ cp ∈ created, (cp, 1) ∈ s.ranges
  apart : ∀ cp ∈ created, ∀ sp ∈ s.slabs cp, ∀ cp' ∈ created, s.chunkBase sp ≠ cp'
  inj : ∀ cp ∈ created, ∀ sp ∈ s.slabs cp, ∀ cp' ∈ created, ∀ sp' ∈ s.slabs cp',
    s.chunkBase sp = s.chunkBase sp' → sp = sp'
  metaCaches : MetaOk s created

def Allocated (s : Kmem μ) (used : Nat → List Nat) (cp x : Nat) : Prop :=
  ∃ sp ∈ s.slabs cp, ∃ y ∈ used sp, s.obj cp y = x

def LargeSlab (s : Kmem μ) (created : List Nat) (sp : Nat) : Prop :=
  ∃ cp ∈ created, kmemSmallMax < (s.cache cp).chunksize ∧ sp ∈ s.slabs cp

def Meta (s : Kmem μ) (created : List Nat) (used : Nat → List Nat) (cp x : Nat) : Prop :=
  (cp = s.slabCache ∧ LargeSlab s created x) ∨
  (cp = s.bufctlCache ∧ ∃ sp, LargeSlab s created sp ∧ x ∈ (s.slab sp).freelist ++ used sp)

structure Inv (s : Kmem μ) (created : List Nat) (used : Nat → List Nat) (held : Set (Nat × Nat))
    : Prop where
  core : Core s created used
  heldCreated : ∀ cp x, (cp, x) ∈ held → cp ∈ created
  own : ∀ cp ∈ created, ∀ x, Allocated s used cp x ↔ (cp, x) ∈ held ∨ Meta s created used cp x
  sep : ∀ cp x, (cp, x) ∈ held → ¬ Meta s created used cp x

section Facts

variable {s s' : Kmem μ} {created u : List Nat} {used : Nat → List Nat} {cp cp' sp sp' x y : Nat}

section

variable (h : SlabOk s cp sp u)

include h

theorem SlabOk.chunk (hx : x ∈ (s.slab sp).freelist ++ u)
    : s.obj cp x ∈ Nyy.chunks (s.chunkBase sp) (s.cache cp).chunksize (s.cache cp).slabcap := by
  rw [← h.chunks.mem_iff]
  exact List.mem_map_of_mem hx

theorem SlabOk.nodup_objs (hg : (s.cache cp).GeometryOk)
    : (((s.slab sp).freelist ++ u).map (s.obj cp)).Nodup := by
  rw [h.chunks.nodup_iff]
  apply nodup_chunks
  exact Nat.lt_of_lt_of_le (by decide) hg.chunksize

theorem SlabOk.nodup (hg : (s.cache cp).GeometryOk) : ((s.slab sp).freelist ++ u).Nodup := by
  exact (h.nodup_objs hg).of_map

theorem SlabOk.obj_inj (hg : (s.cache cp).GeometryOk) (hx : x ∈ (s.slab sp).freelist ++ u)
    (hy : y ∈ (s.slab sp).freelist ++ u) (heq : s.obj cp x = s.obj cp y)
    : x = y := by
  exact List.inj_on_of_nodup_map (h.nodup_objs hg) hx hy heq

theorem SlabOk.length : (s.slab sp).freelist.length + u.length = (s.cache cp).slabcap := by
  have := h.chunks.length_eq
  rw [List.length_map, List.length_append, length_chunks] at this
  exact this

theorem SlabOk.congr (hgeom : (s'.cache cp).geometry = (s.cache cp).geometry)
    (hslab : s'.slab sp = s.slab sp) (hbufctl : kmemSmallMax < (s.cache cp).chunksize →
      ∀ x ∈ (s.slab sp).freelist ++ u, s'.bufctl x = s.bufctl x) (hranges : s.ranges ⊆ s'.ranges)
    : SlabOk s' cp sp u := by
  simp only [KmemCache.geometry, Prod.mk.injEq] at hgeom
  rcases hgeom with ⟨hsize, hcap, hpages⟩
  have hbase : s'.chunkBase sp = s.chunkBase sp := by
    unfold chunkBase
    rw [hslab]
  have hobj : ∀ x ∈ (s.slab sp).freelist ++ u, s'.obj cp x = s.obj cp x := by
    intro x hx
    unfold obj
    rw [hsize]
    split
    . rfl
    . next hlarge => rw [hbufctl (by omega) x hx]
  constructor
  . rw [hslab, h.parent]
  . rw [hslab, h.refcnt]
  . rw [hslab, hbase, hsize, hcap, List.map_congr_left hobj]
    exact h.chunks
  . rw [hbase, hpages]
    exact hranges h.range
  . rw [hsize, hslab]
    exact h.small
  . rw [hsize, hslab]
    intro hlarge
    refine ⟨(h.large hlarge).1, ?_⟩
    intro x hx
    rw [hbufctl hlarge x hx]
    exact (h.large hlarge).2 x hx

end

theorem chunkBase_small (h : (s.slab sp).base = 0) : s.chunkBase sp = sp + sizeofSlab - pageSize := by
  unfold chunkBase
  rw [if_pos h]

namespace Core

section

variable (h : Core s created used) (hcp : cp ∈ created) (hsp : sp ∈ s.slabs cp)

include h hcp hsp

theorem slabOk : SlabOk s cp sp (used sp) := by
  exact (h.cache cp hcp).slab sp hsp

theorem cache_unique (hcp' : cp' ∈ created) (hsp' : sp ∈ s.slabs cp') : cp = cp' := by
  rw [← (h.slabOk hcp hsp).parent, (h.slabOk hcp' hsp').parent]

theorem inside (hx : x ∈ (s.slab sp).freelist ++ used sp)
    : s.chunkBase sp ≤ s.obj cp x ∧ s.obj cp x + (s.cache cp).chunksize ≤
        s.chunkBase sp + (s.cache cp).slabsize * pageSize := by
  have hin := chunk_inside ((h.slabOk hcp hsp).chunk hx)
  have hfits := (h.cache cp hcp).geometry.fits
  omega

theorem inside_small (hsmall : (s.cache cp).chunksize ≤ kmemSmallMax)
    (hx : x ∈ (s.slab sp).freelist ++ used sp)
    : s.chunkBase sp ≤ x ∧ x + (s.cache cp).chunksize ≤ sp ∧
        sp + sizeofSlab = s.chunkBase sp + pageSize := by
  have hslab := h.slabOk hcp hsp
  have hin := chunk_inside (hslab.chunk hx)
  have hfits := ((h.cache cp hcp).geometry.small hsmall).2
  have hbase := chunkBase_small (hslab.small hsmall).1
  have hle := (hslab.small hsmall).2
  have hobj : s.obj cp x = x := by
    unfold obj
    rw [if_pos hsmall]
  rw [hobj] at hin
  omega

theorem slabs_apart (hcp' : cp' ∈ created) (hsp' : sp' ∈ s.slabs cp') (hne : sp ≠ sp')
    : Apart (s.chunkBase sp) ((s.cache cp).slabsize * pageSize) (s.chunkBase sp')
        ((s.cache cp').slabsize * pageSize) := by
  apply h.ranges.apart _ (h.slabOk hcp hsp).range _ (h.slabOk hcp' hsp').range
  exact fun heq => hne (h.inj cp hcp sp hsp cp' hcp' sp' hsp' heq)

section

variable (hx : x ∈ (s.slab sp).freelist ++ used sp) (hcp' : cp' ∈ created) (hsp' : sp' ∈ s.slabs cp')

include hx hcp' hsp'

theorem objs_apart (hy : y ∈ (s.slab sp').freelist ++ used sp') (hne : sp = sp' → x ≠ y)
    : Apart (s.obj cp x) (s.cache cp).chunksize (s.obj cp' y) (s.cache cp').chunksize := by
  by_cases heq : sp = sp'
  . subst heq
    have hcaches := h.cache_unique hcp hsp hcp' hsp'
    subst hcaches
    have hslab := h.slabOk hcp hsp
    apply chunk_apart (hslab.chunk hx) (hslab.chunk hy)
    exact fun hobj => hne rfl (hslab.obj_inj (h.cache cp hcp).geometry hx hy hobj)
  . have hx' := h.inside hcp hsp hx
    have hy' := h.inside hcp' hsp' hy
    exact (h.slabs_apart hcp hsp hcp' hsp' heq).mono hx'.1 hx'.2 hy'.1 hy'.2

theorem header_apart (hsmall : (s.cache cp').chunksize ≤ kmemSmallMax)
    : Apart (s.obj cp x) (s.cache cp).chunksize sp' sizeofSlab := by
  have hslab' := h.slabOk hcp' hsp'
  have hbase' := chunkBase_small (hslab'.small hsmall).1
  have hle' := (hslab'.small hsmall).2
  by_cases heq : sp = sp'
  . subst heq
    have hcaches := h.cache_unique hcp hsp hcp' hsp'
    subst hcaches
    have hin := h.inside_small hcp hsp hsmall hx
    left
    unfold obj
    rw [if_pos hsmall]
    exact hin.2.1
  . have hx' := h.inside hcp hsp hx
    have hone := ((h.cache cp' hcp').geometry.small hsmall).1
    apply (h.slabs_apart hcp hsp hcp' hsp' heq).mono hx'.1 hx'.2
    . rw [hbase']
      have : sizeofSlab ≤ pageSize := by decide
      omega
    . rw [hone, hbase']
      omega

theorem obj_ne_header (hsmall : (s.cache cp').chunksize ≤ kmemSmallMax) : s.obj cp x ≠ sp' := by
  apply (h.header_apart hcp hsp hx hcp' hsp' hsmall).ne
  . exact Nat.lt_of_lt_of_le (by decide) (h.cache cp hcp).geometry.chunksize
  . decide

end

end

end Core

namespace Inv

variable {held : Set (Nat × Nat)}

theorem allocated (h : Inv s created used held) (hheld : (cp, x) ∈ held)
    : Allocated s used cp x := by
  exact (h.own cp (h.heldCreated cp x hheld) x).mpr (.inl hheld)

theorem held_not_slab (h : Inv s created used held) (hheld : (s.slabCache, x) ∈ held) (hcp : cp ∈ created)
    : x ∉ s.slabs cp := by
  intro hx
  rcases h.allocated hheld with ⟨sp, hsp, y, hy, hobj⟩
  by_cases hlarge : kmemSmallMax < (s.cache cp).chunksize
  . exact h.sep _ _ hheld (.inl ⟨rfl, cp, hcp, hlarge, hx⟩)
  . apply h.core.obj_ne_header h.core.metaCaches.slabCache hsp (List.mem_append_right _ hy) hcp hx
    . omega
    . exact hobj

theorem held_not_handle (h : Inv s created used held) (hheld : (s.bufctlCache, x) ∈ held)
    (hcp : cp ∈ created) (hlarge : kmemSmallMax < (s.cache cp).chunksize) (hsp : sp ∈ s.slabs cp)
    : x ∉ (s.slab sp).freelist ++ used sp := by
  intro hx
  exact h.sep _ _ hheld (.inr ⟨rfl, sp, ⟨cp, hcp, hlarge, hsp⟩, hx⟩)

end Inv

section Frame

variable {used' : Nat → List Nat} {held : Set (Nat × Nat)}

theorem slabs_congr (h : s'.cache cp = s.cache cp) : s'.slabs cp = s.slabs cp := by
  unfold slabs
  rw [h]

theorem chunkBase_congr (h : (s'.slab sp).base = (s.slab sp).base)
    : s'.chunkBase sp = s.chunkBase sp := by
  unfold chunkBase
  rw [h]

theorem CacheOk.congr (h : CacheOk s used cp) (hcache : s'.cache cp = s.cache cp)
    (hused : ∀ sp ∈ s.slabs cp, used' sp = used sp) (hslab : ∀ sp ∈ s.slabs cp, SlabOk s' cp sp (used sp))
    : CacheOk s' used' cp := by
  have hslabs := slabs_congr hcache
  constructor
  . rw [hcache]
    exact h.geometry
  . rw [hslabs]
    exact h.nodup
  . intro sp hsp
    rw [hslabs] at hsp
    rw [hused sp hsp]
    exact hslab sp hsp
  . intro sp hsp
    rw [hcache] at hsp ⊢
    rw [hused sp (List.mem_append_left _ hsp)]
    exact h.notFull sp hsp
  . intro sp hsp
    rw [hcache] at hsp ⊢
    rw [hused sp (List.mem_append_right _ hsp)]
    exact h.full sp hsp
  . rw [hcache]
    exact h.buflistNodup
  . intro hlarge x
    rw [hcache] at hlarge
    rw [hcache, hslabs, h.buflist hlarge x]
    constructor
    . rintro ⟨sp, hsp, hx⟩
      rw [← hused sp hsp] at hx
      exact ⟨sp, hsp, hx⟩
    . rintro ⟨sp, hsp, hx⟩
      rw [hused sp hsp] at hx
      exact ⟨sp, hsp, hx⟩

structure Elsewhere (s s' : Kmem μ) (created : List Nat) (used : Nat → List Nat) : Prop where
  cache : ∀ cp ∈ created, s'.cache cp = s.cache cp
  slab : ∀ cp ∈ created, ∀ sp ∈ s.slabs cp, s'.slab sp = s.slab sp
  bufctl : ∀ cp ∈ created, kmemSmallMax < (s.cache cp).chunksize → ∀ sp ∈ s.slabs cp,
    ∀ x ∈ (s.slab sp).freelist ++ used sp, s'.bufctl x = s.bufctl x
  slabCache : s'.slabCache = s.slabCache
  bufctlCache : s'.bufctlCache = s.bufctlCache
  ranges : s.ranges ⊆ s'.ranges

theorem Core.frame (h : Core s created used) (he : Elsewhere s s' created used)
    (hranges : RangesOk s'.ranges)
    : Core s' created used := by
  have hslabs : ∀ cp ∈ created, s'.slabs cp = s.slabs cp := by
    intro cp hcp
    exact slabs_congr (he.cache cp hcp)
  have hbase : ∀ cp ∈ created, ∀ sp ∈ s.slabs cp, s'.chunkBase sp = s.chunkBase sp := by
    intro cp hcp sp hsp
    exact chunkBase_congr (by rw [he.slab cp hcp sp hsp])
  constructor
  . exact hranges
  . intro cp hcp
    apply (h.cache cp hcp).congr (he.cache cp hcp) (fun _ _ => rfl)
    intro sp hsp
    apply (h.slabOk hcp hsp).congr
    . rw [he.cache cp hcp]
    . exact he.slab cp hcp sp hsp
    . intro hlarge x hx
      exact he.bufctl cp hcp hlarge sp hsp x hx
    . exact he.ranges
  . intro cp hcp
    exact he.ranges (h.descr cp hcp)
  . intro cp hcp sp hsp cp' hcp'
    rw [hslabs cp hcp] at hsp
    rw [hbase cp hcp sp hsp]
    exact h.apart cp hcp sp hsp cp' hcp'
  . intro cp hcp sp hsp cp' hcp' sp' hsp' heq
    rw [hslabs cp hcp] at hsp
    rw [hslabs cp' hcp'] at hsp'
    rw [hbase cp hcp sp hsp, hbase cp' hcp' sp' hsp'] at heq
    exact h.inj cp hcp sp hsp cp' hcp' sp' hsp' heq
  . have hmeta := h.metaCaches
    constructor
    . rw [he.slabCache]
      exact hmeta.slabCache
    . rw [he.bufctlCache]
      exact hmeta.bufctlCache
    . rw [he.slabCache, he.bufctlCache]
      exact hmeta.ne
    . intro cp hcp
      rw [he.slabCache, he.bufctlCache] at hcp
      have hmem : cp ∈ created := by
        rcases hcp with rfl | rfl
        . exact hmeta.slabCache
        . exact hmeta.bufctlCache
      rw [he.cache cp hmem]
      exact hmeta.small cp hcp

theorem Elsewhere.allocated (he : Elsewhere s s' created used) (hcp : cp ∈ created)
    : Allocated s' used cp x ↔ Allocated s used cp x := by
  have hobj : ∀ sp ∈ s.slabs cp, ∀ y ∈ used sp, s'.obj cp y = s.obj cp y := by
    intro sp hsp y hy
    unfold obj
    rw [he.cache cp hcp]
    split
    . rfl
    . next hlarge =>
      rw [he.bufctl cp hcp (by omega) sp hsp y (List.mem_append_right _ hy)]
  unfold Allocated
  rw [slabs_congr (he.cache cp hcp)]
  constructor
  . rintro ⟨sp, hsp, y, hy, heq⟩
    rw [hobj sp hsp y hy] at heq
    exact ⟨sp, hsp, y, hy, heq⟩
  . rintro ⟨sp, hsp, y, hy, heq⟩
    rw [← hobj sp hsp y hy] at heq
    exact ⟨sp, hsp, y, hy, heq⟩

theorem Elsewhere.largeSlab (he : Elsewhere s s' created used)
    : LargeSlab s' created sp ↔ LargeSlab s created sp := by
  unfold LargeSlab
  constructor
  . rintro ⟨cp, hcp, hlarge, hsp⟩
    rw [slabs_congr (he.cache cp hcp)] at hsp
    rw [he.cache cp hcp] at hlarge
    exact ⟨cp, hcp, hlarge, hsp⟩
  . rintro ⟨cp, hcp, hlarge, hsp⟩
    refine ⟨cp, hcp, ?_, ?_⟩
    . rwa [he.cache cp hcp]
    . rwa [slabs_congr (he.cache cp hcp)]

theorem Elsewhere.metaObj (he : Elsewhere s s' created used)
    : Meta s' created used cp x ↔ Meta s created used cp x := by
  have hslab : ∀ sp, LargeSlab s created sp → s'.slab sp = s.slab sp := by
    rintro sp ⟨cp, hcp, _, hsp⟩
    exact he.slab cp hcp sp hsp
  unfold Meta
  rw [he.slabCache, he.bufctlCache, he.largeSlab]
  constructor
  . rintro (h | ⟨h, sp, hsp, hx⟩)
    . exact .inl h
    . rw [he.largeSlab] at hsp
      rw [hslab sp hsp] at hx
      exact .inr ⟨h, sp, hsp, hx⟩
  . rintro (h | ⟨h, sp, hsp, hx⟩)
    . exact .inl h
    . rw [← hslab sp hsp] at hx
      rw [← he.largeSlab] at hsp
      exact .inr ⟨h, sp, hsp, hx⟩

theorem Inv.frame (h : Inv s created used held) (he : Elsewhere s s' created used)
    (hranges : RangesOk s'.ranges)
    : Inv s' created used held := by
  constructor
  . exact h.core.frame he hranges
  . exact h.heldCreated
  . intro cp hcp x
    rw [he.allocated hcp, he.metaObj]
    exact h.own cp hcp x
  . intro cp x hheld
    rw [he.metaObj]
    exact h.sep cp x hheld

theorem Inv.setSlab (h : Inv s created used held) (hheld : (s.slabCache, sp) ∈ held) (slab : KmemSlab)
    : Inv (s.setSlab sp slab) created used held := by
  refine h.frame ?_ h.core.ranges
  constructor
  . exact fun _ _ => rfl
  . intro cp hcp sp' hsp'
    apply Function.update_of_ne
    rintro rfl
    exact h.held_not_slab hheld hcp hsp'
  . exact fun _ _ _ _ _ _ _ => rfl
  . rfl
  . rfl
  . exact fun _ hr => hr

theorem Inv.setBufctl (h : Inv s created used held) (hheld : (s.bufctlCache, x) ∈ held)
    (bufctl : KmemLargeBufctl)
    : Inv (s.setBufctl x bufctl) created used held := by
  refine h.frame ?_ h.core.ranges
  constructor
  . exact fun _ _ => rfl
  . exact fun _ _ _ _ => rfl
  . intro cp hcp hlarge sp hsp y hy
    apply Function.update_of_ne
    rintro rfl
    exact h.held_not_handle hheld hcp hlarge hsp hy
  . rfl
  . rfl
  . exact fun _ hr => hr

theorem Inv.setMem (h : Inv s created used held) (mem : μ)
    : Inv { s with mem := mem } created used held := by
  refine h.frame ?_ h.core.ranges
  exact ⟨fun _ _ => rfl, fun _ _ _ _ => rfl, fun _ _ _ _ _ _ _ => rfl, rfl, rfl, fun _ hr => hr⟩

end Frame

end Facts
end Kmem
end Slab
end Nyy
