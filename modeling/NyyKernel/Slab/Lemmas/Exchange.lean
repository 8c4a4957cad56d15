import NyyKernel.Slab.Lemmas.Basic

namespace Nyy
namespace Slab
namespace Kmem

variable {μ : Type}

structure Exchange (s s' : Kmem μ) (cp sp : Nat) (used used' : Nat → List Nat) : Prop where
  cache : ∀ cp', cp' ≠ cp → s'.cache cp' = s.cache cp'
  geometry : (s'.cache cp).geometry = (s.cache cp).geometry
  constructor : (s'.cache cp).constructor = (s.cache cp).constructor
  slab : ∀ sp', sp' ≠ sp → s'.slab sp' = s.slab sp'
  base : (s'.slab sp).base = (s.slab sp).base
  parent : (s'.slab sp).parentCache = (s.slab sp).parentCache
  refcnt : (s'.slab sp).refcnt = (used' sp).length
  bufctl : s'.bufctl = s.bufctl
  slabCache : s'.slabCache = s.slabCache
  bufctlCache : s'.bufctlCache = s.bufctlCache
  ranges : s'.ranges = s.ranges
  slabs : (s'.slabs cp).Perm (s.slabs cp)
  others : ∀ sp', sp' ≠ sp → used' sp' = used sp'
  handles : ((s'.slab sp).freelist ++ used' sp).Perm ((s.slab sp).freelist ++ used sp)
  notFull : ∀ x ∈ (s'.cache cp).slablist, (used' x).length < (s.cache cp).slabcap
  full : ∀ x ∈ (s'.cache cp).fullSlablist, (used' x).length = (s.cache cp).slabcap
  buflistNodup : (s'.cache cp).buflist.Nodup
  buflist : kmemSmallMax < (s.cache cp).chunksize →
    ∀ x, x ∈ (s'.cache cp).buflist ↔ ∃ y ∈ s.slabs cp, x ∈ used' y

section

variable {s s' : Kmem μ} {created : List Nat} {used used' : Nat → List Nat} {held : Set (Nat × Nat)}
  {cp cp' sp sp' x : Nat}

namespace Exchange

section

variable (he : Exchange s s' cp sp used used')

include he

theorem chunksize (cp' : Nat) : (s'.cache cp').chunksize = (s.cache cp').chunksize := by
  by_cases heq : cp' = cp
  . subst heq
    exact congrArg Prod.fst he.geometry
  . rw [he.cache cp' heq]

theorem slabcap : (s'.cache cp).slabcap = (s.cache cp).slabcap := by
  exact congrArg (fun g => g.2.1) he.geometry

theorem obj (cp' x : Nat) : s'.obj cp' x = s.obj cp' x := by
  unfold Kmem.obj
  rw [he.chunksize, he.bufctl]

theorem chunkBase (sp' : Nat) : s'.chunkBase sp' = s.chunkBase sp' := by
  apply chunkBase_congr
  by_cases heq : sp' = sp
  . rw [heq, he.base]
  . rw [he.slab sp' heq]

theorem mem_slabs (cp' : Nat) : x ∈ s'.slabs cp' ↔ x ∈ s.slabs cp' := by
  by_cases heq : cp' = cp
  . subst heq
    exact he.slabs.mem_iff
  . rw [slabs_congr (he.cache cp' heq)]

theorem mem_handles (sp' : Nat)
    : x ∈ (s'.slab sp').freelist ++ used' sp' ↔ x ∈ (s.slab sp').freelist ++ used sp' := by
  by_cases heq : sp' = sp
  . subst heq
    exact he.handles.mem_iff
  . rw [he.slab sp' heq, he.others sp' heq]

theorem slabOk (h : SlabOk s cp' sp' (used sp')) (hcp : sp' = sp → cp' = cp)
    : SlabOk s' cp' sp' (used' sp') := by
  by_cases heq : sp' = sp
  . have := hcp heq
    subst heq this
    constructor
    . rw [he.parent, h.parent]
    . exact he.refcnt
    . have hobj : s'.obj cp' = s.obj cp' := funext (he.obj cp')
      rw [he.chunksize, he.slabcap, he.chunkBase, hobj]
      exact (he.handles.map _).trans h.chunks
    . have hpages : (s'.cache cp').slabsize = (s.cache cp').slabsize :=
        congrArg (fun g => g.2.2) he.geometry
      rw [he.chunkBase, hpages, he.ranges]
      exact h.range
    . rw [he.chunksize, he.base]
      exact h.small
    . rw [he.chunksize, he.base, he.bufctl]
      intro hlarge
      refine ⟨(h.large hlarge).1, ?_⟩
      intro x hx
      rw [he.mem_handles] at hx
      exact (h.large hlarge).2 x hx
  . have hgeom : (s'.cache cp').geometry = (s.cache cp').geometry := by
      by_cases hcaches : cp' = cp
      . rw [hcaches, he.geometry]
      . rw [he.cache cp' hcaches]
    rw [he.others sp' heq]
    apply h.congr hgeom (he.slab sp' heq)
    . intro _ x _
      rw [he.bufctl]
    . rw [he.ranges]
      exact fun _ hr => hr

theorem core (h : Core s created used) (hcp : cp ∈ created) (hsp : sp ∈ s.slabs cp)
    : Core s' created used' := by
  have howner : ∀ cp' ∈ created, ∀ sp' ∈ s.slabs cp', sp' = sp → cp' = cp := by
    rintro cp' hcp' sp' hsp' rfl
    exact h.cache_unique hcp' hsp' hcp hsp
  constructor
  . rw [he.ranges]
    exact h.ranges
  . intro cp' hcp'
    have hslab : ∀ sp' ∈ s.slabs cp', SlabOk s' cp' sp' (used' sp') := by
      intro sp' hsp'
      exact he.slabOk (h.slabOk hcp' hsp') (howner cp' hcp' sp' hsp')
    by_cases heq : cp' = cp
    . subst heq
      have hcache := h.cache cp' hcp'
      constructor
      . exact hcache.geometry.congr he.geometry
      . rw [he.slabs.nodup_iff]
        exact hcache.nodup
      . intro sp' hsp'
        rw [he.mem_slabs] at hsp'
        exact hslab sp' hsp'
      . rw [he.slabcap]
        exact he.notFull
      . rw [he.slabcap]
        exact he.full
      . exact he.buflistNodup
      . rw [he.chunksize]
        intro hlarge x
        rw [he.buflist hlarge x]
        simp only [he.mem_slabs]
    . have hne : ∀ sp' ∈ s.slabs cp', sp' ≠ sp := by
        intro sp' hsp' hsps
        exact heq (howner cp' hcp' sp' hsp' hsps)
      apply (h.cache cp' hcp').congr (he.cache cp' heq)
      . intro sp' hsp'
        exact he.others sp' (hne sp' hsp')
      . intro sp' hsp'
        rw [← he.others sp' (hne sp' hsp')]
        exact hslab sp' hsp'
  . intro cp' hcp'
    rw [he.ranges]
    exact h.descr cp' hcp'
  . intro cp1 hcp1 sp1 hsp1
    rw [he.mem_slabs] at hsp1
    rw [he.chunkBase]
    exact h.apart cp1 hcp1 sp1 hsp1
  . intro cp1 hcp1 sp1 hsp1 cp2 hcp2 sp2 hsp2
    rw [he.mem_slabs] at hsp1 hsp2
    rw [he.chunkBase, he.chunkBase]
    exact h.inj cp1 hcp1 sp1 hsp1 cp2 hcp2 sp2 hsp2
  . have hmeta := h.metaCaches
    have hconstr : ∀ cp', (s'.cache cp').constructor = (s.cache cp').constructor := by
      intro cp'
      by_cases heq : cp' = cp
      . rw [heq, he.constructor]
      . rw [he.cache cp' heq]
    constructor
    . rw [he.slabCache]
      exact hmeta.slabCache
    . rw [he.bufctlCache]
      exact hmeta.bufctlCache
    . rw [he.slabCache, he.bufctlCache]
      exact hmeta.ne
    . intro cp'
      rw [he.slabCache, he.bufctlCache, he.chunksize, hconstr]
      exact hmeta.small cp'

theorem metaObj : Meta s' created used' cp' x ↔ Meta s created used cp' x := by
  unfold Meta LargeSlab
  simp only [he.slabCache, he.bufctlCache, he.chunksize, he.mem_slabs, he.mem_handles]

theorem allocated_of_ne (h : Core s created used) (hcp : cp ∈ created) (hsp : sp ∈ s.slabs cp)
    (hcp' : cp' ∈ created) (hne : cp' ≠ cp)
    : Allocated s' used' cp' x ↔ Allocated s used cp' x := by
  have hused : ∀ sp' ∈ s.slabs cp', used' sp' = used sp' := by
    intro sp' hsp'
    apply he.others
    rintro rfl
    exact hne (h.cache_unique hcp' hsp' hcp hsp)
  unfold Allocated
  simp only [he.mem_slabs, he.obj]
  constructor
  . rintro ⟨sp', hsp', y, hy, heq⟩
    rw [hused sp' hsp'] at hy
    exact ⟨sp', hsp', y, hy, heq⟩
  . rintro ⟨sp', hsp', y, hy, heq⟩
    rw [← hused sp' hsp'] at hy
    exact ⟨sp', hsp', y, hy, heq⟩

theorem allocated (hsp : sp ∈ s.slabs cp)
    : Allocated s' used' cp x ↔ (∃ y ∈ used' sp, s.obj cp y = x) ∨
        ∃ sp' ∈ s.slabs cp, sp' ≠ sp ∧ ∃ y ∈ used sp', s.obj cp y = x := by
  unfold Allocated
  simp only [he.mem_slabs, he.obj]
  constructor
  . rintro ⟨sp', hsp', y, hy, heq⟩
    by_cases hsps : sp' = sp
    . subst hsps
      exact .inl ⟨y, hy, heq⟩
    . rw [he.others sp' hsps] at hy
      exact .inr ⟨sp', hsp', hsps, y, hy, heq⟩
  . rintro (⟨y, hy, heq⟩ | ⟨sp', hsp', hsps, y, hy, heq⟩)
    . exact ⟨sp, hsp, y, hy, heq⟩
    . rw [← he.others sp' hsps] at hy
      exact ⟨sp', hsp', y, hy, heq⟩

end

end Exchange

theorem Core.free_not_allocated (h : Core s created used) (hcp : cp ∈ created) (hsp : sp ∈ s.slabs cp)
    (hx : x ∈ (s.slab sp).freelist)
    : ¬ Allocated s used cp (s.obj cp x) := by
  rintro ⟨sp', hsp', y, hy, heq⟩
  have hpos : 0 < (s.cache cp).chunksize :=
    Nat.lt_of_lt_of_le (by decide) (h.cache cp hcp).geometry.chunksize
  have hapart := h.objs_apart hcp hsp' (List.mem_append_right _ hy) hcp hsp
    (List.mem_append_left _ hx) (by
      rintro rfl rfl
      have hnodup := (h.slabOk hcp hsp).nodup (h.cache cp hcp).geometry
      exact (List.nodup_append.mp hnodup).2.2 y hx y hy rfl)
  exact hapart.ne hpos hpos heq

theorem Exchange.of_update {c : KmemCache μ} {l : KmemSlab} (hgeometry : c.geometry = (s.cache cp).geometry)
    (hconstructor : c.constructor = (s.cache cp).constructor) (hbase : l.base = (s.slab sp).base)
    (hparent : l.parentCache = (s.slab sp).parentCache) (hothers : ∀ sp', sp' ≠ sp → used' sp' = used sp')
    (hrefcnt : l.refcnt = (used' sp).length) (hslabs : (c.slablist ++ c.fullSlablist).Perm (s.slabs cp))
    (hhandles : (l.freelist ++ used' sp).Perm ((s.slab sp).freelist ++ used sp))
    (hnotFull : ∀ x ∈ c.slablist, (used' x).length < (s.cache cp).slabcap)
    (hfull : ∀ x ∈ c.fullSlablist, (used' x).length = (s.cache cp).slabcap) (hnodup : c.buflist.Nodup)
    (hbuflist : kmemSmallMax < (s.cache cp).chunksize →
      ∀ x, x ∈ c.buflist ↔ ∃ y ∈ s.slabs cp, x ∈ used' y)
    : Exchange s ((s.setSlab sp l).setCache cp c) cp sp used used' := by
  constructor <;> simp_all [setCache, setSlab, Kmem.slabs]

section Alloc

variable {rest free : List Nat}

theorem slabAllocLists_same (c : KmemCache μ) (sp refcnt : Nat)
    : (slabAllocLists c sp refcnt).geometry = c.geometry ∧
        (slabAllocLists c sp refcnt).constructor = c.constructor ∧
        (slabAllocLists c sp refcnt).buflist = c.buflist := by
  unfold slabAllocLists
  split
  . exact ⟨rfl, rfl, rfl⟩
  . exact ⟨rfl, rfl, rfl⟩

theorem slabAllocLists_lists {c : KmemCache μ} (refcnt : Nat) (hlist : c.slablist = sp :: rest)
    (hsp : sp ∉ c.fullSlablist)
    : (refcnt = c.slabcap ∧ (slabAllocLists c sp refcnt).slablist = rest ∧
          (slabAllocLists c sp refcnt).fullSlablist = sp :: c.fullSlablist) ∨
        (refcnt ≠ c.slabcap ∧ (slabAllocLists c sp refcnt).slablist = sp :: rest ∧
          (slabAllocLists c sp refcnt).fullSlablist = c.fullSlablist) := by
  unfold slabAllocLists
  by_cases h : refcnt = c.slabcap
  . left
    rw [if_pos h]
    refine ⟨h, ?_, ?_⟩
    . simp [KmemCache.listRemove, hlist]
    . simp [KmemCache.listRemove, List.erase_of_not_mem hsp]
  . right
    rw [if_neg h]
    exact ⟨h, hlist, rfl⟩

def allocCache (s : Kmem μ) (cp sp x : Nat) : KmemCache μ :=
  let c := slabAllocLists (s.cache cp) sp ((s.slab sp).refcnt + 1)
  if (s.slab sp).base = 0 then c else { c with buflist := x :: c.buflist }

def allocSlab (s : Kmem μ) (sp : Nat) (free : List Nat) : KmemSlab :=
  { s.slab sp with freelist := free, refcnt := (s.slab sp).refcnt + 1 }

theorem slabAlloc_eq (hslab : SlabOk s cp sp (used sp)) (hfree : (s.slab sp).freelist = x :: free)
    : slabAlloc s sp =
        .ok (s.obj cp x, (s.setSlab sp (allocSlab s sp free)).setCache cp (allocCache s cp sp x)) := by
  have hparent := hslab.parent
  subst hparent
  unfold slabAlloc allocCache obj
  dsimp only
  rw [hfree]
  dsimp only
  by_cases hsmall : (s.cache (s.slab sp).parentCache).chunksize ≤ kmemSmallMax
  . rw [if_pos hsmall, if_pos (hslab.small hsmall).1, if_pos (hslab.small hsmall).1]
    rfl
  . have hbase := (hslab.large (by omega)).1
    rw [if_neg hsmall, if_neg hbase, if_neg hbase]
    rfl

theorem allocCache_lists (s : Kmem μ) (cp sp x : Nat)
    : (allocCache s cp sp x).slablist =
          (slabAllocLists (s.cache cp) sp ((s.slab sp).refcnt + 1)).slablist ∧
        (allocCache s cp sp x).fullSlablist =
          (slabAllocLists (s.cache cp) sp ((s.slab sp).refcnt + 1)).fullSlablist ∧
        (allocCache s cp sp x).geometry = (s.cache cp).geometry ∧
        (allocCache s cp sp x).constructor = (s.cache cp).constructor := by
  have hsame := slabAllocLists_same (s.cache cp) sp ((s.slab sp).refcnt + 1)
  rw [← hsame.1, ← hsame.2.1]
  unfold allocCache
  dsimp only
  split
  . exact ⟨rfl, rfl, rfl, rfl⟩
  . exact ⟨rfl, rfl, rfl, rfl⟩

def take (used : Nat → List Nat) (sp x : Nat) : Nat → List Nat :=
  Function.update used sp (x :: used sp)

theorem take_self (used : Nat → List Nat) (sp x : Nat) : take used sp x sp = x :: used sp := by
  exact Function.update_self ..

theorem take_of_ne (used : Nat → List Nat) (x : Nat) (h : sp' ≠ sp)
    : take used sp x sp' = used sp' := by
  exact Function.update_of_ne h ..

theorem mem_take {y : Nat}
    : y ∈ take used sp x sp' ↔ (sp' = sp ∧ y = x) ∨ y ∈ used sp' := by
  by_cases h : sp' = sp
  . subst h
    rw [take_self, List.mem_cons]
    simp
  . rw [take_of_ne used x h]
    simp [h]

theorem CacheOk.not_mem_full (h : CacheOk s used cp) (hlist : (s.cache cp).slablist = sp :: rest)
    : sp ∉ (s.cache cp).fullSlablist := by
  have := h.nodup
  unfold slabs at this
  rw [hlist] at this
  simp only [List.cons_append, List.nodup_cons, List.mem_append, not_or] at this
  exact this.1.2

theorem exchange_alloc (h : Core s created used) (hcp : cp ∈ created)
    (hlist : (s.cache cp).slablist = sp :: rest) (hfree : (s.slab sp).freelist = x :: free)
    : Exchange s ((s.setSlab sp (allocSlab s sp free)).setCache cp (allocCache s cp sp x)) cp sp used
        (take used sp x) := by
  have hcache := h.cache cp hcp
  have hsp : sp ∈ s.slabs cp := by simp [slabs, hlist]
  have hslab := hcache.slab sp hsp
  have hfull := hcache.not_mem_full hlist
  have hnotFull := hcache.notFull sp (by simp [hlist])
  have hrefcnt := hslab.refcnt
  have heqs := allocCache_lists s cp sp x
  have hlists := slabAllocLists_lists ((s.slab sp).refcnt + 1) hlist hfull
  rw [← heqs.1, ← heqs.2.1] at hlists
  -- the new entry is in no list of users yet
  have hx : ∀ y ∈ s.slabs cp, x ∉ used y := by
    intro y hy hmem
    apply h.free_not_allocated hcp hsp (x := x) (by simp [hfree])
    exact ⟨y, hy, x, hmem, rfl⟩
  have hsame := (slabAllocLists_same (s.cache cp) sp ((s.slab sp).refcnt + 1)).2.2
  apply Exchange.of_update heqs.2.2.1 heqs.2.2.2 (l := allocSlab s sp free) rfl rfl
    (fun sp' hne => take_of_ne used x hne)
  . rw [take_self, List.length_cons, ← hrefcnt]
    rfl
  . unfold slabs
    rcases hlists with ⟨_, h1, h2⟩ | ⟨_, h1, h2⟩
    . rw [h1, h2, hlist]
      exact List.perm_middle
    . rw [h1, h2, hlist]
  . rw [take_self, hfree]
    exact List.perm_middle
  . intro y hy
    by_cases hyx : y = sp
    . subst hyx
      rw [take_self, List.length_cons]
      rcases hlists with ⟨_, h1, _⟩ | ⟨hne, _, _⟩
      . have hnodup := hcache.nodup
        simp only [slabs, hlist, List.cons_append, List.nodup_cons, List.mem_append,
          not_or] at hnodup
        rw [h1] at hy
        exact absurd hy hnodup.1.1
      . omega
    . rw [take_of_ne used x hyx]
      apply hcache.notFull
      rw [hlist]
      rcases hlists with ⟨_, h1, _⟩ | ⟨_, h1, _⟩
      . rw [h1] at hy
        exact List.mem_cons_of_mem _ hy
      . rwa [h1] at hy
  . intro y hy
    rcases hlists with ⟨heq, _, h2⟩ | ⟨_, _, h2⟩
    . rw [h2, List.mem_cons] at hy
      rcases hy with rfl | hy
      . rw [take_self, List.length_cons, ← hrefcnt, heq]
      . rw [take_of_ne]
        . exact hcache.full y hy
        . rintro rfl
          exact hfull hy
    . rw [h2] at hy
      rw [take_of_ne]
      . exact hcache.full y hy
      . rintro rfl
        exact hfull hy
  . unfold allocCache
    dsimp only
    split
    . rw [hsame]
      exact hcache.buflistNodup
    . next hbase =>
      have hlarge : kmemSmallMax < (s.cache cp).chunksize := by
        by_contra hsmall
        exact hbase (hslab.small (by omega)).1
      simp only [hsame, List.nodup_cons]
      refine ⟨?_, hcache.buflistNodup⟩
      rw [hcache.buflist hlarge]
      rintro ⟨y, hy, hmem⟩
      exact hx y hy hmem
  . intro hlarge y
    unfold allocCache
    dsimp only
    rw [if_neg (hslab.large hlarge).1]
    simp only [hsame, List.mem_cons, mem_take]
    rw [hcache.buflist hlarge]
    constructor
    . rintro (rfl | ⟨z, hz, hy⟩)
      . exact ⟨sp, hsp, .inl ⟨rfl, rfl⟩⟩
      . exact ⟨z, hz, .inr hy⟩
    . rintro ⟨z, hz, ⟨_, rfl⟩ | hy⟩
      . exact .inl rfl
      . exact .inr ⟨z, hz, hy⟩

theorem Exchange.inv_take (he : Exchange s s' cp sp used (take used sp x)) (h : Inv s created used held)
    (hcp : cp ∈ created) (hsp : sp ∈ s.slabs cp) (hx : x ∈ (s.slab sp).freelist)
    : Inv s' created (take used sp x) (insert (cp, s.obj cp x) held) := by
  have hnew := h.core.free_not_allocated hcp hsp hx
  rw [h.own cp hcp, not_or] at hnew
  constructor
  . exact he.core h.core hcp hsp
  . rintro cp' y (heq | hheld)
    . cases heq
      exact hcp
    . exact h.heldCreated cp' y hheld
  . intro cp' hcp' y
    rw [he.metaObj, Set.mem_insert_iff, Prod.mk.injEq]
    by_cases heq : cp' = cp
    . subst heq
      rw [he.allocated hsp, or_assoc, ← h.own cp' hcp']
      simp only [take_self, List.mem_cons, exists_eq_or_imp, true_and]
      constructor
      . rintro ((heq | ⟨z, hz, heq⟩) | ⟨sp', hsp', _, hz⟩)
        . exact .inl heq.symm
        . exact .inr ⟨sp, hsp, z, hz, heq⟩
        . exact .inr ⟨sp', hsp', hz⟩
      . rintro (heq | ⟨sp', hsp', hz⟩)
        . exact .inl (.inl heq.symm)
        . by_cases hsps : sp' = sp
          . subst hsps
            exact .inl (.inr hz)
          . exact .inr ⟨sp', hsp', hsps, hz⟩
    . rw [he.allocated_of_ne h.core hcp hsp hcp' heq, h.own cp' hcp']
      simp [heq]
  . rintro cp' y (heq | hheld)
    . cases heq
      rw [he.metaObj]
      exact hnew.2
    . rw [he.metaObj]
      exact h.sep cp' y hheld

end Alloc

section Free

theorem slabFreeLists_same (c : KmemCache μ) (sp refcnt : Nat)
    : (slabFreeLists c sp refcnt).geometry = c.geometry ∧
        (slabFreeLists c sp refcnt).constructor = c.constructor ∧
        (slabFreeLists c sp refcnt).buflist = c.buflist := by
  unfold slabFreeLists
  split
  . exact ⟨rfl, rfl, rfl⟩
  . exact ⟨rfl, rfl, rfl⟩

theorem slabFreeLists_lists (c : KmemCache μ) (sp refcnt : Nat)
    (hfull : refcnt = c.slabcap → sp ∉ c.slablist)
    : (refcnt = c.slabcap ∧ (slabFreeLists c sp refcnt).slablist = sp :: c.slablist ∧
          (slabFreeLists c sp refcnt).fullSlablist = c.fullSlablist.erase sp) ∨
        (refcnt ≠ c.slabcap ∧ (slabFreeLists c sp refcnt).slablist = c.slablist ∧
          (slabFreeLists c sp refcnt).fullSlablist = c.fullSlablist) := by
  unfold slabFreeLists
  by_cases h : refcnt = c.slabcap
  . left
    rw [if_pos h]
    refine ⟨h, ?_, ?_⟩
    . simp [KmemCache.listRemove, List.erase_of_not_mem (hfull h)]
    . simp [KmemCache.listRemove]
  . right
    rw [if_neg h]
    exact ⟨h, rfl, rfl⟩

def freeCache (s : Kmem μ) (cp sp x : Nat) : KmemCache μ :=
  let c := slabFreeLists (s.cache cp) sp (s.slab sp).refcnt
  if (s.slab sp).base = 0 then c else { c with buflist := c.buflist.erase x }

def freeSlab (s : Kmem μ) (sp x : Nat) : KmemSlab :=
  { s.slab sp with
    freelist := x :: (s.slab sp).freelist
    refcnt := Word.sub (s.slab sp).refcnt 1 }

theorem slabFree_eq (cfg : Config) (hcache : CacheOk s used cp) (hsp : sp ∈ s.slabs cp) (hx : x ∈ used sp)
    (hsp0 : sp ≠ 0) (hx0 : x ≠ 0)
    : slabFree cfg s sp x =
        .ok ((s.setCache cp (freeCache s cp sp x)).setSlab sp (freeSlab s sp x)) := by
  have hslab := hcache.slab sp hsp
  have hparent := hslab.parent
  subst hparent
  have hremove : buflistRemove
      (slabFreeLists (s.cache (s.slab sp).parentCache) sp (s.slab sp).refcnt) (s.slab sp).base x =
        .ok (freeCache s (s.slab sp).parentCache sp x) := by
    unfold buflistRemove freeCache
    dsimp only
    by_cases hsmall : (s.cache (s.slab sp).parentCache).chunksize ≤ kmemSmallMax
    . rw [if_pos (hslab.small hsmall).1, if_pos (hslab.small hsmall).1]
      rfl
    . have hlarge : kmemSmallMax < (s.cache (s.slab sp).parentCache).chunksize := by omega
      have hmem : x ∈ (s.cache (s.slab sp).parentCache).buflist := by
        rw [hcache.buflist hlarge]
        exact ⟨sp, hsp, hx⟩
      have hbase := (hslab.large hlarge).1
      rw [if_neg hbase, if_neg hbase, (slabFreeLists_same ..).2.2, if_pos hmem]
      rfl
  unfold slabFree
  dsimp only
  rw [check_of cfg (by simpa using hsp0), check_of cfg (by simpa using hx0)]
  simp only [Except.ok_bind, hremove]
  rfl

def give (used : Nat → List Nat) (sp x : Nat) : Nat → List Nat :=
  Function.update used sp ((used sp).erase x)

theorem give_self (used : Nat → List Nat) (sp x : Nat)
    : give used sp x sp = (used sp).erase x := by
  exact Function.update_self ..

theorem give_of_ne (used : Nat → List Nat) (x : Nat) (h : sp' ≠ sp)
    : give used sp x sp' = used sp' := by
  exact Function.update_of_ne h ..

theorem freeCache_same (s : Kmem μ) (cp sp x : Nat)
    : (freeCache s cp sp x).slablist =
          (slabFreeLists (s.cache cp) sp (s.slab sp).refcnt).slablist ∧
        (freeCache s cp sp x).fullSlablist =
          (slabFreeLists (s.cache cp) sp (s.slab sp).refcnt).fullSlablist ∧
        (freeCache s cp sp x).geometry = (s.cache cp).geometry ∧
        (freeCache s cp sp x).constructor = (s.cache cp).constructor := by
  have hsame := slabFreeLists_same (s.cache cp) sp (s.slab sp).refcnt
  rw [← hsame.1, ← hsame.2.1]
  unfold freeCache
  dsimp only
  split
  . exact ⟨rfl, rfl, rfl, rfl⟩
  . exact ⟨rfl, rfl, rfl, rfl⟩

theorem Core.refcnt_lt (h : Core s created used) (hcp : cp ∈ created) (hsp : sp ∈ s.slabs cp)
    : (s.slab sp).refcnt < 2 ^ 64 := by
  have hslab := h.slabOk hcp hsp
  have hg := (h.cache cp hcp).geometry
  have hlen := hslab.length
  have haddr : s.chunkBase sp + (s.cache cp).slabsize * pageSize < 2 ^ 64 :=
    (h.ranges.addr _ hslab.range).2.2
  have hsize : (s.cache cp).slabcap * 1 ≤ (s.cache cp).slabcap * (s.cache cp).chunksize := by
    apply Nat.mul_le_mul_left
    exact Nat.le_trans (by decide) hg.chunksize
  have hrefcnt := hslab.refcnt
  have hfits := hg.fits
  omega

theorem exchange_free (h : Core s created used) (hcp : cp ∈ created) (hsp : sp ∈ s.slabs cp)
    (hx : x ∈ used sp)
    : Exchange s ((s.setCache cp (freeCache s cp sp x)).setSlab sp (freeSlab s sp x)) cp sp used
        (give used sp x) := by
  have hcache := h.cache cp hcp
  have hslab := hcache.slab sp hsp
  have hrefcnt := hslab.refcnt
  have heqs := freeCache_same s cp sp x
  have hlen : ((used sp).erase x).length = (used sp).length - 1 := List.length_erase_of_mem hx
  have hpos : 0 < (used sp).length := List.length_pos_of_mem hx
  have hle : (used sp).length ≤ (s.cache cp).slabcap := by
    have := hslab.length
    omega
  have hlists := slabFreeLists_lists (s.cache cp) sp (s.slab sp).refcnt (by
    intro heq hmem
    have := hcache.notFull sp hmem
    omega)
  rw [← heqs.1, ← heqs.2.1] at hlists
  have hnodup := hcache.nodup
  unfold slabs at hnodup
  rw [List.nodup_append] at hnodup
  have hother : ∀ y ∈ s.slabs cp, y ≠ sp → x ∉ used y := by
    intro y hy hne hmem
    have hpos : 0 < (s.cache cp).chunksize := Nat.lt_of_lt_of_le (by decide) hcache.geometry.chunksize
    have hapart := h.objs_apart hcp hy (List.mem_append_right _ hmem) hcp hsp
      (List.mem_append_right _ hx) (fun heq => absurd heq hne)
    exact hapart.ne hpos hpos rfl
  have hsame := (slabFreeLists_same (s.cache cp) sp (s.slab sp).refcnt).2.2
  apply Exchange.of_update heqs.2.2.1 heqs.2.2.2 (l := freeSlab s sp x) rfl rfl
    (fun sp' hne => give_of_ne used x hne)
  . rw [give_self, hlen, ← hrefcnt]
    exact Word.sub_eq (h.refcnt_lt hcp hsp) (by omega)
  . unfold slabs
    rcases hlists with ⟨heq, h1, h2⟩ | ⟨_, h1, h2⟩
    . have hfull : sp ∈ (s.cache cp).fullSlablist := by
        rcases List.mem_append.mp hsp with hmem | hmem
        . have := hcache.notFull sp hmem
          omega
        . exact hmem
      rw [h1, h2, List.cons_append]
      apply List.perm_middle.symm.trans
      exact (List.perm_cons_erase hfull).symm.append_left _
    . rw [h1, h2]
  . rw [give_self]
    apply List.perm_middle.symm.trans
    exact (List.perm_cons_erase hx).symm.append_left _
  . intro y hy
    by_cases hyx : y = sp
    . subst hyx
      rw [give_self, hlen]
      omega
    . rw [give_of_ne used x hyx]
      apply hcache.notFull
      rcases hlists with ⟨_, h1, _⟩ | ⟨_, h1, _⟩
      . rw [h1, List.mem_cons] at hy
        exact hy.resolve_left hyx
      . rwa [h1] at hy
  . intro y hy
    rcases hlists with ⟨_, _, h2⟩ | ⟨hne, _, h2⟩
    . rw [h2, hnodup.2.1.mem_erase_iff] at hy
      rw [give_of_ne used x hy.1]
      exact hcache.full y hy.2
    . rw [h2] at hy
      rw [give_of_ne]
      . exact hcache.full y hy
      . rintro rfl
        have := hcache.full y hy
        omega
  . unfold freeCache
    dsimp only
    split
    . rw [hsame]
      exact hcache.buflistNodup
    . simp only [hsame]
      exact hcache.buflistNodup.erase x
  . intro hlarge y
    unfold freeCache
    dsimp only
    rw [if_neg (hslab.large hlarge).1]
    simp only [hsame]
    rw [hcache.buflistNodup.mem_erase_iff, hcache.buflist hlarge]
    have hused := (hslab.nodup hcache.geometry)
    rw [List.nodup_append] at hused
    constructor
    . rintro ⟨hne, z, hz, hy⟩
      refine ⟨z, hz, ?_⟩
      by_cases hzsp : z = sp
      . subst hzsp
        rw [give_self, hused.2.1.mem_erase_iff]
        exact ⟨hne, hy⟩
      . rwa [give_of_ne used x hzsp]
    . rintro ⟨z, hz, hy⟩
      by_cases hzsp : z = sp
      . subst hzsp
        rw [give_self, hused.2.1.mem_erase_iff] at hy
        exact ⟨hy.1, z, hz, hy.2⟩
      . rw [give_of_ne used x hzsp] at hy
        refine ⟨?_, z, hz, hy⟩
        rintro rfl
        exact hother z hz hzsp hy

theorem Exchange.inv_give (he : Exchange s s' cp sp used (give used sp x)) (h : Inv s created used held)
    (hcp : cp ∈ created) (hsp : sp ∈ s.slabs cp) (hx : x ∈ used sp) (hheld : (cp, s.obj cp x) ∈ held)
    : Inv s' created (give used sp x) (held \ {(cp, s.obj cp x)}) := by
  have hslab := h.core.slabOk hcp hsp
  have hcache := h.core.cache cp hcp
  have hused := hslab.nodup hcache.geometry
  rw [List.nodup_append] at hused
  have hpos : 0 < (s.cache cp).chunksize := Nat.lt_of_lt_of_le (by decide) hcache.geometry.chunksize
  constructor
  . exact he.core h.core hcp hsp
  . intro cp' y hy
    exact h.heldCreated cp' y hy.1
  . intro cp' hcp' y
    rw [he.metaObj, Set.mem_sdiff, Set.mem_singleton_iff, Prod.mk.injEq]
    by_cases heq : cp' = cp
    . subst heq
      have hall : Allocated s' (give used sp x) cp' y ↔ Allocated s used cp' y ∧ y ≠ s.obj cp' x := by
        rw [he.allocated hsp]
        simp only [give_self, hused.2.1.mem_erase_iff]
        constructor
        . rintro (⟨z, ⟨hne, hz⟩, rfl⟩ | ⟨sp', hsp', hsps, z, hz, rfl⟩)
          . refine ⟨⟨sp, hsp, z, hz, rfl⟩, ?_⟩
            intro hobj
            exact hne (hslab.obj_inj hcache.geometry (List.mem_append_right _ hz)
              (List.mem_append_right _ hx) hobj)
          . refine ⟨⟨sp', hsp', z, hz, rfl⟩, ?_⟩
            exact (h.core.objs_apart hcp hsp' (List.mem_append_right _ hz) hcp hsp
              (List.mem_append_right _ hx) (fun heq => absurd heq hsps)).ne hpos hpos
        . rintro ⟨⟨sp', hsp', z, hz, rfl⟩, hne⟩
          by_cases hsps : sp' = sp
          . subst hsps
            refine .inl ⟨z, ⟨?_, hz⟩, rfl⟩
            rintro rfl
            exact hne rfl
          . exact .inr ⟨sp', hsp', hsps, z, hz, rfl⟩
      rw [hall, h.own cp' hcp']
      have hmeta := h.sep _ _ hheld
      constructor
      . rintro ⟨hy | hy, hne⟩
        . exact .inl ⟨hy, fun h => hne h.2⟩
        . exact .inr hy
      . rintro (⟨hy, hne⟩ | hy)
        . exact ⟨.inl hy, fun h => hne ⟨rfl, h⟩⟩
        . refine ⟨.inr hy, ?_⟩
          rintro rfl
          exact hmeta hy
    . rw [he.allocated_of_ne h.core hcp hsp hcp' heq, h.own cp' hcp']
      simp [heq]
  . intro cp' y hy
    rw [he.metaObj]
    exact h.sep cp' y hy.1

end Free


end

end Kmem
end Slab
end Nyy
