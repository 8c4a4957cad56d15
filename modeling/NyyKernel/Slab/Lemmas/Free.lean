import NyyKernel.Slab.Lemmas.Alloc

namespace Nyy
namespace Slab
namespace Kmem

variable {μ : Type}

section Free

variable {s s' : Kmem μ} {created : List Nat} {used : Nat → List Nat} {held : Set (Nat × Nat)}
  {cp sp x : Nat}

theorem alignUp_of_mem_page {pg : Nat} (hdvd : pageSize ∣ pg) (hlt : pg + pageSize < 2 ^ 64) (hle : pg ≤ x)
    (hx : x < pg + pageSize)
    : Word.alignUp (Word.add x 1) pageSize = pg + pageSize := by
  have hpage : pageSize = 2 ^ 12 := rfl
  rw [hpage] at hdvd hlt hx ⊢
  rcases hdvd with ⟨m, rfl⟩
  rw [Word.add_eq (by omega), Word.alignUp_two_pow (by omega) (by omega)]
  have : (x + 1 + (2 ^ 12 - 1)) / 2 ^ 12 = m + 1 := by omega
  rw [this]
  omega

theorem findSlab_spec (cfg : Config) (h : Inv s created used held) (hcp : cp ∈ created)
    (hsp : sp ∈ s.slabs cp) (hx : x ∈ used sp)
    : findSlab cfg s cp (s.obj cp x) = .ok (sp, x) := by
  have hmem : x ∈ (s.slab sp).freelist ++ used sp := List.mem_append_right _ hx
  have hcache := h.core.cache cp hcp
  have hslab := hcache.slab sp hsp
  unfold findSlab
  dsimp only
  by_cases hsmall : (s.cache cp).chunksize ≤ kmemSmallMax
  . have hin := h.core.inside_small hcp hsp hsmall hmem
    have hpages := (hcache.geometry.small hsmall).1
    have haddr : pageSize ∣ s.chunkBase sp ∧ 0 < s.chunkBase sp ∧
        s.chunkBase sp + (s.cache cp).slabsize * pageSize < 2 ^ 64 := h.core.ranges.addr _ hslab.range
    rw [hpages, Nat.one_mul] at haddr
    have hobj : s.obj cp x = x := by
      unfold obj
      rw [if_pos hsmall]
    have hpos := hcache.geometry.chunksize
    have hzero : 0 < kmemAlign := by decide
    rw [if_pos hsmall, hobj, alignUp_of_mem_page haddr.1 haddr.2.2 hin.1 (by omega),
      Word.sub_eq haddr.2.2 (by omega)]
    have : s.chunkBase sp + pageSize - sizeofSlab = sp := by omega
    rw [this]
    rfl
  . have hlarge : kmemSmallMax < (s.cache cp).chunksize := by omega
    have hobj : ∀ y, s.obj cp y = (s.bufctl y).base := by
      intro y
      unfold obj
      rw [if_neg hsmall]
    rw [if_neg hsmall]
    -- the search finds some buffer control of this object, and there is only one
    cases hfind : (s.cache cp).buflist.find? fun elm => (s.bufctl elm).base == s.obj cp x with
    | none =>
      rw [List.find?_eq_none] at hfind
      have hbuf : x ∈ (s.cache cp).buflist := by
        rw [hcache.buflist hlarge]
        exact ⟨sp, hsp, hx⟩
      have := hfind x hbuf
      simp [hobj] at this
    | some y =>
      have hbase := List.find?_some hfind
      have hbuf := List.mem_of_find?_eq_some hfind
      rw [hcache.buflist hlarge] at hbuf
      rcases hbuf with ⟨sp', hsp', hy⟩
      have heq : s.obj cp y = s.obj cp x := by
        rw [hobj]
        simpa using hbase
      have hboth : sp' = sp ∧ y = x := by
        by_contra hne
        have hpos : 0 < (s.cache cp).chunksize :=
          Nat.lt_of_lt_of_le (by decide) hcache.geometry.chunksize
        have hapart := h.core.objs_apart hcp hsp' (List.mem_append_right _ hy) hcp hsp hmem
          (fun hsps hyx => hne ⟨hsps, hyx⟩)
        exact hapart.ne hpos hpos heq
      rcases hboth with ⟨rfl, rfl⟩
      have howner := (hslab.large hlarge).2 y hmem
      dsimp only
      rw [howner]
      rfl

theorem Inv.slab_ne_zero (h : Inv s created used held) (hcp : cp ∈ created) (hsp : sp ∈ s.slabs cp)
    : sp ≠ 0 := by
  have hslab := h.core.slabOk hcp hsp
  by_cases hlarge : kmemSmallMax < (s.cache cp).chunksize
  . have hmem := h.core.metaCaches.slabCache
    exact h.allocated_pos hmem ((h.own _ hmem _).mpr (.inr (.inl ⟨rfl, cp, hcp, hlarge, hsp⟩)))
  . have hle := (hslab.small (by omega)).2
    have hsize : sizeofSlab < pageSize := by decide
    omega

theorem Inv.entry_ne_zero (h : Inv s created used held) (hcp : cp ∈ created) (hsp : sp ∈ s.slabs cp)
    (hx : x ∈ used sp)
    : x ≠ 0 := by
  have hmem : x ∈ (s.slab sp).freelist ++ used sp := List.mem_append_right _ hx
  by_cases hlarge : kmemSmallMax < (s.cache cp).chunksize
  . have hbufctl := h.core.metaCaches.bufctlCache
    apply h.allocated_pos hbufctl
    exact (h.own _ hbufctl _).mpr (.inr (.inr ⟨rfl, sp, ⟨cp, hcp, hlarge, hsp⟩, hmem⟩))
  . have hobj : s.obj cp x = x := by
      unfold obj
      rw [if_pos (by omega)]
    have := h.allocated_pos hcp ⟨sp, hsp, x, hx, rfl⟩
    rwa [hobj] at this

theorem Inv.destruct (h : Inv s created used held) (cp obj : Nat)
    : Inv (destruct s cp obj) created used held := by
  unfold Nyy.Slab.destruct
  split
  . exact h
  . exact h.setMem _

theorem destruct_eq (s : Kmem μ) (cp obj : Nat) : ∃ mem, destruct s cp obj = { s with mem := mem } := by
  unfold Nyy.Slab.destruct
  split
  . exact ⟨_, rfl⟩
  . exact ⟨_, rfl⟩

theorem kmemCacheFree_eq (cfg : Config) (h : Inv s created used held) (hheld : (cp, x) ∈ held)
    : ∃ sp y s', sp ∈ (Nyy.Slab.destruct s cp x).slabs cp ∧ y ∈ used sp ∧
        (Nyy.Slab.destruct s cp x).obj cp y = x ∧ kmemCacheFree cfg s cp x = .ok s' ∧
        Exchange (Nyy.Slab.destruct s cp x) s' cp sp used (give used sp y) := by
  have hcp := h.heldCreated cp x hheld
  have hd := h.destruct cp x
  unfold kmemCacheFree
  generalize Nyy.Slab.destruct s cp x = s1 at hd
  dsimp only
  rcases hd.allocated hheld with ⟨sp, hsp, y, hy, rfl⟩
  refine ⟨sp, y, _, hsp, hy, rfl, ?_, exchange_free hd.core hcp hsp hy⟩
  rw [findSlab_spec cfg hd hcp hsp hy, Except.ok_bind]
  dsimp only
  rw [slabFree_eq cfg (hd.core.cache cp hcp) hsp hy (hd.slab_ne_zero hcp hsp)
    (hd.entry_ne_zero hcp hsp hy)]

theorem kmemCacheFree_spec (cfg : Config) (h : Inv s created used held) (hheld : (cp, x) ∈ held)
    : ∃ s' used', kmemCacheFree cfg s cp x = .ok s' ∧
        Inv s' created used' (held \ {(cp, x)}) := by
  rcases kmemCacheFree_eq cfg h hheld with ⟨sp, y, s', hsp, hy, hobj, hok, hexchange⟩
  have hinv := hexchange.inv_give (h.destruct cp x) (h.heldCreated cp x hheld) hsp hy
  rw [hobj] at hinv
  exact ⟨s', _, hok, hinv hheld⟩

end Free

end Kmem

section Create

variable {env : KmemEnv} {bufsize align : Nat}

structure ArgsOk (bufsize align : Nat) : Prop where
  bufsizeLt : bufsize < 2 ^ 64
  alignLt : align < 2 ^ 64
  alignP2 : align = 0 ∨ p2check align = true
  bufsizeNe : bufsize ≠ 0
  slabsize : cacheGeometry bufsize (Word.alignUp bufsize (cacheAlign bufsize align)) ≠ none

theorem ArgsOk.cacheAlign (h : ArgsOk bufsize align)
    : ∃ k, k < 64 ∧ cacheAlign bufsize align = 2 ^ k ∧ kmemAlign ≤ 2 ^ k := by
  unfold Nyy.Slab.cacheAlign
  split
  . split
    . exact ⟨4, by omega, rfl, by decide⟩
    . exact ⟨3, by omega, rfl, by decide⟩
  . next hne =>
    split
    . exact ⟨3, by omega, rfl, by decide⟩
    . next hle =>
      have hp2 := h.alignP2.resolve_left hne
      unfold p2check at hp2
      rw [Word.sub_eq h.alignLt (by omega), beq_iff_eq] at hp2
      rcases Word.exists_two_pow hne hp2 with ⟨k, hk⟩
      refine ⟨k, ?_, hk, by omega⟩
      have hlt := h.alignLt
      rw [hk] at hlt
      exact (Nat.pow_lt_pow_iff_right (by omega)).mp hlt

theorem ArgsOk.geometryOk {μ : Type} (h : ArgsOk bufsize align) {c : KmemCache μ}
    (hsize : c.chunksize = Word.alignUp bufsize (Nyy.Slab.cacheAlign bufsize align)) (hne : c.chunksize ≠ 0)
    (hgeom : cacheGeometry bufsize c.chunksize = some (c.slabcap, c.slabsize)) (hcap : 0 < c.slabcap)
    : c.GeometryOk := by
  rcases h.cacheAlign with ⟨k, hk, heq, halign⟩
  rw [heq] at hsize
  have hbounds := Word.alignUp_bounds h.bufsizeLt (Nat.pos_of_ne_zero h.bufsizeNe) hk
    (by rwa [← hsize])
  rw [← hsize] at hbounds
  unfold cacheGeometry at hgeom
  split at hgeom
  . next hsmall =>
    simp only [Option.some.injEq, Prod.mk.injEq] at hgeom
    rcases hgeom with ⟨hcapEq, hpages⟩
    have hmul : c.slabcap * c.chunksize ≤ pageSize - sizeofSlab := by
      rw [← hcapEq]
      exact Nat.div_mul_le_self _ _
    have hlt : sizeofSlab < pageSize := by decide
    refine ⟨hcap, by omega, Nat.le_trans halign hbounds.1, ?_, fun _ => ⟨hpages.symm, by omega⟩⟩
    rw [← hpages]
    omega
  . next hlarge =>
    rw [Option.map_eq_some_iff] at hgeom
    rcases hgeom with ⟨pages, hfind, hpair⟩
    simp only [Prod.mk.injEq] at hpair
    rcases hpair with ⟨hcapEq, hpages⟩
    have hmem := List.mem_of_find?_eq_some hfind
    rw [List.mem_range'_1] at hmem
    refine ⟨hcap, by omega, Nat.le_trans halign hbounds.1, ?_, ?_⟩
    . rw [← hcapEq, ← hpages]
      exact Nat.div_mul_le_self _ _
    . intro hsmall
      omega

namespace Kmem

variable {μ : Type} {s s' : Kmem μ} {created : List Nat} {used : Nat → List Nat} {held : Set (Nat × Nat)}
  {cp cp' sp x : Nat} {constructor : Option (Nat → μ → Int × μ)} {destructor : Option (Nat → μ → μ)}

structure Created (s s' : Kmem μ) (cp bufsize align : Nat) (constructor : Option (Nat → μ → Int × μ))
    : Prop where
  eq : s' = { s with ranges := (cp, 1) :: s.ranges }.setCache cp (s'.cache cp)
  ranges : RangesOk ((cp, 1) :: s.ranges)
  apart : ∀ r ∈ s.ranges, Apart cp (1 * pageSize) r.1 (r.2 * pageSize)
  lists : (s'.cache cp).slablist = [] ∧ (s'.cache cp).fullSlablist = [] ∧ (s'.cache cp).buflist = []
  constructor : (s'.cache cp).constructor = constructor
  chunksize : (s'.cache cp).chunksize = Word.alignUp bufsize (Nyy.Slab.cacheAlign bufsize align)
  chunksizeNe : (s'.cache cp).chunksize ≠ 0
  geometry : cacheGeometry bufsize (s'.cache cp).chunksize =
    some ((s'.cache cp).slabcap, (s'.cache cp).slabsize)

theorem kmemCacheCreate_created {cfg : Config} (hf : Fresh env) (hranges : RangesOk s.ranges)
    (hargs : ArgsOk bufsize align)
    (h : kmemCacheCreate cfg env s bufsize align constructor destructor = .ok (cp, s'))
    : Created s s' cp bufsize align constructor := by
  unfold kmemCacheCreate at h
  have halign : (align == 0 || p2check align) = true := by
    have := hargs.alignP2
    simpa using this
  rw [check_of cfg halign, Except.ok_bind, check_of cfg (by simpa using hargs.bufsizeNe),
    Except.ok_bind] at h
  rcases vmKalloc_cases hf hranges Nat.one_pos with herr | ⟨a, hok, hranges', hapart⟩
  . rw [herr] at h
    cases h
  . rw [hok, Except.ok_bind] at h
    dsimp only at h
    split at h
    . cases h
    . next hne =>
      split at h
      . next slabcap slabsize hgeom =>
        cases h
        refine ⟨?_, hranges', hapart, ?_, ?_, ?_, ?_, ?_⟩
        . simp [setCache]
        . simp [setCache]
        . simp [setCache]
        . simp [setCache]
        . simpa [setCache] using hne
        . simpa [setCache] using hgeom
      . next hgeom => exact absurd hgeom hargs.slabsize

theorem argsOk_of_ok (hbufsize : bufsize < 2 ^ 64) (halign : align < 2 ^ 64)
    (h : kmemCacheCreate ⟨false⟩ env s bufsize align constructor destructor = .ok (cp, s'))
    : ArgsOk bufsize align := by
  unfold kmemCacheCreate at h
  rcases Except.bind_eq_ok h with ⟨_, h1, h⟩
  rcases Except.bind_eq_ok h with ⟨_, h2, h⟩
  rcases Except.bind_eq_ok h with ⟨⟨a, s1⟩, _, h⟩
  have hp2 := (check_eq_ok h1).resolve_left (by simp)
  have hne := (check_eq_ok h2).resolve_left (by simp)
  refine ⟨hbufsize, halign, by simpa using hp2, by simpa using hne, ?_⟩
  dsimp only at h
  split at h
  . cases h
  . split at h
    . next hgeom => simp [hgeom]
    . cases h

theorem Created.cache_of_ne (hc : Created s s' cp bufsize align constructor) (hne : cp' ≠ cp)
    : s'.cache cp' = s.cache cp' := by
  rw [hc.eq]
  exact Function.update_of_ne hne ..

theorem Created.slabs (hc : Created s s' cp bufsize align constructor) : s'.slabs cp = [] := by
  unfold Kmem.slabs
  rw [hc.lists.1, hc.lists.2.1]
  rfl

theorem CacheOk.of_empty (hgeom : (s.cache cp).GeometryOk)
    (hlists : (s.cache cp).slablist = [] ∧ (s.cache cp).fullSlablist = [] ∧
      (s.cache cp).buflist = [])
    : CacheOk s used cp := by
  have hslabs : s.slabs cp = [] := by
    unfold Kmem.slabs
    rw [hlists.1, hlists.2.1]
    rfl
  constructor
  . exact hgeom
  . simp [hslabs]
  . simp [hslabs]
  . simp [hlists.1]
  . simp [hlists.2.1]
  . simp [hlists.2.2]
  . simp [hlists.2.2, hslabs]

theorem Created.geometryOk (hc : Created s s' cp bufsize align constructor) (hargs : ArgsOk bufsize align)
    (hcap : 0 < (s'.cache cp).slabcap)
    : (s'.cache cp).GeometryOk := by
  exact hargs.geometryOk hc.chunksize hc.chunksizeNe hc.geometry hcap

theorem Inv.create (h : Inv s created used held) (hc : Created s s' cp bufsize align constructor)
    (hargs : ArgsOk bufsize align) (hcap : 0 < (s'.cache cp).slabcap)
    : Inv s' (cp :: created) used held := by
  have hnew : ∀ r ∈ s.ranges, r.1 ≠ cp := by
    intro r hr
    exact ne_of_apart h.core.ranges Nat.one_pos hc.apart hr
  have hne : ∀ cp' ∈ created, cp' ≠ cp := by
    intro cp' hcp'
    exact hnew _ (h.core.descr cp' hcp')
  have hcp : cp ∉ created := fun hmem => hne cp hmem rfl
  have hslabs := hc.slabs
  have hranges : s'.ranges = (cp, 1) :: s.ranges := by
    rw [hc.eq]
    rfl
  have hslab : s'.slab = s.slab := by
    rw [hc.eq]
    rfl
  -- for the caches that were there before nothing changed
  have he : Elsewhere s s' created used := by
    constructor
    . exact fun cp' hcp' => hc.cache_of_ne (hne cp' hcp')
    . intro _ _ _ _
      rw [hslab]
    . intro _ _ _ _ _ _ _
      rw [hc.eq]
      rfl
    . rw [hc.eq]
      rfl
    . rw [hc.eq]
      rfl
    . rw [hranges]
      exact fun _ hr => List.mem_cons_of_mem _ hr
  have hold := h.frame he (by rw [hranges]; exact hc.ranges)
  have hlarge : ∀ sp, LargeSlab s' (cp :: created) sp ↔ LargeSlab s' created sp := by
    intro sp
    unfold LargeSlab
    simp [hslabs]
  have hmeta : ∀ cp' x, Meta s' (cp :: created) used cp' x ↔ Meta s' created used cp' x := by
    intro cp' x
    unfold Meta
    simp only [hlarge]
  have hbase : ∀ cp' ∈ created, ∀ sp ∈ s'.slabs cp', s'.chunkBase sp ≠ cp := by
    intro cp' hcp' sp hsp heq
    rw [slabs_congr (he.cache cp' hcp')] at hsp
    have hrange := (h.core.slabOk hcp' hsp).range
    apply hnew _ hrange
    rw [← heq]
    exact (chunkBase_congr (by rw [hslab])).symm
  constructor
  . constructor
    . exact hold.core.ranges
    . simp only [List.forall_mem_cons]
      exact ⟨.of_empty (hc.geometryOk hargs hcap) hc.lists, hold.core.cache⟩
    . simp only [List.forall_mem_cons]
      refine ⟨?_, hold.core.descr⟩
      rw [hranges]
      exact List.mem_cons_self
    . simp only [List.forall_mem_cons]
      refine ⟨by simp [hslabs], ?_⟩
      intro cp' hcp' sp hsp
      exact ⟨hbase cp' hcp' sp hsp, hold.core.apart cp' hcp' sp hsp⟩
    . simp only [List.forall_mem_cons, hslabs, List.not_mem_nil, false_implies, implies_true,
        true_and]
      exact hold.core.inj
    . have hm := hold.core.metaCaches
      exact ⟨List.mem_cons_of_mem _ hm.slabCache, List.mem_cons_of_mem _ hm.bufctlCache, hm.ne, hm.small⟩
  . intro cp' x hx
    exact List.mem_cons_of_mem _ (h.heldCreated cp' x hx)
  . intro cp' hcp' x
    rw [hmeta]
    rcases List.mem_cons.mp hcp' with rfl | hcp'
    . have h1 : ¬ Allocated s' used cp' x := by
        rintro ⟨sp, hsp, _⟩
        rw [hslabs] at hsp
        cases hsp
      have h2 : (cp', x) ∉ held := fun hx => hcp (h.heldCreated _ _ hx)
      have h3 : ¬ Meta s' created used cp' x := by
        rintro (⟨rfl, _⟩ | ⟨rfl, _⟩)
        . exact hcp hold.core.metaCaches.slabCache
        . exact hcp hold.core.metaCaches.bufctlCache
      simp [h1, h2, h3]
    . exact hold.own cp' hcp' x
  . intro cp' x hx
    rw [hmeta]
    exact hold.sep cp' x hx

end Kmem
end Create

end Slab
end Nyy
