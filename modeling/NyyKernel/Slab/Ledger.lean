import NyyKernel.Slab.Run

namespace Nyy
namespace Slab
namespace Kmem

variable {μ : Type}

def slabRange (s : Kmem μ) (cp sp : Nat) : Nat × Nat := (s.chunkBase sp, (s.cache cp).slabsize)

def cacheRanges (s : Kmem μ) (cp : Nat) : List (Nat × Nat) :=
  (cp, 1) :: (s.slabs cp).map (s.slabRange cp)

def owned (s : Kmem μ) (created : List Nat) : List (Nat × Nat) := created.flatMap s.cacheRanges

structure Ledger (s : Kmem μ) (created : List Nat) (pages : List (Nat × Nat)) : Prop where
  nodup : (s.ranges.map Prod.fst).Nodup
  perm : s.ranges.Perm (s.owned created ++ pages)

section

variable {s s' : Kmem μ} {created : List Nat} {used used' : Nat → List Nat} {held : Set (Nat × Nat)}
  {cp cp' sp x a n obj : Nat} {pages : List (Nat × Nat)}

theorem flatMap_perm {α β : Type} {f g : α → List β} {l : List α} {a : α} {xs : List β} (hl : l.Nodup)
    (ha : a ∈ l) (hother : ∀ b ∈ l, b ≠ a → g b = f b) (hperm : (g a).Perm (xs ++ f a))
    : (l.flatMap g).Perm (xs ++ l.flatMap f) := by
  induction l with
  | nil => cases ha
  | cons b l ih =>
    rw [List.nodup_cons] at hl
    rw [List.flatMap_cons, List.flatMap_cons]
    by_cases hb : b = a
    . subst hb
      have hrest : l.flatMap g = l.flatMap f := by
        apply List.flatMap_congr
        intro c hc
        apply hother c (List.mem_cons_of_mem _ hc)
        rintro rfl
        exact hl.1 hc
      rw [hrest, ← List.append_assoc]
      exact hperm.append_right _
    . have hrest := ih hl.2 ((List.mem_cons.mp ha).resolve_left (Ne.symm hb))
        fun c hc => hother c (List.mem_cons_of_mem _ hc)
      rw [hother b List.mem_cons_self hb]
      refine (hrest.append_left _).trans ?_
      rw [← List.append_assoc, ← List.append_assoc]
      exact List.perm_append_comm.append_right _

theorem owned_link (hnodup : created.Nodup) (hcp : cp ∈ created)
    : ((s.link cp sp).owned created).Perm (s.slabRange cp sp :: s.owned created) := by
  change List.Perm _ ([s.slabRange cp sp] ++ s.owned created)
  refine flatMap_perm hnodup hcp ?_ ?_
  . intro cp' _ hne
    unfold cacheRanges
    rw [slabs_congr (link_cache s sp hne)]
    congr 1
    apply List.map_congr_left
    intro sp' _
    unfold slabRange
    rw [link_cache s sp hne]
    rfl
  . have hslabs : (s.link cp sp).slabs cp = sp :: s.slabs cp := by
      simp [slabs, Kmem.link, setCache]
    have hrange : (s.link cp sp).slabRange cp = s.slabRange cp := by
      funext sp'
      unfold slabRange
      have : ((s.link cp sp).cache cp).slabsize = (s.cache cp).slabsize :=
        congrArg (fun g => g.2.2) (link_geometry s cp sp cp)
      rw [this]
      rfl
    unfold cacheRanges
    rw [hslabs, hrange, List.map_cons]
    exact List.Perm.swap ..

namespace Ledger

section

variable (h : Ledger s created pages)

include h

theorem created_nodup : created.Nodup := by
  have hnodup := (h.perm.map Prod.fst).nodup_iff.mp h.nodup
  rw [List.map_append] at hnodup
  have hflat := (List.nodup_append.mp hnodup).1.of_map
  unfold owned at hflat
  rw [List.nodup_flatMap] at hflat
  refine hflat.2.imp ?_
  rintro cp _ hdisjoint rfl
  exact hdisjoint List.mem_cons_self List.mem_cons_self

theorem unowned (ha : (a, n) ∈ pages) : Unowned s created a := by
  have hnodup := (h.perm.map Prod.fst).nodup_iff.mp h.nodup
  rw [List.map_append, List.nodup_append] at hnodup
  have hne : ∀ cp ∈ created, ∀ r ∈ s.cacheRanges cp, r.1 ≠ a := by
    intro cp hcp r hr
    exact hnodup.2.2 _ (List.mem_map_of_mem (List.mem_flatMap.mpr ⟨cp, hcp, hr⟩)) _
      (List.mem_map_of_mem ha)
  refine ⟨⟨n, h.perm.mem_iff.mpr (List.mem_append_right _ ha)⟩, ?_, ?_⟩
  . intro hcp
    exact hne a hcp _ List.mem_cons_self rfl
  . intro cp hcp sp hsp
    exact hne cp hcp _ (List.mem_cons_of_mem _ (List.mem_map_of_mem hsp))

theorem congr (hranges : s'.ranges = s.ranges) (hslabs : ∀ cp ∈ created, (s'.slabs cp).Perm (s.slabs cp))
    (hrange : ∀ cp ∈ created, ∀ sp ∈ s.slabs cp, s'.slabRange cp sp = s.slabRange cp sp)
    : Ledger s' created pages := by
  refine ⟨by rw [hranges]; exact h.nodup, ?_⟩
  rw [hranges]
  refine h.perm.trans (List.Perm.append_right _ ?_)
  unfold owned
  apply List.Perm.flatMap_left
  intro cp hcp
  have hmap := (hslabs cp hcp).map (s'.slabRange cp)
  rw [List.map_congr_left (hrange cp hcp)] at hmap
  exact hmap.symm.cons _

theorem setSlab (hsp : ∀ cp ∈ created, sp ∉ s.slabs cp) (slab : KmemSlab)
    : Ledger (s.setSlab sp slab) created pages := by
  refine h.congr rfl (fun _ _ => .refl _) ?_
  intro cp hcp sp' hsp'
  have hne : sp' ≠ sp := by
    rintro rfl
    exact hsp cp hcp hsp'
  unfold slabRange
  rw [chunkBase_congr (s := s)]
  . rfl
  . simp [Kmem.setSlab, hne]

theorem setMem (mem : μ) : Ledger { s with mem := mem } created pages :=
  h.congr rfl (fun _ _ => .refl _) fun _ _ _ _ => rfl

theorem exchange (he : Exchange s s' cp sp used used') : Ledger s' created pages := by
  refine h.congr he.ranges ?_ ?_
  . intro cp' _
    by_cases heq : cp' = cp
    . rw [heq]
      exact he.slabs
    . rw [slabs_congr (he.cache cp' heq)]
  . intro cp' _ sp' _
    unfold slabRange
    rw [he.chunkBase]
    by_cases heq : cp' = cp
    . rw [heq]
      exact congrArg _ (congrArg (fun g => g.2.2) he.geometry)
    . rw [he.cache cp' heq]

theorem kalloc (hranges : RangesOk s.ranges) (hn : 0 < n)
    (hapart : ∀ r ∈ s.ranges, Apart a (n * pageSize) r.1 (r.2 * pageSize))
    : Ledger { s with ranges := (a, n) :: s.ranges } created ((a, n) :: pages) := by
  constructor
  . rw [List.map_cons, List.nodup_cons]
    refine ⟨?_, h.nodup⟩
    rw [List.mem_map]
    rintro ⟨r, hr, heq⟩
    exact ne_of_apart hranges hn hapart hr heq
  . refine (h.perm.cons (a, n)).trans ?_
    exact List.perm_middle.symm

end

theorem link (h : Ledger s created (s.slabRange cp sp :: pages)) (hcp : cp ∈ created)
    : Ledger (s.link cp sp) created pages := by
  refine ⟨h.nodup, h.perm.trans ?_⟩
  refine List.perm_middle.trans ?_
  exact ((owned_link h.created_nodup hcp).append_right pages).symm

end Ledger

section Alloc

variable {cfg : Config} {env : KmemEnv} {fuel : Nat}

theorem Ledger.allocFirst (h : Ledger s created pages) (hinv : Inv s created used held) (hcp : cp ∈ created)
    (hne : (s.cache cp).slablist ≠ []) (hok : allocFirst cfg s cp = .ok (obj, s'))
    : Ledger s' created pages := by
  rcases allocFirst_eq cfg hinv hcp hne with ⟨sp, x, s1, hexchange, _, _, heq⟩
  rw [heq] at hok
  rcases Except.bind_eq_ok hok with ⟨s2, hs2, hok⟩
  cases hok
  rcases construct_cases cfg s1 cp (s.obj cp x) with ⟨herr, _⟩ | ⟨mem, hok⟩
  . rw [herr] at hs2
    cases hs2
  . rw [hok] at hs2
    cases hs2
    exact (h.exchange hexchange).setMem mem

section

variable (hf : Fresh env) (h : Ledger s created pages) (hinv : Inv s created used held) (hcp : cp ∈ created)
  (hsmall : (s.cache cp).chunksize ≤ kmemSmallMax)

include hf h hinv hcp hsmall

theorem Ledger.grow_small (hok : grow (smallSlabCreate env) s cp = .ok s')
    : Ledger s' created pages := by
  unfold grow at hok
  split at hok
  . rcases smallSlabCreate_cases hf hinv.core hcp hsmall with herr | ⟨pg, hcreate, hranges, hapart⟩
    . rw [herr] at hok
      cases hok
    . rw [hcreate] at hok
      cases hok
      have hloose : ∀ cp' ∈ created, header pg ∉ s.slabs cp' :=
        fun cp' hcp' => hinv.header_loose hapart hcp'
      have hpages : (s.cache cp).slabsize = 1 :=
        ((hinv.core.cache cp hcp).geometry.small hsmall).1
      refine Ledger.link (s := smallCreated s cp pg) ?_ hcp
      have hrange : (smallCreated s cp pg).slabRange cp (header pg) = (pg, 1) := by
        unfold slabRange
        rw [smallCreated_chunkBase]
        exact congrArg _ hpages
      rw [hrange]
      exact (h.kalloc hinv.core.ranges Nat.one_pos hapart).setSlab hloose _
  . cases hok
    exact h

theorem Ledger.kmemCacheAlloc_small (hok : kmemCacheAlloc cfg env (fuel + 1) s cp = .ok (obj, s'))
    : Ledger s' created pages := by
  unfold kmemCacheAlloc at hok
  simp only [if_pos hsmall] at hok
  rcases Except.bind_eq_ok hok with ⟨s1, hgrow, hok⟩
  have h1 := h.grow_small hf hinv hcp hsmall hgrow
  by_cases hempty : (s.cache cp).slablist = []
  . rcases Kmem.grow_small hf hinv hcp hsmall hempty with herr | ⟨s2, used2, hgrow2, hinv2, hne, _⟩
    . rw [hgrow] at herr
      cases herr
    . rw [hgrow] at hgrow2
      cases hgrow2
      exact h1.allocFirst hinv2 hcp hne hok
  . rw [grow_of_ne hempty] at hgrow
    cases hgrow
    exact h.allocFirst hinv hcp hempty hok

end

def MetaLedger (created : List Nat) (alloc : CacheAlloc μ) : Prop :=
  ∀ (s s' : Kmem μ) used held pages cp obj, Inv s created used held →
    cp = s.slabCache ∨ cp = s.bufctlCache → Ledger s created pages → alloc s cp = .ok (obj, s') →
      Ledger s' created pages

theorem metaLedger_kmemCacheAlloc (cfg : Config) (hf : Fresh env) (created : List Nat) (fuel : Nat)
    : MetaLedger created (kmemCacheAlloc (μ := μ) cfg env (fuel + 1)) := by
  intro s s' used held pages cp obj hinv hcp h hok
  have hmeta := hinv.core.metaCaches
  have hmem : cp ∈ created := by
    rcases hcp with rfl | rfl
    . exact hmeta.slabCache
    . exact hmeta.bufctlCache
  exact h.kmemCacheAlloc_small hf hinv hmem (hmeta.small cp hcp).1 hok

section Large

variable {alloc : CacheAlloc μ} {base : Nat}

theorem Ledger.largeSlabFill (halloc : MetaAlloc created alloc) (hledger : MetaLedger created alloc)
    {is : List Nat} (hinv : Inv s created used held) (hsp : (s.slabCache, sp) ∈ held)
    (h : Ledger s created pages) (hok : largeSlabFill alloc cp sp base is s = .ok s')
    : Ledger s' created pages ∧ s'.slabRange cp sp = s.slabRange cp sp := by
  induction is generalizing s used held with
  | nil =>
    cases hok
    exact ⟨h, rfl⟩
  | cons i is ih =>
    unfold Nyy.Slab.largeSlabFill at hok
    rcases Except.bind_eq_ok hok with ⟨⟨bp, s1⟩, h1, hok⟩
    rcases halloc s used held s.bufctlCache hinv (.inr rfl)
      with herr | ⟨bp', s2, used2, hok2, hinv2, _, hkept⟩
    . rw [h1] at herr
      cases herr
    . rw [h1] at hok2
      cases hok2
      have hs1 := hledger s s1 used held pages _ bp hinv (.inr rfl) h h1
      have hsp1 : (s1.slabCache, sp) ∈ insert (s.bufctlCache, bp) held := by
        rw [hkept.stable.slabCache]
        exact Set.mem_insert_of_mem _ hsp
      have hbp1 : (s1.bufctlCache, bp) ∈ insert (s.bufctlCache, bp) held := by
        rw [hkept.stable.bufctlCache]
        exact Set.mem_insert ..
      have hloose : ∀ cp' ∈ created, sp ∉ s1.slabs cp' :=
        fun cp' hcp' => hinv2.held_not_slab hsp1 hcp'
      have hset : Ledger (s1.setBufctl bp ⟨sp, Word.add base (Word.mul (s1.cache cp).chunksize i)⟩)
          created pages := hs1.congr rfl (fun _ _ => .refl _) fun _ _ _ _ => rfl
      rcases ih (hinv2.bufctlAdded hsp1 hbp1 _) hsp1 (hset.setSlab hloose _) hok with ⟨hs', hrange⟩
      refine ⟨hs', hrange.trans ?_⟩
      unfold slabRange
      have hpages : (s1.cache cp).slabsize = (s.cache cp).slabsize :=
        congrArg (fun g => g.2.2) (hkept.stable.geometry cp)
      rw [chunkBase_congr (s := s)]
      . exact congrArg _ hpages
      . simp [Kmem.bufctlAdded, Kmem.setSlab, hkept.slab sp hsp]

theorem Ledger.grow_large (hf : Fresh env) (halloc : MetaAlloc created alloc)
    (hledger : MetaLedger created alloc) (h : Ledger s created pages) (hinv : Inv s created used held)
    (hcp : cp ∈ created) (hok : grow (largeSlabCreate cfg env alloc) s cp = .ok s')
    : Ledger s' created pages := by
  unfold grow at hok
  split at hok
  . rcases Except.bind_eq_ok hok with ⟨⟨sp, s5⟩, hcreate, hok⟩
    unfold largeSlabCreate at hcreate
    rcases Except.bind_eq_ok hcreate with ⟨⟨sp', s1⟩, h1, hcreate⟩
    rcases Except.bind_eq_ok hcreate with ⟨_, _, hcreate⟩
    rcases Except.bind_eq_ok hcreate with ⟨⟨base, s3⟩, h3, hcreate⟩
    rcases Except.bind_eq_ok hcreate with ⟨s4, h4, hcreate⟩
    cases hcreate
    cases hok
    -- the header
    rcases halloc s used held s.slabCache hinv (.inl rfl)
      with herr | ⟨sp', s1', used1, hok1, hinv1, _, hkept⟩
    . rw [h1] at herr
      cases herr
    rw [h1] at hok1
    cases hok1
    have hsp1 : (s1.slabCache, sp) ∈ insert (s.slabCache, sp) held := by
      rw [hkept.stable.slabCache]
      exact Set.mem_insert ..
    have hloose : ∀ cp' ∈ created, sp ∉ s1.slabs cp' :=
      fun cp' hcp' => hinv1.held_not_slab hsp1 hcp'
    have hs1 := hledger s s1 used held pages _ sp hinv (.inl rfl) h h1
    have hs2 := hs1.setSlab hloose { s1.slab sp with freelist := [], refcnt := 0, parentCache := cp }
    have hinv2 := hinv1.setSlab hsp1 { s1.slab sp with freelist := [], refcnt := 0, parentCache := cp }
    -- its chunks
    have hpos := (hinv2.core.cache cp hcp).geometry.slabsize
    rcases vmKalloc_cases hf hinv2.core.ranges hpos with herr | ⟨a, hok3, hranges, hapart⟩
    . rw [h3] at herr
      cases herr
    rw [h3] at hok3
    cases hok3
    have hs3 := (hs2.kalloc hinv2.core.ranges hpos hapart).setSlab hloose
    have hinv3 := (hinv2.kalloc hranges).setSlab hsp1
    rcases Ledger.largeSlabFill halloc hledger (hinv3 _) hsp1 (hs3 _) h4 with ⟨hs4, hrange⟩
    have hne : base ≠ 0 := by
      have := (hranges.addr _ List.mem_cons_self).2.1
      omega
    have hslab : s5.slabRange cp sp = (base, (s1.cache cp).slabsize) := by
      rw [hrange]
      simp [slabRange, chunkBase, Kmem.setSlab, hne]
    refine Ledger.link ?_ hcp
    rw [hslab]
    exact hs4
  . cases hok
    exact h

end Large

theorem Ledger.kmemCacheAlloc (hf : Fresh env) (h : Ledger s created pages) (hinv : Inv s created used held)
    (hcp : cp ∈ created) (hok : kmemCacheAlloc cfg env (fuel + 2) s cp = .ok (obj, s'))
    : Ledger s' created pages := by
  by_cases hsmall : (s.cache cp).chunksize ≤ kmemSmallMax
  . exact h.kmemCacheAlloc_small hf hinv hcp hsmall hok
  . have halloc := metaAlloc_kmemCacheAlloc (μ := μ) cfg hf created fuel
    have hledger := metaLedger_kmemCacheAlloc (μ := μ) cfg hf created fuel
    unfold Nyy.Slab.kmemCacheAlloc at hok
    simp only [if_neg hsmall] at hok
    rcases Except.bind_eq_ok hok with ⟨s1, hgrow, hok⟩
    have h1 := h.grow_large hf halloc hledger hinv hcp hgrow
    by_cases hempty : (s.cache cp).slablist = []
    . rcases Kmem.grow_large cfg hf halloc hinv hcp (by omega) hempty
        with herr | ⟨s2, used2, hgrow2, hinv2, hne, _⟩
      . rw [hgrow] at herr
        cases herr
      . rw [hgrow] at hgrow2
        cases hgrow2
        exact h1.allocFirst hinv2 hcp hne hok
    . rw [grow_of_ne hempty] at hgrow
      cases hgrow
      exact h.allocFirst hinv hcp hempty hok

theorem Ledger.destruct (h : Ledger s created pages) (cp obj : Nat)
    : Ledger (destruct s cp obj) created pages := by
  unfold Nyy.Slab.destruct
  split
  . exact h
  . exact h.setMem _

theorem Ledger.kmemCacheFree (h : Ledger s created pages) (hinv : Inv s created used held)
    (hheld : (cp, x) ∈ held) (hok : kmemCacheFree cfg s cp x = .ok s')
    : Ledger s' created pages := by
  rcases kmemCacheFree_eq cfg hinv hheld with ⟨sp, y, s1, _, _, _, hok1, hexchange⟩
  rw [hok] at hok1
  cases hok1
  exact (h.destruct cp x).exchange hexchange

theorem Ledger.create {bufsize align : Nat} {constructor : Option (Nat → μ → Int × μ)}
    (h : Ledger s created pages) (hranges : RangesOk s.ranges)
    (hc : Created s s' cp bufsize align constructor)
    : Ledger s' (cp :: created) pages := by
  have hnew : s'.ranges = (cp, 1) :: s.ranges := by
    rw [hc.eq]
    rfl
  have hnodup : ((s'.ranges).map Prod.fst).Nodup := by
    rw [hnew]
    exact (h.kalloc hranges Nat.one_pos hc.apart).nodup
  have hcp : cp ∉ created := by
    intro hcp
    have hmem : (cp, 1) ∈ s.ranges := by
      refine h.perm.mem_iff.mpr (List.mem_append_left _ ?_)
      exact List.mem_flatMap.mpr ⟨cp, hcp, List.mem_cons_self⟩
    exact ne_of_apart hranges Nat.one_pos hc.apart hmem rfl
  have hsame : s'.owned created = s.owned created := by
    apply List.flatMap_congr
    intro cp' hcp'
    have hne : cp' ≠ cp := by
      rintro rfl
      exact hcp hcp'
    unfold cacheRanges
    rw [slabs_congr (hc.cache_of_ne hne)]
    congr 1
    apply List.map_congr_left
    intro sp _
    unfold slabRange
    rw [hc.cache_of_ne hne, chunkBase_congr (s := s)]
    rw [hc.eq]
    rfl
  refine ⟨hnodup, ?_⟩
  unfold owned at hsame ⊢
  rw [hnew, List.flatMap_cons, hsame]
  unfold cacheRanges
  rw [hc.slabs]
  exact h.perm.cons _

end Alloc
end
end Kmem

namespace KmemState

variable {cfg : Config} {env : KmemEnv} {st st' : KmemState μ} {used : Nat → List Nat}
  {pages : List (Nat × Nat)}

theorem ledger_init (hf : Fresh env) (h : KmemInit cfg env st)
    : Kmem.Ledger st.kmem st.created [] := by
  rcases st with ⟨kmem, created, live⟩
  rcases h with ⟨s, hempty, hinit, hcreated, _⟩
  dsimp only at hinit hcreated
  unfold kmemSlabInit at hinit
  rcases Except.bind_eq_ok hinit with ⟨⟨cp1, s1⟩, hok1, hinit⟩
  rcases Except.bind_eq_ok hinit with ⟨⟨cp2, s2⟩, hok2, hinit⟩
  cases hinit
  have hnil : RangesOk s.ranges := by
    rw [hempty]
    exact ⟨by simp, by simp, by simp⟩
  have h0 : Kmem.Ledger s [] [] := ⟨by simp [hempty], by simp [hempty, Kmem.owned]⟩
  have hc1 := Kmem.kmemCacheCreate_created hf hnil argsOk_slab hok1
  have h1 := h0.create hnil hc1
  have hranges1 : RangesOk s1.ranges := by
    rw [hc1.eq]
    exact hc1.ranges
  have hc2 := Kmem.kmemCacheCreate_created (s := { s1 with slabCache := cp1 }) hf hranges1
    argsOk_largeBufctl hok2
  have h2 := Kmem.Ledger.create (s := { s1 with slabCache := cp1 })
    (h1.congr rfl (fun _ _ => .refl _) fun _ _ _ _ => rfl) hranges1 hc2
  have hslabCache : s2.slabCache = cp1 := by
    rw [hc2.eq]
    rfl
  rw [hcreated]
  dsimp only
  rw [hslabCache]
  exact h2.congr rfl (fun _ _ => .refl _) fun _ _ _ _ => rfl

theorem ledger_step (hf : Fresh env) {op : KmemOp μ} (h : Kmem.Inv st.kmem st.created used st.live)
    (hledger : Kmem.Ledger st.kmem st.created pages) (hstep : KmemStep cfg env st op st')
    : Kmem.Ledger st'.kmem st'.created pages := by
  cases op with
  | create bufsize align constructor destructor =>
    rcases hstep with ⟨hargs, cp, hok, _, hcreated, _⟩
    rw [hcreated]
    exact hledger.create h.core.ranges (Kmem.kmemCacheCreate_created hf h.core.ranges hargs hok)
  | alloc cp =>
    rcases hstep with ⟨hcp, obj, hok, hcreated, _⟩
    rw [hcreated]
    exact hledger.kmemCacheAlloc hf h hcp hok
  | free cp obj =>
    rcases hstep with ⟨hx, hok, hcreated, _⟩
    rw [hcreated]
    exact hledger.kmemCacheFree h hx hok

end KmemState
end Slab
end Nyy
