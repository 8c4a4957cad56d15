import NyyKernel.Slab.Ledger

namespace Nyy
namespace Slab
namespace Kmem

variable {μ : Type}

def unlink (s : Kmem μ) (cp sp : Nat) : Kmem μ := s.setCache cp ((s.cache cp).listRemove sp)

section

variable {s : Kmem μ} {created : List Nat} {used : Nat → List Nat} {held : Set (Nat × Nat)}
  {cp sp a n : Nat} {rest : List Nat} {pages : List (Nat × Nat)}

section Unlink

theorem unlink_cache (h : CacheOk s used cp) (hlist : (s.cache cp).slablist = sp :: rest)
    : (s.unlink cp sp).cache cp = { s.cache cp with slablist := rest } := by
  have hfull := List.erase_of_not_mem (h.not_mem_full hlist)
  simp [unlink, setCache, KmemCache.listRemove, hlist, hfull]

theorem unlink_slab (s : Kmem μ) (cp sp : Nat) : (s.unlink cp sp).slab = s.slab := by
  rfl

theorem link_unlink (h : CacheOk s used cp) (hlist : (s.cache cp).slablist = sp :: rest)
    : (s.unlink cp sp).link cp sp = s := by
  unfold link
  rw [unlink_cache h hlist]
  unfold unlink setCache
  dsimp only
  rw [← hlist, Function.update_idem, Function.update_eq_self]

theorem Core.loose (h : Core (s.link cp sp) created used) (hcp : cp ∈ created)
    : ∀ cp' ∈ created, sp ∉ s.slabs cp' := by
  intro cp' hcp' hsp
  have heq : cp = cp' := by
    apply h.cache_unique hcp _ hcp' (mem_slabs_link.mpr (.inr hsp))
    rw [slabs_link]
    exact List.mem_cons_self
  subst heq
  have hnodup := (h.cache cp hcp).nodup
  rw [slabs_link, List.nodup_cons] at hnodup
  exact hnodup.1 hsp

theorem Core.prepared (h : Core (s.link cp sp) created (fresh used sp)) (hcp : cp ∈ created)
    : Prepared s created cp sp := by
  have hloose := h.loose hcp
  have hsp : sp ∈ (s.link cp sp).slabs cp := by
    rw [slabs_link]
    exact List.mem_cons_self
  have hslab := slabOk_link.mp (h.slabOk hcp hsp)
  rw [fresh_self] at hslab
  refine ⟨hslab, hloose, ⟨_, hslab.range⟩, ?_, ?_⟩
  . intro hmem
    exact h.apart cp hcp sp hsp _ hmem rfl
  . intro cp' hcp' sp' hsp' heq
    have : sp' = sp := h.inj cp' hcp' sp' (mem_slabs_link.mpr (.inr hsp')) cp hcp sp hsp heq
    subst this
    exact hloose cp' hcp' hsp'

theorem Inv.of_link (h : Inv (s.link cp sp) created (fresh used sp) held) (hcp : cp ∈ created)
    : Inv s created used (held ∪ linked s cp sp) := by
  have hp := h.core.prepared hcp
  have hcore := (core_link hp).mp h.core
  have hmeta : s.slabCache ∈ created ∧ s.bufctlCache ∈ created :=
    ⟨h.core.metaCaches.slabCache, h.core.metaCaches.bufctlCache⟩
  constructor
  . exact hcore
  . rintro cp' x (hx | ⟨_, ⟨hx, _⟩ | ⟨hx, _⟩⟩)
    . exact h.heldCreated cp' x hx
    . dsimp only at hx
      rw [hx]
      exact hmeta.1
    . dsimp only at hx
      rw [hx]
      exact hmeta.2
  . intro cp' hcp' x
    rw [← allocated_link hcp' hp, h.own cp' hcp', metaObj_link hcp hp, Set.mem_union, or_assoc]
  . rintro cp' x (hx | hx) hm
    . apply h.sep cp' x hx
      rw [metaObj_link hcp hp]
      exact .inr hm
    . -- the objects of this slab are no other slab's
      rcases hx with ⟨hlarge, hx⟩
      have hbufctl : ∀ sp', LargeSlab s created sp' → ∀ y ∈ (s.slab sp').freelist ++ used sp',
          (s.bufctl y).slab = sp' := by
        rintro sp' ⟨cp2, hcp2, hlarge2, hsp'⟩ y hy
        exact ((hcore.slabOk hcp2 hsp').large hlarge2).2 y hy
      have hloose : ∀ sp', LargeSlab s created sp' → sp' ≠ sp := by
        rintro sp' ⟨cp2, hcp2, _, hsp'⟩ rfl
        exact hp.loose cp2 hcp2 hsp'
      have hne := h.core.metaCaches.ne
      rcases hx with ⟨hx1, hx2⟩ | ⟨hx1, hx2⟩
      . dsimp only at hx1 hx2
        rcases hm with ⟨_, hsp'⟩ | ⟨hcp2, _⟩
        . exact hloose x hsp' hx2
        . rw [hx1] at hcp2
          exact hne hcp2
      . dsimp only at hx1 hx2
        rcases hm with ⟨hcp2, _⟩ | ⟨_, sp', hsp', hy⟩
        . rw [hx1] at hcp2
          exact hne hcp2.symm
        . have howner := (hp.slab.large hlarge).2 x (List.mem_append_left _ hx2)
          rw [hbufctl sp' hsp' x hy] at howner
          exact hloose sp' hsp' howner

theorem Ledger.of_link (h : Ledger (s.link cp sp) created pages) (hcp : cp ∈ created)
    : Ledger s created (s.slabRange cp sp :: pages) := by
  refine ⟨h.nodup, h.perm.trans ?_⟩
  refine ((owned_link h.created_nodup hcp).append_right pages).trans ?_
  exact List.perm_middle.symm

end Unlink

section Release

theorem rangesOk_of_subset {l l' : List (Nat × Nat)} (h : RangesOk l) (hsub : l' ⊆ l) : RangesOk l' :=
  ⟨fun r hr => h.count r (hsub hr), fun r hr => h.addr r (hsub hr),
    fun r hr r' hr' => h.apart r (hsub hr) r' (hsub hr')⟩

def release (s : Kmem μ) (a n : Nat) : Kmem μ := { s with ranges := s.ranges.erase (a, n) }

theorem SlabOk.release {u : List Nat} (h : SlabOk s cp sp u) (hne : s.chunkBase sp ≠ a)
    : SlabOk (s.release a n) cp sp u := by
  refine ⟨h.parent, h.refcnt, h.chunks, ?_, h.small, h.large⟩
  refine (List.mem_erase_of_ne ?_).mpr h.range
  intro heq
  exact hne (congrArg Prod.fst heq)

theorem Inv.release (h : Inv s created used held) (ha : Unowned s created a)
    : Inv (s.release a n) created used held := by
  refine ⟨?_, h.heldCreated, h.own, h.sep⟩
  constructor
  . exact rangesOk_of_subset h.core.ranges List.erase_subset
  . intro cp hcp
    have hcache : (s.release a n).cache cp = s.cache cp := rfl
    refine (h.core.cache cp hcp).congr hcache (fun _ _ => rfl) ?_
    intro sp hsp
    exact (h.core.slabOk hcp hsp).release (ha.slab cp hcp sp hsp)
  . intro cp hcp
    refine (List.mem_erase_of_ne ?_).mpr (h.core.descr cp hcp)
    intro heq
    have : cp = a := congrArg Prod.fst heq
    subst this
    exact ha.cache hcp
  . exact h.core.apart
  . exact h.core.inj
  . have hm := h.core.metaCaches
    exact ⟨hm.slabCache, hm.bufctlCache, hm.ne, hm.small⟩

theorem Ledger.release (h : Ledger s created ((a, n) :: pages))
    : Ledger (s.release a n) created pages := by
  constructor
  . exact h.nodup.sublist (List.erase_sublist.map _)
  . have hperm := (h.perm.trans List.perm_middle).erase (a, n)
    rw [List.erase_cons_head] at hperm
    exact hperm

end Release

section Forget

theorem Inv.forget (h : Inv s created used held) (hnodup : created.Nodup) (hslabs : s.slabs cp = [])
    (hslab : cp ≠ s.slabCache) (hbufctl : cp ≠ s.bufctlCache)
    : Inv s (created.erase cp) used held := by
  have hmem : ∀ cp', cp' ∈ created.erase cp ↔ cp' ≠ cp ∧ cp' ∈ created :=
    fun cp' => hnodup.mem_erase_iff
  have hsub : ∀ cp' ∈ created.erase cp, cp' ∈ created := fun cp' hcp' => List.mem_of_mem_erase hcp'
  have hlarge : ∀ sp, LargeSlab s (created.erase cp) sp ↔ LargeSlab s created sp := by
    intro sp
    unfold LargeSlab
    constructor
    . rintro ⟨cp', hcp', hlarge, hsp⟩
      exact ⟨cp', hsub cp' hcp', hlarge, hsp⟩
    . rintro ⟨cp', hcp', hlarge, hsp⟩
      refine ⟨cp', (hmem cp').mpr ⟨?_, hcp'⟩, hlarge, hsp⟩
      rintro rfl
      rw [hslabs] at hsp
      cases hsp
  have hmeta : ∀ cp' x, Meta s (created.erase cp) used cp' x ↔ Meta s created used cp' x := by
    intro cp' x
    unfold Meta
    simp only [hlarge]
  constructor
  . constructor
    . exact h.core.ranges
    . exact fun cp' hcp' => h.core.cache cp' (hsub cp' hcp')
    . exact fun cp' hcp' => h.core.descr cp' (hsub cp' hcp')
    . exact fun cp' hcp' sp hsp cp2 hcp2 => h.core.apart cp' (hsub cp' hcp') sp hsp cp2 (hsub cp2 hcp2)
    . exact fun cp' hcp' sp hsp cp2 hcp2 => h.core.inj cp' (hsub cp' hcp') sp hsp cp2 (hsub cp2 hcp2)
    . have hm := h.core.metaCaches
      exact ⟨(hmem _).mpr ⟨hslab.symm, hm.slabCache⟩, (hmem _).mpr ⟨hbufctl.symm, hm.bufctlCache⟩,
        hm.ne, hm.small⟩
  . intro cp' x hx
    refine (hmem cp').mpr ⟨?_, h.heldCreated cp' x hx⟩
    rintro rfl
    rcases h.allocated hx with ⟨sp, hsp, _⟩
    rw [hslabs] at hsp
    cases hsp
  . intro cp' hcp' x
    rw [hmeta]
    exact h.own cp' (hsub cp' hcp') x
  . intro cp' x hx
    rw [hmeta]
    exact h.sep cp' x hx

theorem Ledger.forget (h : Ledger s created pages) (hcp : cp ∈ created) (hslabs : s.slabs cp = [])
    : Ledger s (created.erase cp) ((cp, 1) :: pages) := by
  refine ⟨h.nodup, h.perm.trans ?_⟩
  have howned : (s.owned created).Perm ((cp, 1) :: s.owned (created.erase cp)) := by
    have hperm := (List.perm_cons_erase hcp).flatMap_right s.cacheRanges
    rw [List.flatMap_cons] at hperm
    unfold cacheRanges at hperm
    rw [hslabs] at hperm
    exact hperm
  exact (howned.append_right pages).trans List.perm_middle.symm

end Forget

end
end Kmem
end Slab
end Nyy
