import NyyKernel.Slab.Lemmas.Unlink

/-!
This module contains `kmem_cache_destroy`.
-/

namespace Nyy
namespace Slab

variable {μ : Type}

def vmKfree (s : Kmem μ) (addr count : Nat) : Except Fault (Kmem μ) :=
  if (addr, count) ∈ s.ranges then
    return s.release addr count
  else
    -- was not handed out, or not with this count
    .error .undefined

structure Teardown (μ : Type) where
  kmem : Kmem μ
  -- of `vm_kfree`
  pages : List (Nat × Nat)
  -- of `kmem_cache_free`
  objs : List (Nat × Nat)

namespace Teardown

def vmKfree (t : Teardown μ) (addr count : Nat) : Except Fault (Teardown μ) := do
  let s ← Nyy.Slab.vmKfree t.kmem addr count
  return { t with kmem := s, pages := t.pages ++ [(addr, count)] }

def kmemCacheFree (cfg : Config) (t : Teardown μ) (cp obj : Nat) : Except Fault (Teardown μ) := do
  let s ← Nyy.Slab.kmemCacheFree cfg t.kmem cp obj
  return { t with kmem := s, objs := t.objs ++ [(cp, obj)] }

end Teardown

-- while (!SLIST_EMPTY(&sp->freelist))
def freeBufctls (cfg : Config) (sp : Nat) : Nat → Teardown μ → Except Fault (Teardown μ)
  | 0, _ => .error .fuel
  | fuel + 1, t =>
    match (t.kmem.slab sp).freelist with
    | [] => return t
    | elm :: freelist => do
      let t := { t with kmem := t.kmem.setSlab sp { t.kmem.slab sp with freelist := freelist } }
      let t ← t.kmemCacheFree cfg t.kmem.bufctlCache elm
      freeBufctls cfg sp fuel t

def destroySlab (cfg : Config) (t : Teardown μ) (cp sp : Nat) : Except Fault (Teardown μ) :=
  if (t.kmem.slab sp).base = 0 then
    t.vmKfree (Word.alignDown sp pageSize) (t.kmem.cache cp).slabsize
  else do
    let t ← freeBufctls cfg sp ((t.kmem.slab sp).freelist.length + 1) t
    let t ← t.vmKfree (t.kmem.slab sp).base (t.kmem.cache cp).slabsize
    t.kmemCacheFree cfg t.kmem.slabCache sp

-- while (!LIST_EMPTY(&cp->slablist)), and what follows it
def destroySlabs (cfg : Config) (cp : Nat) : Nat → Teardown μ → Except Fault (Int × Teardown μ)
  | 0, _ => .error .fuel
  | fuel + 1, t =>
    match (t.kmem.cache cp).slablist with
    | [] => do
      let t ← t.vmKfree cp 1
      return (0, t)
    | sp :: _ =>
      if (t.kmem.slab sp).refcnt ≠ 0 then
        return (-1, t)
      else do
        let t ← destroySlab cfg { t with kmem := t.kmem.unlink cp sp } cp sp
        destroySlabs cfg cp fuel t

def kmemCacheDestroy (cfg : Config) (s : Kmem μ) (cp : Nat) : Except Fault (Int × Teardown μ) :=
  let t : Teardown μ := ⟨s, [], []⟩
  if !(s.cache cp).fullSlablist.isEmpty then
    return (-1, t)
  else
    destroySlabs cfg cp ((s.cache cp).slablist.length + 1) t

namespace Kmem

def slabObjs (s : Kmem μ) (cp sp : Nat) : List (Nat × Nat) :=
  if (s.cache cp).chunksize ≤ kmemSmallMax then []
  else (s.slab sp).freelist.map (fun x => (s.bufctlCache, x)) ++ [(s.slabCache, sp)]

def cacheObjs (s : Kmem μ) (cp : Nat) : List (Nat × Nat) :=
  (s.slabs cp).flatMap (s.slabObjs cp) ++
    if (s.cache cp).chunksize ≤ kmemSmallMax then []
    else (s.cache cp).buflist.map fun x => (s.bufctlCache, x)

end Kmem

section Loop

variable {t t' : Teardown μ} {created : List Nat} {used : Nat → List Nat} {held : Set (Nat × Nat)}
  {cp sp x a n sp' : Nat} {rest bufctls : List Nat} {pages : List (Nat × Nat)} {s : Kmem μ}

theorem vmKfree_eq (h : Kmem.Ledger s created ((a, n) :: pages))
    : vmKfree s a n = .ok (s.release a n) := by
  unfold vmKfree
  rw [if_pos (h.perm.mem_iff.mpr (by simp))]
  rfl

structure Beside (s s' : Kmem μ) (cp : Nat) : Prop where
  cache : s'.cache cp = s.cache cp
  slab : ∀ sp ∈ s.slabs cp, s'.slab sp = s.slab sp
  slabCache : s'.slabCache = s.slabCache
  bufctlCache : s'.bufctlCache = s.bufctlCache
  ranges : s'.ranges = s.ranges

theorem Beside.trans {s1 s2 : Kmem μ} (h : Beside s s1 cp) (h' : Beside s1 s2 cp)
    : Beside s s2 cp := by
  have hslabs := Kmem.slabs_congr h.cache
  constructor
  . rw [h'.cache, h.cache]
  . intro sp hsp
    rw [h'.slab sp (by rwa [hslabs]), h.slab sp hsp]
  . rw [h'.slabCache, h.slabCache]
  . rw [h'.bufctlCache, h.bufctlCache]
  . rw [h'.ranges, h.ranges]

theorem metaFree (cfg : Config) {cp0 : Nat} (hinv : Kmem.Inv s created used held)
    (hledger : Kmem.Ledger s created pages) (hcp : cp ∈ created) (hne : cp0 ≠ cp) (hx : (cp0, x) ∈ held)
    : ∃ s' used', kmemCacheFree cfg s cp0 x = .ok s' ∧
        Kmem.Inv s' created used' (held \ {(cp0, x)}) ∧ Kmem.Ledger s' created pages ∧
        Beside s s' cp ∧ ∀ sp, (s.slabCache, sp) ∈ held → s'.slab sp = s.slab sp := by
  rcases Kmem.kmemCacheFree_eq cfg hinv hx with ⟨sp0, y, s1, hsp0, hy, hobj, hok, hexchange⟩
  have hcp0 := hinv.heldCreated cp0 x hx
  have hinv1 := hexchange.inv_give (hinv.destruct cp0 x) hcp0 hsp0 hy
  rw [hobj] at hinv1
  rcases Kmem.destruct_eq s cp0 x with ⟨mem, hsame⟩
  rw [hsame] at hexchange hsp0
  refine ⟨s1, _, hok, hinv1 hx, hledger.kmemCacheFree hinv hx hok, ?_, ?_⟩
  . constructor
    . exact hexchange.cache cp hne.symm
    . intro sp hsp
      apply hexchange.slab sp
      rintro rfl
      exact hne (hinv.core.cache_unique hcp0 hsp0 hcp hsp)
    . exact hexchange.slabCache
    . exact hexchange.bufctlCache
    . exact hexchange.ranges
  . intro sp hsp
    apply hexchange.slab sp
    rintro rfl
    exact hinv.held_not_slab hsp hcp0 hsp0

theorem Beside.setSlab (hinv : Kmem.Inv s created used held) (hcp : cp ∈ created)
    (hsp : (s.slabCache, sp) ∈ held) (slab : KmemSlab)
    : Beside s (s.setSlab sp slab) cp := by
  refine ⟨rfl, ?_, rfl, rfl, rfl⟩
  intro sp' hsp'
  apply Function.update_of_ne
  rintro rfl
  exact hinv.held_not_slab hsp hcp hsp'

structure BufctlsFreed (t t' : Teardown μ) (created : List Nat) (held : Set (Nat × Nat))
    (pages : List (Nat × Nat)) (cp sp : Nat) (bufctls : List Nat) : Prop where
  inv : ∃ used, Kmem.Inv t'.kmem created used held
  ledger : Kmem.Ledger t'.kmem created pages
  beside : Beside t.kmem t'.kmem cp
  base : (t'.kmem.slab sp).base = (t.kmem.slab sp).base
  pages : t'.pages = t.pages
  objs : t'.objs = t.objs ++ bufctls.map fun x => (t.kmem.bufctlCache, x)

theorem withBufctls_diff (hnodup : (x :: bufctls).Nodup) (hx : (s.bufctlCache, x) ∉ held)
    : Kmem.withBufctls s held (x :: bufctls) \ {(s.bufctlCache, x)} = Kmem.withBufctls s held bufctls := by
  rw [List.nodup_cons] at hnodup
  ext ⟨cp, y⟩
  simp only [Set.mem_sdiff, Kmem.mem_withBufctls, Set.mem_singleton_iff, Prod.mk.injEq, List.mem_cons]
  constructor
  . rintro ⟨hy | ⟨rfl, rfl | hy⟩, hne⟩
    . exact .inl hy
    . exact absurd ⟨rfl, rfl⟩ hne
    . exact .inr ⟨rfl, hy⟩
  . rintro (hy | ⟨rfl, hy⟩)
    . refine ⟨.inl hy, ?_⟩
      rintro ⟨rfl, rfl⟩
      exact hx hy
    . refine ⟨.inr ⟨rfl, .inr hy⟩, ?_⟩
      rintro ⟨_, rfl⟩
      exact hnodup.1 hy

theorem freeBufctls_spec (cfg : Config) (hcp : cp ∈ created) (hne : t.kmem.bufctlCache ≠ cp)
    (hinv : Kmem.Inv t.kmem created used (Kmem.withBufctls t.kmem held bufctls))
    (hledger : Kmem.Ledger t.kmem created pages) (hsp : (t.kmem.slabCache, sp) ∈ held)
    (hfree : (t.kmem.slab sp).freelist = bufctls) (hnodup : bufctls.Nodup)
    (hnew : ∀ x ∈ bufctls, (t.kmem.bufctlCache, x) ∉ held)
    : ∃ t', freeBufctls cfg sp (bufctls.length + 1) t = .ok t' ∧
        BufctlsFreed t t' created held pages cp sp bufctls := by
  induction bufctls generalizing t used with
  | nil =>
    refine ⟨t, ?_, ⟨used, ?_⟩, hledger, ⟨rfl, fun _ _ => rfl, rfl, rfl, rfl⟩, rfl, rfl, by simp⟩
    . unfold freeBufctls
      rw [hfree]
      rfl
    . have hnil : Kmem.withBufctls t.kmem held [] = held := by
        ext p
        simp [Kmem.mem_withBufctls]
      rwa [hnil] at hinv
  | cons elm bufctls ih =>
    have hsp' : (t.kmem.slabCache, sp) ∈ Kmem.withBufctls t.kmem held (elm :: bufctls) := .inl hsp
    have helm : (t.kmem.bufctlCache, elm) ∈ Kmem.withBufctls t.kmem held (elm :: bufctls) :=
      .inr ⟨rfl, List.mem_cons_self⟩
    have hloose : ∀ cp' ∈ created, sp ∉ t.kmem.slabs cp' :=
      fun cp' hcp' => hinv.held_not_slab hsp' hcp'
    -- SLIST_REMOVE_HEAD(&sp->freelist, entry)
    have hset := hinv.setSlab hsp' { t.kmem.slab sp with freelist := bufctls }
    have hbeside := Beside.setSlab hinv hcp hsp' { t.kmem.slab sp with freelist := bufctls }
    have hledger1 := hledger.setSlab hloose { t.kmem.slab sp with freelist := bufctls }
    generalize hs1 : t.kmem.setSlab sp { t.kmem.slab sp with freelist := bufctls } = s1
      at hset hbeside hledger1
    have hslab1 : s1.slab sp = { t.kmem.slab sp with freelist := bufctls } := by
      rw [← hs1]
      exact Function.update_self ..
    rw [← hbeside.bufctlCache] at helm hne
    rcases metaFree cfg hset hledger1 hcp hne helm
      with ⟨s2, used2, hok, hinv2, hledger2, hbeside2, hheld⟩
    have hslab2 := hheld sp (by rwa [hbeside.slabCache])
    have hcache2 : s2.bufctlCache = t.kmem.bufctlCache := by
      rw [hbeside2.bufctlCache, hbeside.bufctlCache]
    rw [hbeside.bufctlCache, withBufctls_diff hnodup (hnew elm List.mem_cons_self)] at hinv2
    rw [List.nodup_cons] at hnodup
    have hinv3 : Kmem.Inv s2 created used2 (Kmem.withBufctls s2 held bufctls) := by
      unfold Kmem.withBufctls at hinv2 ⊢
      rwa [hcache2]
    rcases ih (t := ⟨s2, t.pages, t.objs ++ [(t.kmem.bufctlCache, elm)]⟩)
      (by rwa [hcache2, ← hbeside.bufctlCache]) hinv3 hledger2
      (by rwa [hbeside2.slabCache, hbeside.slabCache]) (by rw [hslab2, hslab1]) hnodup.2
      (fun x hx => by rw [hcache2]; exact hnew x (List.mem_cons_of_mem _ hx)) with ⟨t', hok', hfreed⟩
    refine ⟨t', ?_, hfreed.inv, hfreed.ledger, (hbeside.trans hbeside2).trans hfreed.beside, ?_,
      hfreed.pages, ?_⟩
    . unfold freeBufctls
      rw [hfree]
      dsimp only
      rw [hs1]
      unfold Teardown.kmemCacheFree
      dsimp only
      rw [hok, hbeside.bufctlCache]
      exact hok'
    . rw [hfreed.base, hslab2, hslab1]
    . rw [hfreed.objs]
      dsimp only
      rw [hcache2, List.map_cons, List.append_assoc]
      rfl

structure Torn (t t' : Teardown μ) (created : List Nat) (held : Set (Nat × Nat)) (pages : List (Nat × Nat))
    (cp sp : Nat) (rest : List Nat) : Prop where
  inv : ∃ used, Kmem.Inv t'.kmem created used held
  ledger : Kmem.Ledger t'.kmem created pages
  cache : t'.kmem.cache cp = { t.kmem.cache cp with slablist := rest }
  slab : ∀ sp ∈ rest, t'.kmem.slab sp = t.kmem.slab sp
  slabCache : t'.kmem.slabCache = t.kmem.slabCache
  bufctlCache : t'.kmem.bufctlCache = t.kmem.bufctlCache
  ranges : t.kmem.ranges.Perm (t.kmem.slabRange cp sp :: t'.kmem.ranges)
  pages : t'.pages = t.pages ++ [t.kmem.slabRange cp sp]
  objs : t'.objs = t.objs ++ t.kmem.slabObjs cp sp

theorem alignDown_header (h : Kmem.Core s created used) (hcp : cp ∈ created) (hsp : sp ∈ s.slabs cp)
    (hsmall : (s.cache cp).chunksize ≤ kmemSmallMax)
    : Word.alignDown sp pageSize = s.chunkBase sp := by
  have hslab := h.slabOk hcp hsp
  have hbase := Kmem.chunkBase_small (hslab.small hsmall).1
  have hle := (hslab.small hsmall).2
  have haddr : pageSize ∣ s.chunkBase sp ∧ 0 < s.chunkBase sp ∧
      s.chunkBase sp + (s.cache cp).slabsize * pageSize < 2 ^ 64 := h.ranges.addr _ hslab.range
  rw [((h.cache cp hcp).geometry.small hsmall).1] at haddr
  have hpage : pageSize = 2 ^ 12 := rfl
  have hsize : sizeofSlab = 48 := rfl
  rw [hpage] at haddr hbase hle ⊢
  rw [hsize] at hbase hle
  rcases haddr.1 with ⟨m, hm⟩
  rw [Word.alignDown_two_pow (by omega) (by omega)]
  omega

section Torn

variable (hinv : Kmem.Inv t.kmem created used held) (hledger : Kmem.Ledger t.kmem created pages)
  (hcp : cp ∈ created) (hlist : (t.kmem.cache cp).slablist = sp :: rest)
  (hrefcnt : (t.kmem.slab sp).refcnt = 0)

include hinv hcp hlist hrefcnt

theorem inv_unlink
    : Kmem.Inv (t.kmem.unlink cp sp) created used (held ∪ Kmem.linked (t.kmem.unlink cp sp) cp sp) := by
  have hcache := hinv.core.cache cp hcp
  have hslab := hcache.slab sp (by simp [Kmem.slabs, hlist])
  have hused : used sp = [] := by
    rw [← List.length_eq_zero_iff, ← hslab.refcnt, hrefcnt]
  have hfresh : Kmem.fresh used sp = used := by
    unfold Kmem.fresh
    rw [← hused, Function.update_eq_self]
  refine Kmem.Inv.of_link ?_ hcp
  rwa [Kmem.link_unlink hcache hlist, hfresh]

omit hrefcnt in
include hledger in
theorem ledger_unlink
    : Kmem.Ledger (t.kmem.unlink cp sp) created (t.kmem.slabRange cp sp :: pages) := by
  have hcache := hinv.core.cache cp hcp
  have hrange : (t.kmem.unlink cp sp).slabRange cp sp = t.kmem.slabRange cp sp := by
    unfold Kmem.slabRange
    rw [Kmem.unlink_cache hcache hlist]
    rfl
  rw [← hrange]
  refine Kmem.Ledger.of_link ?_ hcp
  rwa [Kmem.link_unlink hcache hlist]

include hledger

theorem destroySlab_small (cfg : Config) (hsmall : (t.kmem.cache cp).chunksize ≤ kmemSmallMax)
    : ∃ t', destroySlab cfg { t with kmem := t.kmem.unlink cp sp } cp sp = .ok t' ∧
        Torn t t' created held pages cp sp rest := by
  have hcache := hinv.core.cache cp hcp
  have hsp : sp ∈ t.kmem.slabs cp := by simp [Kmem.slabs, hlist]
  have hunlinked := Kmem.unlink_cache hcache hlist
  have hinv1 := inv_unlink hinv hcp hlist hrefcnt
  have hledger1 := ledger_unlink hinv hledger hcp hlist
  rw [Kmem.linked_of_small (by rwa [hunlinked]), Set.union_empty] at hinv1
  refine ⟨⟨(t.kmem.unlink cp sp).release (t.kmem.chunkBase sp) (t.kmem.cache cp).slabsize,
    t.pages ++ [t.kmem.slabRange cp sp], t.objs⟩, ?_, ?_⟩
  . unfold destroySlab
    dsimp only
    rw [Kmem.unlink_slab, if_pos ((hcache.slab sp hsp).small hsmall).1,
      alignDown_header hinv.core hcp hsp hsmall, hunlinked]
    unfold Teardown.vmKfree
    rw [vmKfree_eq hledger1]
    rfl
  . refine ⟨⟨used, hinv1.release (hledger1.unowned List.mem_cons_self)⟩, hledger1.release, hunlinked,
      fun _ _ => rfl, rfl, rfl, ?_, rfl, ?_⟩
    . exact List.perm_cons_erase (hcache.slab sp hsp).range
    . unfold Kmem.slabObjs
      rw [if_pos hsmall, List.append_nil]

theorem destroySlab_large (cfg : Config) (hlarge : kmemSmallMax < (t.kmem.cache cp).chunksize)
    : ∃ t', destroySlab cfg { t with kmem := t.kmem.unlink cp sp } cp sp = .ok t' ∧
        Torn t t' created held pages cp sp rest := by
  have hcache := hinv.core.cache cp hcp
  have hsp : sp ∈ t.kmem.slabs cp := by simp [Kmem.slabs, hlist]
  have hslab := hcache.slab sp hsp
  have hunlinked := Kmem.unlink_cache hcache hlist
  have hinv1 := inv_unlink hinv hcp hlist hrefcnt
  have hledger1 := ledger_unlink hinv hledger hcp hlist
  have hmeta := hinv.core.metaCaches
  have hne : ∀ cp', cp' = t.kmem.slabCache ∨ cp' = t.kmem.bufctlCache → cp' ≠ cp := by
    rintro cp' hcp' rfl
    have := (hmeta.small cp' hcp').1
    omega
  have hheader : (t.kmem.slabCache, sp) ∉ held := by
    intro hheld
    exact hinv.held_not_slab hheld hcp hsp
  have hbufctls : ∀ x ∈ (t.kmem.slab sp).freelist,
      (t.kmem.bufctlCache, x) ∉ insert (t.kmem.slabCache, sp) held := by
    rintro x hx (heq | hheld)
    . exact hmeta.ne (congrArg Prod.fst heq).symm
    . exact hinv.held_not_handle hheld hcp hlarge hsp (List.mem_append_left _ hx)
  have hheld : held ∪ Kmem.linked (t.kmem.unlink cp sp) cp sp =
      Kmem.withBufctls (t.kmem.unlink cp sp) (insert (t.kmem.slabCache, sp) held)
        (t.kmem.slab sp).freelist := by
    ext ⟨cp', x⟩
    simp only [Set.mem_union, Kmem.linked, Set.mem_ofPred_eq, Kmem.mem_withBufctls,
      Set.mem_insert_iff, Prod.mk.injEq, hunlinked]
    have hsame : (t.kmem.unlink cp sp).slabCache = t.kmem.slabCache ∧
        (t.kmem.unlink cp sp).bufctlCache = t.kmem.bufctlCache := ⟨rfl, rfl⟩
    rw [hsame.1, hsame.2, Kmem.unlink_slab]
    tauto
  rw [hheld] at hinv1
  have hnodup := hslab.nodup hcache.geometry
  rw [List.nodup_append] at hnodup
  rcases freeBufctls_spec cfg (t := { t with kmem := t.kmem.unlink cp sp }) hcp (hne _ (.inr rfl))
    hinv1 hledger1 (Set.mem_insert ..) rfl hnodup.1 hbufctls with ⟨t1, hok1, hfreed⟩
  -- vm_kfree(sp->base, cp->slabsize)
  have hrange : t.kmem.slabRange cp sp = ((t1.kmem.slab sp).base, (t1.kmem.cache cp).slabsize) := by
    unfold Kmem.slabRange Kmem.chunkBase
    rw [hfreed.base, hfreed.beside.cache, hunlinked, if_neg (hslab.large hlarge).1]
    rfl
  have hledger2 := hfreed.ledger
  rw [hrange] at hledger2
  rcases hfreed.inv with ⟨used1, hinv2⟩
  have hinv3 := hinv2.release (n := (t1.kmem.cache cp).slabsize)
    (hledger2.unowned List.mem_cons_self)
  -- kmem_cache_free(slab_cache, sp)
  have hslabCache : t1.kmem.slabCache = t.kmem.slabCache := hfreed.beside.slabCache
  have hbufctlCache : t1.kmem.bufctlCache = t.kmem.bufctlCache := hfreed.beside.bufctlCache
  rcases metaFree cfg hinv3 hledger2.release hcp (hne _ (.inl rfl)) (Set.mem_insert ..)
    with ⟨s3, used3, hok3, hinv4, hledger3, hbeside3, _⟩
  rw [Set.insert_sdiff_self_of_notMem hheader] at hinv4
  refine ⟨⟨s3, t.pages ++ [t.kmem.slabRange cp sp], t.objs ++ t.kmem.slabObjs cp sp⟩, ?_, ?_⟩
  . unfold destroySlab
    dsimp only
    rw [Kmem.unlink_slab, if_neg (hslab.large hlarge).1, hok1, Except.ok_bind]
    unfold Teardown.vmKfree
    rw [vmKfree_eq hledger2, Except.ok_bind]
    have hsame : (t1.kmem.release (t1.kmem.slab sp).base (t1.kmem.cache cp).slabsize).slabCache =
        t.kmem.slabCache := hslabCache
    unfold Teardown.kmemCacheFree Kmem.slabObjs
    change (do
      let s ← kmemCacheFree cfg (t1.kmem.release _ _)
        (t1.kmem.release (t1.kmem.slab sp).base (t1.kmem.cache cp).slabsize).slabCache sp
      return _) = _
    rw [hsame, hok3, Except.ok_bind, hfreed.pages, hfreed.objs, hrange, if_neg (by omega),
      List.append_assoc]
    rfl
  . refine ⟨⟨used3, hinv4⟩, hledger3, ?_, ?_, ?_, ?_, ?_, rfl, rfl⟩
    . rw [hbeside3.cache]
      exact hfreed.beside.cache.trans hunlinked
    . intro sp' hsp'
      have hmem : sp' ∈ (t.kmem.unlink cp sp).slabs cp := by
        unfold Kmem.slabs
        rw [hunlinked]
        exact List.mem_append_left _ hsp'
      rw [hbeside3.slab sp' (by rwa [← Kmem.slabs_congr hfreed.beside.cache] at hmem)]
      exact hfreed.beside.slab sp' hmem
    . rw [hbeside3.slabCache]
      exact hslabCache
    . rw [hbeside3.bufctlCache]
      exact hbufctlCache
    . rw [hbeside3.ranges, hrange]
      have hranges : t1.kmem.ranges = t.kmem.ranges := hfreed.beside.ranges
      unfold Kmem.release
      dsimp only
      rw [hranges, ← hrange]
      exact List.perm_cons_erase hslab.range

theorem destroySlab_spec (cfg : Config)
    : ∃ t', destroySlab cfg { t with kmem := t.kmem.unlink cp sp } cp sp = .ok t' ∧
        Torn t t' created held pages cp sp rest := by
  by_cases hsmall : (t.kmem.cache cp).chunksize ≤ kmemSmallMax
  . exact destroySlab_small hinv hledger hcp hlist hrefcnt cfg hsmall
  . exact destroySlab_large hinv hledger hcp hlist hrefcnt cfg (by omega)

end Torn

theorem Torn.slabRange (h : Torn t t' created held pages cp sp rest) (hsp' : sp' ∈ rest)
    : t'.kmem.slabRange cp sp' = t.kmem.slabRange cp sp' := by
  unfold Kmem.slabRange Kmem.chunkBase
  rw [h.slab sp' hsp', h.cache]

theorem Torn.slabObjs (h : Torn t t' created held pages cp sp rest) (hsp' : sp' ∈ rest)
    : t'.kmem.slabObjs cp sp' = t.kmem.slabObjs cp sp' := by
  unfold Kmem.slabObjs
  rw [h.slab sp' hsp', h.cache, h.slabCache, h.bufctlCache]

structure Emptied (t t' : Teardown μ) (created : List Nat) (held : Set (Nat × Nat))
    (pages : List (Nat × Nat)) (cp : Nat) (sps : List Nat) : Prop where
  inv : ∃ used, Kmem.Inv t'.kmem created used held
  ledger : Kmem.Ledger t'.kmem created pages
  slabs : t'.kmem.slabs cp = []
  slabCache : t'.kmem.slabCache = t.kmem.slabCache
  bufctlCache : t'.kmem.bufctlCache = t.kmem.bufctlCache
  ranges : t.kmem.ranges.Perm (sps.map (t.kmem.slabRange cp) ++ t'.kmem.ranges)
  pages : t'.pages = t.pages ++ sps.map (t.kmem.slabRange cp)
  objs : t'.objs = t.objs ++ sps.flatMap (t.kmem.slabObjs cp)

theorem Torn.emptied {t1 : Teardown μ} (h : Torn t t1 created held pages cp sp rest)
    (h' : Emptied t1 t' created held pages cp rest)
    : Emptied t t' created held pages cp (sp :: rest) := by
  have hranges : rest.map (t1.kmem.slabRange cp) = rest.map (t.kmem.slabRange cp) :=
    List.map_congr_left fun sp' hsp' => h.slabRange hsp'
  have hobjs : rest.flatMap (t1.kmem.slabObjs cp) = rest.flatMap (t.kmem.slabObjs cp) :=
    List.flatMap_congr fun sp' hsp' => h.slabObjs hsp'
  refine ⟨h'.inv, h'.ledger, h'.slabs, ?_, ?_, ?_, ?_, ?_⟩
  . rw [h'.slabCache, h.slabCache]
  . rw [h'.bufctlCache, h.bufctlCache]
  . have hperm := h'.ranges
    rw [hranges] at hperm
    exact h.ranges.trans (hperm.cons _)
  . rw [h'.pages, h.pages, hranges, List.append_assoc]
    rfl
  . rw [h'.objs, h.objs, hobjs, List.append_assoc, List.flatMap_cons]

section

variable {slabs : List Nat} (cfg : Config) (hinv : Kmem.Inv t.kmem created used held)
  (hledger : Kmem.Ledger t.kmem created pages) (hcp : cp ∈ created)
  (hlist : (t.kmem.cache cp).slablist = slabs)

include cfg hinv hledger hcp hlist

theorem destroySlabs_emptied (hfull : (t.kmem.cache cp).fullSlablist = [])
    (hrefcnt : ∀ sp ∈ slabs, (t.kmem.slab sp).refcnt = 0)
    : ∃ t', Emptied t t' created held pages cp slabs ∧
        destroySlabs cfg cp (slabs.length + 1) t = (do
          let t ← t'.vmKfree cp 1
          return (0, t)) := by
  induction slabs generalizing t used with
  | nil =>
    refine ⟨t, ⟨⟨used, hinv⟩, hledger, by simp [Kmem.slabs, hlist, hfull], rfl, rfl, by simp, by simp,
      by simp⟩, ?_⟩
    unfold destroySlabs
    rw [hlist]
  | cons sp rest ih =>
    have hzero := hrefcnt sp List.mem_cons_self
    rcases destroySlab_spec hinv hledger hcp hlist hzero cfg with ⟨t1, hok, htorn⟩
    rcases htorn.inv with ⟨used1, hinv1⟩
    have hrefcnt1 : ∀ sp ∈ rest, (t1.kmem.slab sp).refcnt = 0 := by
      intro sp' hsp'
      rw [htorn.slab sp' hsp']
      exact hrefcnt sp' (List.mem_cons_of_mem _ hsp')
    rcases ih hinv1 htorn.ledger (by rw [htorn.cache]) (by rw [htorn.cache]; exact hfull) hrefcnt1
      with ⟨t', hemptied, heq⟩
    refine ⟨t', htorn.emptied hemptied, ?_⟩
    rw [List.length_cons]
    unfold destroySlabs
    rw [hlist]
    dsimp only
    rw [if_neg (by simp [hzero]), hok, Except.ok_bind]
    exact heq

theorem destroySlabs_stopped (hrefcnt : ∃ sp ∈ slabs, (t.kmem.slab sp).refcnt ≠ 0)
    : ∃ t', destroySlabs cfg cp (slabs.length + 1) t = .ok (-1, t') ∧
        (∃ used', Kmem.Inv t'.kmem created used' held) ∧ Kmem.Ledger t'.kmem created pages := by
  induction slabs generalizing t used with
  | nil =>
    rcases hrefcnt with ⟨sp, hsp, _⟩
    cases hsp
  | cons sp rest ih =>
    rw [List.length_cons]
    unfold destroySlabs
    rw [hlist]
    dsimp only
    by_cases hzero : (t.kmem.slab sp).refcnt = 0
    . rcases destroySlab_spec hinv hledger hcp hlist hzero cfg with ⟨t1, hok, htorn⟩
      rcases htorn.inv with ⟨used1, hinv1⟩
      rw [if_neg (by simp [hzero]), hok, Except.ok_bind]
      apply ih hinv1 htorn.ledger (by rw [htorn.cache])
      rcases hrefcnt with ⟨sp', hsp', hne⟩
      rcases List.mem_cons.mp hsp' with rfl | hsp'
      . exact absurd hzero hne
      . refine ⟨sp', hsp', ?_⟩
        rwa [htorn.slab sp' hsp']
    . rw [if_pos hzero]
      exact ⟨t, rfl, ⟨used, hinv⟩, hledger⟩

end

end Loop

inductive SlabOp (μ : Type) where
  | call (op : KmemOp μ)
  | destroy (cp : Nat)

def SlabStep (cfg : Config) (env : KmemEnv) (st : KmemState μ) : SlabOp μ → KmemState μ → Prop
  | .call op, st' => KmemStep cfg env st op st'
  | .destroy cp, st' =>
    cp ∈ st.created ∧ cp ≠ st.kmem.slabCache ∧ cp ≠ st.kmem.bufctlCache ∧ ∃ ret t,
      kmemCacheDestroy cfg st.kmem cp = .ok (ret, t) ∧
      st' = ⟨t.kmem, if ret = 0 then st.created.erase cp else st.created, st.live⟩

namespace Kmem

variable {s : Kmem μ} {created : List Nat} {used : Nat → List Nat} {cp sp : Nat}

section

variable (h : Core s created used) (hcp : cp ∈ created)

include h hcp

theorem slabObjs_owner (hsp : sp ∈ s.slabs cp) {p : Nat × Nat} (hp : p ∈ s.slabObjs cp sp)
    : (if p.1 = s.slabCache then p.2 else (s.bufctl p.2).slab) = sp := by
  unfold slabObjs at hp
  split at hp
  . cases hp
  . next hlarge =>
    rcases List.mem_append.mp hp with hp | hp
    . rcases List.mem_map.mp hp with ⟨x, hx, rfl⟩
      rw [if_neg h.metaCaches.ne.symm]
      exact ((h.slabOk hcp hsp).large (by omega)).2 x (List.mem_append_left _ hx)
    . rw [List.mem_singleton] at hp
      rw [hp, if_pos rfl]

theorem nodup_slabObjs (hsp : sp ∈ s.slabs cp) : (s.slabObjs cp sp).Nodup := by
  unfold slabObjs
  split
  . exact List.nodup_nil
  . have hnodup := (h.slabOk hcp hsp).nodup (h.cache cp hcp).geometry
    rw [List.nodup_append] at hnodup
    rw [List.nodup_append]
    refine ⟨hnodup.1.map fun x y heq => congrArg Prod.snd heq, List.nodup_singleton _, ?_⟩
    intro p hp q hq
    rcases List.mem_map.mp hp with ⟨x, _, rfl⟩
    rw [List.mem_singleton] at hq
    rw [hq]
    intro heq
    exact h.metaCaches.ne (congrArg Prod.fst heq).symm

theorem nodup_flatMap_slabObjs : ((s.slabs cp).flatMap (s.slabObjs cp)).Nodup := by
  rw [List.nodup_flatMap]
  refine ⟨fun sp hsp => nodup_slabObjs h hcp hsp, ?_⟩
  refine (h.cache cp hcp).nodup.imp_of_mem ?_
  intro sp sp' hsp hsp' hne p hp hp'
  exact hne ((slabObjs_owner h hcp hsp hp).symm.trans (slabObjs_owner h hcp hsp' hp'))

end

end Kmem

namespace KmemState

variable {cfg : Config} {env : KmemEnv} {st st' : KmemState μ} {used : Nat → List Nat} {cp : Nat}
  {t : Teardown μ}

def Accounted (st : KmemState μ) : Prop := Kmem.Ledger st.kmem st.created []

structure Returned (st : KmemState μ) (cp : Nat) (t : Teardown μ) : Prop where
  pages : t.pages.Perm (st.kmem.cacheRanges cp)
  pagesOnce : (t.pages.map Prod.fst).Nodup
  ranges : st.kmem.ranges.Perm (t.pages ++ t.kmem.ranges)
  objs : t.objs.Perm (st.kmem.cacheObjs cp)
  objsOnce : t.objs.Nodup

section

variable (hinv : Kmem.Inv st.kmem st.created used st.live) (hcp : cp ∈ st.created)
  (hlive : ∀ x, ¬ st.Live cp x)

include hinv hcp hlive

theorem used_of_not_live {sp : Nat} (hsp : sp ∈ st.kmem.slabs cp) : used sp = [] := by
  rw [List.eq_nil_iff_forall_not_mem]
  intro y hy
  apply hlive (st.kmem.obj cp y)
  rw [live_iff hinv]
  exact ⟨hcp, sp, hsp, y, hy, rfl⟩

theorem full_of_not_live : (st.kmem.cache cp).fullSlablist = [] := by
  have hcache := hinv.core.cache cp hcp
  rw [List.eq_nil_iff_forall_not_mem]
  intro sp hsp
  have hfull := hcache.full sp hsp
  rw [used_of_not_live hinv hcp hlive (List.mem_append_right _ hsp)] at hfull
  have := hcache.geometry.slabcap
  simp at hfull
  omega

theorem cacheObjs_of_not_live
    : st.kmem.cacheObjs cp = (st.kmem.slabs cp).flatMap (st.kmem.slabObjs cp) := by
  unfold Kmem.cacheObjs
  split
  . exact List.append_nil _
  . next hlarge =>
    have hnil : (st.kmem.cache cp).buflist = [] := by
      rw [List.eq_nil_iff_forall_not_mem]
      intro x hx
      rw [(hinv.core.cache cp hcp).buflist (by omega)] at hx
      rcases hx with ⟨sp, hsp, hx⟩
      rw [used_of_not_live hinv hcp hlive hsp] at hx
      cases hx
    rw [hnil]
    exact List.append_nil _

end

section

variable (cfg) (hinv : Kmem.Inv st.kmem st.created used st.live) (hledger : st.Accounted)
  (hcp : cp ∈ st.created)

include cfg hinv hledger hcp

theorem destroy_empty (hlive : ∀ x, ¬ st.Live cp x)
    : ∃ t, kmemCacheDestroy cfg st.kmem cp = .ok (0, t) ∧ st.Returned cp t ∧
        (cp ≠ st.kmem.slabCache → cp ≠ st.kmem.bufctlCache →
          (∃ used', Kmem.Inv t.kmem (st.created.erase cp) used' st.live) ∧
            Kmem.Ledger t.kmem (st.created.erase cp) []) := by
  have hfull := full_of_not_live hinv hcp hlive
  have hslabs : st.kmem.slabs cp = (st.kmem.cache cp).slablist := by
    unfold Kmem.slabs
    rw [hfull, List.append_nil]
  have hrefcnt : ∀ sp ∈ (st.kmem.cache cp).slablist, (st.kmem.slab sp).refcnt = 0 := by
    intro sp hsp
    rw [← hslabs] at hsp
    rw [(hinv.core.slabOk hcp hsp).refcnt, used_of_not_live hinv hcp hlive hsp]
    rfl
  rcases destroySlabs_emptied cfg (t := ⟨st.kmem, [], []⟩) hinv hledger hcp rfl hfull hrefcnt
    with ⟨t0, hemptied, heq⟩
  rcases hemptied.inv with ⟨used0, hinv0⟩
  have hforget := hemptied.ledger.forget hcp hemptied.slabs
  refine ⟨⟨t0.kmem.release cp 1, t0.pages ++ [(cp, 1)], t0.objs⟩, ?_, ?_, ?_⟩
  . unfold kmemCacheDestroy
    dsimp only
    rw [if_neg (by simp [hfull]), heq]
    unfold Teardown.vmKfree
    rw [vmKfree_eq hforget]
    rfl
  . have hpages : (t0.pages ++ [(cp, 1)]).Perm (st.kmem.cacheRanges cp) := by
      rw [hemptied.pages, List.nil_append]
      unfold Kmem.cacheRanges
      rw [hslabs]
      exact List.perm_append_singleton ..
    have hobjs : t0.objs = st.kmem.cacheObjs cp := by
      rw [hemptied.objs, List.nil_append, cacheObjs_of_not_live hinv hcp hlive, hslabs]
    refine ⟨hpages, ?_, ?_, by rw [hobjs], ?_⟩
    . have hnodup := (hledger.perm.map Prod.fst).nodup_iff.mp hledger.nodup
      have howned := ((List.perm_cons_erase hcp).flatMap_right st.kmem.cacheRanges).map Prod.fst
      rw [List.append_nil] at hnodup
      rw [List.flatMap_cons, List.map_append] at howned
      have hboth := howned.nodup_iff.mp hnodup
      rw [List.nodup_append] at hboth
      exact (hpages.map Prod.fst).nodup_iff.mpr hboth.1
    . have hmem : (cp, 1) ∈ t0.kmem.ranges := hforget.perm.mem_iff.mpr (by simp)
      have hperm := hemptied.ranges.trans ((List.perm_cons_erase hmem).append_left _)
      rw [hemptied.pages, List.nil_append, List.append_assoc]
      exact hperm
    . dsimp only
      rw [hobjs, cacheObjs_of_not_live hinv hcp hlive]
      exact Kmem.nodup_flatMap_slabObjs hinv.core hcp
  . intro hslab hbufctl
    rw [← hemptied.slabCache] at hslab
    rw [← hemptied.bufctlCache] at hbufctl
    have hinv1 := hinv0.forget hemptied.ledger.created_nodup hemptied.slabs hslab hbufctl
    exact ⟨⟨used0, hinv1.release (hforget.unowned List.mem_cons_self)⟩, hforget.release⟩

theorem destroy_live {x : Nat} (hlive : st.Live cp x)
    : ∃ t, kmemCacheDestroy cfg st.kmem cp = .ok (-1, t) ∧
        (∃ used', Kmem.Inv t.kmem st.created used' st.live) ∧ Kmem.Ledger t.kmem st.created [] := by
  unfold kmemCacheDestroy
  dsimp only
  by_cases hfull : (st.kmem.cache cp).fullSlablist = []
  . rw [if_neg (by simp [hfull])]
    apply destroySlabs_stopped cfg (t := ⟨st.kmem, [], []⟩) hinv hledger hcp rfl
    rw [live_iff hinv] at hlive
    rcases hlive with ⟨_, sp, hsp, y, hy, _⟩
    refine ⟨sp, ?_, ?_⟩
    . unfold Kmem.slabs at hsp
      rwa [hfull, List.append_nil] at hsp
    . dsimp only
      rw [(hinv.core.slabOk hcp hsp).refcnt]
      exact Nat.ne_of_gt (List.length_pos_of_mem hy)
  . rw [if_pos (by simp [hfull])]
    exact ⟨_, rfl, ⟨used, hinv⟩, hledger⟩

end

theorem inv_slabStep (hf : Fresh env) {op : SlabOp μ}
    (h : (∃ used, Kmem.Inv st.kmem st.created used st.live) ∧ st.Accounted)
    (hstep : SlabStep cfg env st op st')
    : (∃ used, Kmem.Inv st'.kmem st'.created used st'.live) ∧ st'.Accounted := by
  rcases h with ⟨⟨used, hinv⟩, hledger⟩
  cases op with
  | call op => exact ⟨inv_step hf hinv hstep, ledger_step hf hinv hledger hstep⟩
  | destroy cp =>
    rcases hstep with ⟨hcp, hslab, hbufctl, ret, t, hok, rfl⟩
    by_cases hlive : ∀ x, ¬ st.Live cp x
    . rcases destroy_empty cfg hinv hledger hcp hlive with ⟨t', hok', _, hrest⟩
      rw [hok] at hok'
      cases hok'
      exact hrest hslab hbufctl
    . push Not at hlive
      rcases hlive with ⟨x, hlive⟩
      rcases destroy_live cfg hinv hledger hcp hlive with ⟨t', hok', hrest⟩
      rw [hok] at hok'
      cases hok'
      exact hrest

theorem inv_slabReach (hf : Fresh env) (h : Reach (KmemInit cfg env) (Served (SlabStep cfg)) st)
    : (∃ used, Kmem.Inv st.kmem st.created used st.live) ∧ st.Accounted := by
  apply h.invariant (fun _ hinit => ⟨inv_init hf hinit, ledger_init hf hinit⟩)
  rintro _ _ _ hinv ⟨env', hf', hstep⟩
  exact inv_slabStep hf' hinv hstep

structure Sound (cfg : Config) (env : KmemEnv) (st : KmemState μ) : Prop where
  consistent : st.Consistent cfg env
  accounted : st.Accounted

theorem kmem_cache_destroy_exact (hf : Fresh env) (h : Reach (KmemInit cfg env) (Served (SlabStep cfg)) st)
    (hcp : cp ∈ st.created)
    : st.Sound cfg env ∧ ∃ ret t, kmemCacheDestroy cfg st.kmem cp = .ok (ret, t) ∧
        (ret = 0 ↔ ∀ x, ¬ st.Live cp x) ∧
        (ret = 0 → st.Returned cp t ∧ (cp ≠ st.kmem.slabCache → cp ≠ st.kmem.bufctlCache →
          Sound cfg env ⟨t.kmem, st.created.erase cp, st.live⟩)) ∧
        (ret ≠ 0 → ret = -1 ∧ Sound cfg env ⟨t.kmem, st.created, st.live⟩) := by
  rcases inv_slabReach hf h with ⟨⟨used, hinv⟩, hledger⟩
  refine ⟨⟨consistent_of_inv hf hinv, hledger⟩, ?_⟩
  by_cases hlive : ∀ x, ¬ st.Live cp x
  . rcases destroy_empty cfg hinv hledger hcp hlive with ⟨t, hok, hreturned, hrest⟩
    refine ⟨0, t, hok, by simp [hlive], fun _ => ⟨hreturned, ?_⟩, by simp⟩
    intro hslab hbufctl
    rcases hrest hslab hbufctl with ⟨⟨used', hinv'⟩, hledger'⟩
    exact ⟨consistent_of_inv hf hinv', hledger'⟩
  . have hlive' := hlive
    push Not at hlive'
    rcases hlive' with ⟨x, hx⟩
    rcases destroy_live cfg hinv hledger hcp hx with ⟨t, hok, ⟨used', hinv'⟩, hledger'⟩
    refine ⟨-1, t, hok, by simp [hlive], by simp, fun _ => ⟨rfl, ?_⟩⟩
    exact ⟨consistent_of_inv hf hinv', hledger'⟩

theorem kmem_cache_destroy_exact_oneObject
    : ∃ (st : KmemState Unit) (cp obj : Nat), cp ∈ st.created ∧ st.Live cp obj ∧ ∃ ret t,
        kmemCacheDestroy ⟨false⟩ st.kmem cp = .ok (ret, t) ∧ ret = -1 ∧
        Sound ⟨false⟩ bump ⟨t.kmem, st.created, st.live⟩ := by
  rcases oneObject_run with ⟨s0, cp, s1, obj, s2, hinit, hcreate, hcap, halloc, _⟩
  have h0 : Reach (KmemInit ⟨false⟩ bump) (Served (SlabStep ⟨false⟩))
      (⟨s0, [s0.bufctlCache, s0.slabCache], ∅⟩ : KmemState Unit) :=
    .start ⟨blankKmem, rfl, hinit, rfl, rfl⟩
  have h1 : Reach (KmemInit ⟨false⟩ bump) (Served (SlabStep ⟨false⟩))
      (⟨s1, [cp, s0.bufctlCache, s0.slabCache], ∅⟩ : KmemState Unit) :=
    h0.next (e := .call (.create 512 0 none none))
      ⟨bump, fresh_bump, argsOk_large, cp, hcreate, hcap, rfl, rfl⟩
  have h2 : Reach (KmemInit ⟨false⟩ bump) (Served (SlabStep ⟨false⟩))
      (⟨s2, [cp, s0.bufctlCache, s0.slabCache], {(cp, obj)}⟩ : KmemState Unit) :=
    h1.next (e := .call (.alloc cp))
      ⟨bump, fresh_bump, List.mem_cons_self, obj, halloc, rfl, by simp⟩
  have hlive : Live (⟨s2, [cp, s0.bufctlCache, s0.slabCache], {(cp, obj)}⟩ : KmemState Unit) cp obj :=
    .client (Set.mem_singleton _)
  rcases kmem_cache_destroy_exact fresh_bump h2 List.mem_cons_self with
    ⟨_, ret, t, hdestroy, hiff, _, hspared⟩
  have hne : ret ≠ 0 := by
    intro hzero
    exact hiff.mp hzero obj hlive
  exact ⟨_, cp, obj, List.mem_cons_self, hlive, ret, t, hdestroy, hspared hne⟩

end KmemState
end Slab
end Nyy
