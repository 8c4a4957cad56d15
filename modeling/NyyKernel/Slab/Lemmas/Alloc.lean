import NyyKernel.Slab.Lemmas.Grow

namespace Nyy
namespace Slab
namespace Kmem

variable {μ : Type}

section

variable {s s' : Kmem μ} {created : List Nat} {used used' : Nat → List Nat} {held : Set (Nat × Nat)}
  {cp cp' sp sp' x a n : Nat}

theorem Exchange.kept (he : Exchange s s' cp sp used used') (h : Inv s created used held)
    (hcp : cp ∈ created) (hsp : sp ∈ s.slabs cp)
    : Kept s s' created held := by
  constructor
  . constructor
    . exact he.slabCache
    . exact he.bufctlCache
    . rw [he.ranges]
      exact fun _ hr => hr
    . intro cp'
      by_cases heq : cp' = cp
      . rw [heq, he.geometry]
      . rw [he.cache cp' heq]
    . intro cp'
      by_cases heq : cp' = cp
      . rw [heq, he.constructor]
      . rw [he.cache cp' heq]
  . exact he.bufctl
  . intro x hx
    apply he.slab
    rintro rfl
    exact h.held_not_slab hx hcp hsp
  . intro a ha
    refine ⟨?_, ha.cache, ?_⟩
    . rw [he.ranges]
      exact ha.range
    . intro cp' hcp' sp' hsp'
      rw [he.mem_slabs] at hsp'
      rw [he.chunkBase]
      exact ha.slab cp' hcp' sp' hsp'

theorem construct_cases (cfg : Config) (s : Kmem μ) (cp obj : Nat)
    : (construct cfg s cp obj = .error .assertion ∧
          ∃ c mem, (s.cache cp).constructor = some c ∧ (c obj mem).1 ≠ 0) ∨
        ∃ mem, construct cfg s cp obj = .ok { s with mem := mem } := by
  unfold construct
  cases hc : (s.cache cp).constructor with
  | none => exact .inr ⟨s.mem, rfl⟩
  | some c =>
    dsimp only
    split
    . exact .inr ⟨s.mem, rfl⟩
    . next hasserts =>
      by_cases hret : (c obj s.mem).1 = 0
      . right
        refine ⟨(c obj s.mem).2, ?_⟩
        rw [hret, beq_self_eq_true, check_true]
        rfl
      . left
        refine ⟨?_, c, s.mem, rfl, hret⟩
        have : check cfg ((c obj s.mem).1 == 0) = .error .assertion := by
          simp [check, hasserts, hret]
        rw [this]
        rfl

inductive Took (s : Kmem μ) (created : List Nat) (held : Set (Nat × Nat)) (cp : Nat)
    : Except Fault (Nat × Kmem μ) → Prop where
  | rejected (c : Nat → μ → Int × μ) (obj : Nat) (mem : μ)
      (hc : (s.cache cp).constructor = some c) (hret : (c obj mem).1 ≠ 0)
      : Took s created held cp (.error .assertion)
  | ok (obj : Nat) (s' : Kmem μ) (used : Nat → List Nat)
      (hinv : Inv s' created used (insert (cp, obj) held)) (hnew : (cp, obj) ∉ held)
      (hkept : Kept s s' created held) : Took s created held cp (.ok (obj, s'))

section

variable (cfg : Config) (h : Inv s created used held) (hcp : cp ∈ created)
  (hne : (s.cache cp).slablist ≠ [])

include cfg h hcp hne

theorem allocFirst_eq
    : ∃ sp x s1, Exchange s s1 cp sp used (take used sp x) ∧ sp ∈ s.slabs cp ∧
        x ∈ (s.slab sp).freelist ∧ allocFirst cfg s cp = (do
          let s2 ← construct cfg s1 cp (s.obj cp x)
          return (s.obj cp x, s2)) := by
  unfold allocFirst
  cases hlist : (s.cache cp).slablist with
  | nil => exact absurd hlist hne
  | cons sp rest =>
    have hcache := h.core.cache cp hcp
    have hsp : sp ∈ s.slabs cp := by simp [slabs, hlist]
    have hslab := hcache.slab sp hsp
    have hnotFull := hcache.notFull sp (by simp [hlist])
    cases hfree : (s.slab sp).freelist with
    | nil =>
      have := hslab.length
      rw [hfree, List.length_nil] at this
      omega
    | cons x free =>
      refine ⟨sp, x, _, exchange_alloc h.core hcp hlist hfree, hsp, by simp [hfree], ?_⟩
      dsimp only
      rw [check_of cfg (by simpa [hslab.refcnt] using hnotFull), Except.ok_bind,
        slabAlloc_eq hslab hfree, Except.ok_bind]

theorem allocFirst_took : Took s created held cp (allocFirst cfg s cp) := by
  rcases allocFirst_eq cfg h hcp hne with ⟨sp, x, s', hexchange, hsp, hx, heq⟩
  have hinv := hexchange.inv_take h hcp hsp hx
  have hkept := hexchange.kept h hcp hsp
  have hnew : (cp, s.obj cp x) ∉ held := by
    intro hheld
    exact h.core.free_not_allocated hcp hsp hx (h.allocated hheld)
  rw [heq]
  rcases construct_cases cfg s' cp (s.obj cp x) with ⟨herr, c, mem, hc, hret⟩ | ⟨mem, hok⟩
  . rw [herr]
    rw [hkept.stable.constructor] at hc
    exact .rejected c _ mem hc hret
  . rw [hok]
    refine .ok _ _ _ (hinv.setMem mem) hnew (hkept.trans ?_)
    exact ⟨⟨rfl, rfl, fun _ hr => hr, fun _ => rfl, fun _ => rfl⟩, rfl, fun _ _ => rfl,
      fun _ ha => ⟨ha.range, ha.cache, ha.slab⟩⟩

end

variable {env : KmemEnv} {s1 : Kmem μ} {r : Except Fault (Nat × Kmem μ)}

theorem grow_of_ne {create : CacheAlloc μ} (hne : (s.cache cp).slablist ≠ [])
    : grow create s cp = .ok s := by
  unfold grow
  rw [if_neg]
  . rfl
  . simpa using hne

theorem Took.of_kept (h : Took s1 created held cp r) (hkept : Kept s s1 created held)
    : Took s created held cp r := by
  cases h with
  | rejected c obj mem hc hret =>
    rw [hkept.stable.constructor] at hc
    exact .rejected c obj mem hc hret
  | ok obj s' used hinv hnew hkept' => exact .ok obj s' used hinv hnew (hkept.trans hkept')

theorem kmemCacheAlloc_small (cfg : Config) (hf : Fresh env) (fuel : Nat) (h : Inv s created used held)
    (hcp : cp ∈ created) (hsmall : (s.cache cp).chunksize ≤ kmemSmallMax)
    : kmemCacheAlloc cfg env (fuel + 1) s cp = .error .noMemory ∨
        Took s created held cp (kmemCacheAlloc cfg env (fuel + 1) s cp) := by
  unfold kmemCacheAlloc
  simp only [if_pos hsmall]
  by_cases hempty : (s.cache cp).slablist = []
  . rcases grow_small hf h hcp hsmall hempty with herr | ⟨s1, used1, hok, hinv, hne, hkept⟩
    . left
      rw [herr]
      rfl
    . right
      rw [hok, Except.ok_bind]
      exact (allocFirst_took cfg hinv hcp hne).of_kept hkept
  . right
    rw [grow_of_ne hempty, Except.ok_bind]
    exact allocFirst_took cfg h hcp hempty

def MetaAlloc (created : List Nat) (alloc : CacheAlloc μ) : Prop :=
  ∀ (s : Kmem μ) used held cp, Inv s created used held → cp = s.slabCache ∨ cp = s.bufctlCache →
    alloc s cp = .error .noMemory ∨ ∃ obj s' used', alloc s cp = .ok (obj, s') ∧
      Inv s' created used' (insert (cp, obj) held) ∧ (cp, obj) ∉ held ∧ Kept s s' created held

theorem metaAlloc_kmemCacheAlloc (cfg : Config) (hf : Fresh env) (created : List Nat) (fuel : Nat)
    : MetaAlloc created (kmemCacheAlloc (μ := μ) cfg env (fuel + 1)) := by
  intro s used held cp h hcp
  have hmeta := h.core.metaCaches
  have hmem : cp ∈ created := by
    rcases hcp with rfl | rfl
    . exact hmeta.slabCache
    . exact hmeta.bufctlCache
  rcases hmeta.small cp hcp with ⟨hsmall, hconstr⟩
  rcases kmemCacheAlloc_small cfg hf fuel h hmem hsmall with herr | htook
  . exact .inl herr
  . right
    generalize kmemCacheAlloc cfg env (fuel + 1) s cp = r at htook
    cases htook with
    | rejected c obj mem hc _ => simp [hconstr] at hc
    | ok obj s' used' hinv hnew hkept => exact ⟨obj, s', used', rfl, hinv, hnew, hkept⟩

section Large

variable {alloc : CacheAlloc μ} {base bp : Nat} {new : List Nat}

theorem Inv.unowned_setSlab (h : Inv s created used held) (hheld : (s.slabCache, sp) ∈ held)
    (slab : KmemSlab) (ha : Unowned s created a)
    : Unowned (s.setSlab sp slab) created a := by
  refine ⟨ha.range, ha.cache, ?_⟩
  intro cp' hcp' sp' hsp'
  have hne : sp' ≠ sp := by
    rintro rfl
    exact h.held_not_slab hheld hcp' hsp'
  rw [chunkBase_congr (s := s)]
  . exact ha.slab cp' hcp' sp' hsp'
  . simp [Kmem.setSlab, hne]

structure Filled (s s' : Kmem μ) (created : List Nat) (held : Set (Nat × Nat)) (sp : Nat)
    (new bases : List Nat) : Prop where
  stable : Stable s s'
  slab : s'.slab sp = { s.slab sp with freelist := new ++ (s.slab sp).freelist }
  bases : new.map (fun x => (s'.bufctl x).base) = bases.reverse
  owner : ∀ x ∈ new, (s'.bufctl x).slab = sp
  notHeld : ∀ x ∈ new, (s.bufctlCache, x) ∉ held
  bufctl : ∀ x, (s.bufctlCache, x) ∈ held → s'.bufctl x = s.bufctl x
  unowned : ∀ a, Unowned s created a → Unowned s' created a

def withBufctls (s : Kmem μ) (held : Set (Nat × Nat)) (new : List Nat) : Set (Nat × Nat) :=
  held ∪ { p | p.1 = s.bufctlCache ∧ p.2 ∈ new }

theorem mem_withBufctls {p : Nat × Nat}
    : p ∈ withBufctls s held new ↔ p ∈ held ∨ (p.1 = s.bufctlCache ∧ p.2 ∈ new) := by
  exact Iff.rfl

def bufctlAdded (s : Kmem μ) (sp bp base : Nat) : Kmem μ :=
  (s.setBufctl bp ⟨sp, base⟩).setSlab sp
    { s.slab sp with freelist := bp :: (s.slab sp).freelist }

theorem Inv.bufctlAdded (h : Inv s created used held) (hsp : (s.slabCache, sp) ∈ held)
    (hbp : (s.bufctlCache, bp) ∈ held) (base : Nat)
    : Inv (bufctlAdded s sp bp base) created used held := by
  exact (h.setBufctl hbp ⟨sp, base⟩).setSlab hsp _

theorem Inv.bufctlAdded_unowned (h : Inv s created used held) (hsp : (s.slabCache, sp) ∈ held)
    (hbp : (s.bufctlCache, bp) ∈ held) (base : Nat) (ha : Unowned s created a)
    : Unowned (Kmem.bufctlAdded s sp bp base) created a := by
  exact (h.setBufctl hbp ⟨sp, base⟩).unowned_setSlab hsp _ ⟨ha.range, ha.cache, ha.slab⟩

theorem Filled.cons {s1 s2 : Kmem μ} {bp b : Nat} {new bases : List Nat} (hkept : Kept s s1 created held)
    (h1 : Inv s1 created used (insert (s.bufctlCache, bp) held)) (hsp : (s.slabCache, sp) ∈ held)
    (hnew : (s.bufctlCache, bp) ∉ held)
    (hf : Filled (bufctlAdded s1 sp bp b) s2 created (insert (s.bufctlCache, bp) held) sp new bases)
    : Filled s s2 created held sp (new ++ [bp]) (b :: bases) := by
  have hcache : (bufctlAdded s1 sp bp b).bufctlCache = s.bufctlCache := hkept.stable.bufctlCache
  have hbufctl : ∀ x, (bufctlAdded s1 sp bp b).bufctl x = if x = bp then ⟨sp, b⟩ else s.bufctl x := by
    intro x
    simp only [bufctlAdded, setSlab, setBufctl, hkept.bufctl, Function.update_apply]
  have hbp : s2.bufctl bp = ⟨sp, b⟩ := by
    rw [hf.bufctl bp (by rw [hcache]; exact Set.mem_insert ..), hbufctl, if_pos rfl]
  constructor
  . refine hkept.stable.trans (Stable.trans ?_ hf.stable)
    exact ⟨rfl, rfl, fun _ hr => hr, fun _ => rfl, fun _ => rfl⟩
  . rw [hf.slab]
    simp only [bufctlAdded, setSlab, Function.update_self, hkept.slab sp hsp, List.append_assoc,
      List.singleton_append]
  . rw [List.map_append, hf.bases]
    simp [hbp]
  . simp only [List.mem_append, List.mem_singleton]
    rintro x (hx | rfl)
    . exact hf.owner x hx
    . rw [hbp]
  . simp only [List.mem_append, List.mem_singleton]
    rintro x (hx | rfl)
    . have := hf.notHeld x hx
      rw [hcache] at this
      exact fun hheld => this (Set.mem_insert_of_mem _ hheld)
    . exact hnew
  . intro x hx
    rw [hf.bufctl x (by rw [hcache]; exact Set.mem_insert_of_mem _ hx), hbufctl, if_neg]
    rintro rfl
    exact hnew hx
  . intro a ha
    apply hf.unowned
    apply h1.bufctlAdded_unowned _ _ b (hkept.unowned a ha)
    . rw [hkept.stable.slabCache]
      exact Set.mem_insert_of_mem _ hsp
    . rw [hkept.stable.bufctlCache]
      exact Set.mem_insert ..

theorem largeSlabFill_spec (halloc : MetaAlloc created alloc) (is : List Nat) (h : Inv s created used held)
    (hsp : (s.slabCache, sp) ∈ held) (hlt : ∀ i ∈ is, base + (s.cache cp).chunksize * i < 2 ^ 64)
    : largeSlabFill alloc cp sp base is s = .error .noMemory ∨
        ∃ s' used' new, largeSlabFill alloc cp sp base is s = .ok s' ∧
          Inv s' created used' (withBufctls s held new) ∧
          Filled s s' created held sp new (is.map fun i => base + i * (s.cache cp).chunksize) := by
  induction is generalizing s used held with
  | nil =>
    right
    refine ⟨s, used, [], rfl, ?_, ?_⟩
    . simpa [withBufctls] using h
    . exact ⟨.refl s, rfl, rfl, by simp, by simp, fun _ _ => rfl, fun _ ha => ha⟩
  | cons i is ih =>
    rcases halloc s used held s.bufctlCache h (.inr rfl)
      with herr | ⟨bp, s1, used1, hok, h1, hnew, hkept⟩
    . left
      unfold largeSlabFill
      rw [herr]
      rfl
    have hsize := hkept.stable.chunksize cp
    have hround : largeSlabFill alloc cp sp base (i :: is) s =
        largeSlabFill alloc cp sp base is
          (bufctlAdded s1 sp bp (base + i * (s.cache cp).chunksize)) := by
      have hb : Word.add base (Word.mul (s1.cache cp).chunksize i) =
          base + i * (s.cache cp).chunksize := by
        have := hlt i List.mem_cons_self
        rw [hsize, Word.mul_eq (by omega), Word.add_eq this, Nat.mul_comm]
      rw [← hb, largeSlabFill, hok]
      rfl
    rw [hround, List.map_cons]
    generalize base + i * (s.cache cp).chunksize = b
    have hsp1 : (s1.slabCache, sp) ∈ insert (s.bufctlCache, bp) held := by
      rw [hkept.stable.slabCache]
      exact Set.mem_insert_of_mem _ hsp
    have hbp1 : (s1.bufctlCache, bp) ∈ insert (s.bufctlCache, bp) held := by
      rw [hkept.stable.bufctlCache]
      exact Set.mem_insert ..
    have hchunk : ((bufctlAdded s1 sp bp b).cache cp).chunksize = (s.cache cp).chunksize := hsize
    have hrest := ih (h1.bufctlAdded hsp1 hbp1 b) hsp1 (by
      intro j hj
      rw [hchunk]
      exact hlt j (List.mem_cons_of_mem _ hj))
    rw [hchunk] at hrest
    rcases hrest with herr | ⟨s', used', new, hok', hinv, hfilled⟩
    . exact .inl herr
    . right
      refine ⟨s', used', new ++ [bp], hok', ?_, Filled.cons hkept h1 hsp hnew hfilled⟩
      have hheld : withBufctls (bufctlAdded s1 sp bp b) (insert (s.bufctlCache, bp) held) new =
          withBufctls s held (new ++ [bp]) := by
        have hcache : (bufctlAdded s1 sp bp b).bufctlCache = s.bufctlCache :=
          hkept.stable.bufctlCache
        ext p
        rw [mem_withBufctls, mem_withBufctls, hcache, Set.mem_insert_iff, Prod.ext_iff,
          List.mem_append, List.mem_singleton]
        tauto
      rw [← hheld]
      exact hinv

theorem Inv.allocated_pos (h : Inv s created used held) (hcp : cp ∈ created) (hall : Allocated s used cp x)
    : x ≠ 0 := by
  rcases hall with ⟨sp, hsp, y, hy, rfl⟩
  have hin := h.core.inside hcp hsp (List.mem_append_right _ hy)
  have haddr : 0 < s.chunkBase sp := (h.core.ranges.addr _ (h.core.slabOk hcp hsp).range).2.1
  omega

structure Started (s s' : Kmem μ) (created : List Nat) (held : Set (Nat × Nat)) (cp sp base : Nat)
    : Prop where
  inv : ∃ used, Inv s' created used (insert (s.slabCache, sp) held)
  notHeld : (s.slabCache, sp) ∉ held
  stable : Stable s s'
  slab : s'.slab sp = ⟨[], 0, cp, base⟩
  range : (base, (s.cache cp).slabsize) ∈ s'.ranges
  unowned : Unowned s' created base

theorem largeSlabCreate_eq (cfg : Config) (hf : Fresh env) (halloc : MetaAlloc created alloc)
    (h : Inv s created used held) (hcp : cp ∈ created)
    : largeSlabCreate cfg env alloc s cp = .error .noMemory ∨
        ∃ s' sp base, Started s s' created held cp sp base ∧
          largeSlabCreate cfg env alloc s cp = (do
            let s2 ← largeSlabFill alloc cp sp base (List.range (s.cache cp).slabcap) s'
            return (sp, s2)) := by
  unfold largeSlabCreate
  rcases halloc s used held s.slabCache h (.inl rfl) with herr | ⟨sp, s1, used1, hok, h1, hnew, hkept⟩
  . left
    rw [herr]
    rfl
  have hmem := h1.core.metaCaches.slabCache
  have hsp1 : (s1.slabCache, sp) ∈ insert (s.slabCache, sp) held := by
    rw [hkept.stable.slabCache]
    exact Set.mem_insert ..
  have hpos : sp ≠ 0 := h1.allocated_pos hmem (h1.allocated hsp1)
  have h2 := h1.setSlab hsp1 { s1.slab sp with freelist := [], refcnt := 0, parentCache := cp }
  have hcap : (s1.cache cp).slabcap = (s.cache cp).slabcap :=
    congrArg (fun g => g.2.1) (hkept.stable.geometry cp)
  have hpages : (s1.cache cp).slabsize = (s.cache cp).slabsize :=
    congrArg (fun g => g.2.2) (hkept.stable.geometry cp)
  rw [hok, Except.ok_bind]
  dsimp only
  rw [check_of cfg (by simpa using hpos), Except.ok_bind]
  rcases vmKalloc_cases hf h2.core.ranges (h2.core.cache cp hcp).geometry.slabsize
    with herr | ⟨base, hok2, hranges, hapart⟩
  . left
    rw [herr]
    rfl
  . right
    have h3 := h2.kalloc hranges
    have hun := h2.core.unowned (h2.core.cache cp hcp).geometry.slabsize hapart
    rw [hok2, Except.ok_bind]
    dsimp only
    refine ⟨_, sp, base, ⟨⟨_, h3.setSlab hsp1 ⟨[], 0, cp, base⟩⟩, hnew, ?_, ?_, ?_, ?_⟩, ?_⟩
    . refine hkept.stable.trans ?_
      exact ⟨rfl, rfl, fun _ hr => List.mem_cons_of_mem _ hr, fun _ => rfl, fun _ => rfl⟩
    . simp [setSlab]
    . rw [← hpages]
      exact List.mem_cons_self
    . exact h3.unowned_setSlab hsp1 _ hun
    . rw [← hcap]
      simp [setSlab]

theorem Started.prepared {s1 s2 : Kmem μ} (hst : Started s s1 created held cp sp base)
    (hlarge : kmemSmallMax < (s.cache cp).chunksize)
    (h2 : Inv s2 created used (withBufctls s1 (insert (s.slabCache, sp) held) new))
    (hfilled : Filled s1 s2 created (insert (s.slabCache, sp) held) sp new
      ((List.range (s.cache cp).slabcap).map fun i => base + i * (s.cache cp).chunksize))
    : Prepared s2 created cp sp := by
  have hstable := hst.stable.trans hfilled.stable
  have hsize := hstable.chunksize cp
  have hcap : (s2.cache cp).slabcap = (s.cache cp).slabcap :=
    congrArg (fun g => g.2.1) (hstable.geometry cp)
  have hpages : (s2.cache cp).slabsize = (s.cache cp).slabsize :=
    congrArg (fun g => g.2.2) (hstable.geometry cp)
  have hslab : s2.slab sp = ⟨new, 0, cp, base⟩ := by
    rw [hfilled.slab, hst.slab, List.append_nil]
  have hbase0 : base ≠ 0 := by
    rcases hst.inv with ⟨used1, h1⟩
    exact (h1.core.ranges.addr _ hst.range).2.1.ne'
  have hbase : s2.chunkBase sp = base := by
    unfold chunkBase
    rw [hslab, if_neg hbase0]
  constructor
  . constructor
    . rw [hslab]
    . rw [hslab]
      rfl
    . have hobj : s2.obj cp = fun x => (s2.bufctl x).base := by
        funext x
        unfold obj
        rw [if_neg (by omega)]
      rw [hslab, hbase, hsize, hcap, hobj, List.append_nil, hfilled.bases]
      exact List.reverse_perm _
    . rw [hbase, hpages]
      exact hfilled.stable.ranges hst.range
    . intro hsmall
      omega
    . intro _
      rw [hslab, List.append_nil]
      exact ⟨hbase0, hfilled.owner⟩
  . intro cp' hcp'
    apply h2.held_not_slab _ hcp'
    rw [mem_withBufctls, hstable.slabCache]
    exact .inl (Set.mem_insert ..)
  . rw [hbase]
    exact hfilled.unowned base hst.unowned

theorem grow_large (cfg : Config) (hf : Fresh env) (halloc : MetaAlloc created alloc)
    (h : Inv s created used held) (hcp : cp ∈ created) (hlarge : kmemSmallMax < (s.cache cp).chunksize)
    (hempty : (s.cache cp).slablist = [])
    : grow (largeSlabCreate cfg env alloc) s cp = .error .noMemory ∨
        ∃ s' used', grow (largeSlabCreate cfg env alloc) s cp = .ok s' ∧
          Inv s' created used' held ∧ (s'.cache cp).slablist ≠ [] ∧ Stable s s' := by
  unfold grow
  simp only [hempty, List.isEmpty_nil, if_true]
  rcases largeSlabCreate_eq cfg hf halloc h hcp with herr | ⟨s1, sp, base, hst, heq⟩
  . left
    rw [herr]
    rfl
  rcases hst.inv with ⟨used1, h1⟩
  have hsize := hst.stable.chunksize cp
  have hsp : (s1.slabCache, sp) ∈ insert (s.slabCache, sp) held := by
    rw [hst.stable.slabCache]
    exact Set.mem_insert ..
  have hlt : ∀ i ∈ List.range (s.cache cp).slabcap,
      base + (s1.cache cp).chunksize * i < 2 ^ 64 := by
    intro i hi
    have haddr : base + (s.cache cp).slabsize * pageSize < 2 ^ 64 :=
      (h1.core.ranges.addr _ hst.range).2.2
    have hfits := (h.core.cache cp hcp).geometry.fits
    have hle : (s.cache cp).chunksize * i ≤ (s.cache cp).slabcap * (s.cache cp).chunksize := by
      rw [Nat.mul_comm]
      exact Nat.mul_le_mul_right _ (List.mem_range.mp hi).le
    rw [hsize]
    omega
  rw [heq]
  rcases largeSlabFill_spec halloc (List.range (s.cache cp).slabcap) h1 hsp hlt
    with herr | ⟨s2, used2, new, hok, h2, hfilled⟩
  . left
    rw [herr]
    rfl
  . right
    rw [hsize] at hfilled
    have hprepared := hst.prepared hlarge h2 hfilled
    have hstable := hst.stable.trans hfilled.stable
    have hfree : (s2.slab sp).freelist = new := by
      rw [hfilled.slab, hst.slab, List.append_nil]
    have hlinked : ∀ p, p ∈ linked s2 cp sp ↔
        p = (s.slabCache, sp) ∨ (p.1 = s1.bufctlCache ∧ p.2 ∈ new) := by
      intro p
      unfold linked
      rw [Set.mem_ofPred_eq, hstable.chunksize, hstable.slabCache, hfilled.stable.bufctlCache, hfree,
        Prod.ext_iff]
      exact ⟨fun h => h.2, fun h => ⟨hlarge, h⟩⟩
    have hinv := h2.link hcp hprepared (by
      intro p hp
      rw [mem_withBufctls]
      rcases (hlinked p).mp hp with rfl | hp
      . exact .inl (Set.mem_insert ..)
      . exact .inr hp)
    have hheld : withBufctls s1 (insert (s.slabCache, sp) held) new \ linked s2 cp sp = held := by
      ext p
      rw [Set.mem_sdiff, mem_withBufctls, hlinked, Set.mem_insert_iff]
      constructor
      . tauto
      . intro hp
        refine ⟨.inl (.inr hp), ?_⟩
        rintro (rfl | ⟨hp1, hp2⟩)
        . exact hst.notHeld hp
        . apply hfilled.notHeld _ hp2
          rw [← hp1]
          exact Set.mem_insert_of_mem _ hp
    rw [hheld] at hinv
    refine ⟨s2.link cp sp, _, ?_, hinv, ?_, hstable.trans (link_stable ..)⟩
    . rw [hok]
      rfl
    . simp [link, setCache]

end Large

inductive Allocates (s : Kmem μ) (created : List Nat) (held : Set (Nat × Nat)) (cp : Nat)
    : Except Fault (Nat × Kmem μ) → Prop where
  | noMemory : Allocates s created held cp (.error .noMemory)
  | rejected (c : Nat → μ → Int × μ) (obj : Nat) (mem : μ)
      (hc : (s.cache cp).constructor = some c) (hret : (c obj mem).1 ≠ 0)
      : Allocates s created held cp (.error .assertion)
  | ok (obj : Nat) (s' : Kmem μ) (used : Nat → List Nat)
      (hinv : Inv s' created used (insert (cp, obj) held)) (hnew : (cp, obj) ∉ held)
      (hstable : Stable s s') : Allocates s created held cp (.ok (obj, s'))

theorem Took.allocates (h : Took s1 created held cp r) (hstable : Stable s s1)
    : Allocates s created held cp r := by
  cases h with
  | rejected c obj mem hc hret =>
    rw [hstable.constructor] at hc
    exact .rejected c obj mem hc hret
  | ok obj s' used hinv hnew hkept => exact .ok obj s' used hinv hnew (hstable.trans hkept.stable)

theorem kmemCacheAlloc_allocates (cfg : Config) (hf : Fresh env) (fuel : Nat) (h : Inv s created used held)
    (hcp : cp ∈ created)
    : Allocates s created held cp (kmemCacheAlloc cfg env (fuel + 2) s cp) := by
  by_cases hsmall : (s.cache cp).chunksize ≤ kmemSmallMax
  . rcases kmemCacheAlloc_small cfg hf (fuel + 1) h hcp hsmall with herr | htook
    . rw [herr]
      exact .noMemory
    . exact htook.allocates (.refl s)
  . rw [kmemCacheAlloc]
    simp only [if_neg hsmall]
    by_cases hempty : (s.cache cp).slablist = []
    . have halloc := metaAlloc_kmemCacheAlloc (μ := μ) cfg hf created fuel
      rcases grow_large cfg hf halloc h hcp (by omega) hempty
        with herr | ⟨s1, used1, hok, hinv, hne, hstable⟩
      . rw [herr]
        exact .noMemory
      . rw [hok, Except.ok_bind]
        exact (allocFirst_took cfg hinv hcp hne).allocates hstable
    . rw [grow_of_ne hempty, Except.ok_bind]
      exact (allocFirst_took cfg h hcp hempty).allocates (.refl s)

end
end Kmem
end Slab
end Nyy
