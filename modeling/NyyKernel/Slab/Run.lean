import NyyKernel.Lib.Run
import NyyKernel.Slab.Lemmas.Free

namespace Nyy
namespace Slab

structure KmemState (μ : Type) where
  kmem : Kmem μ
  created : List Nat
  live : Set (Nat × Nat)

inductive KmemOp (μ : Type) where
  | create (bufsize align : Nat) (constructor : Option (Nat → μ → Int × μ))
      (destructor : Option (Nat → μ → μ))
  | alloc (cp : Nat)
  | free (cp obj : Nat)

variable {μ : Type}

def kmemAlloc (cfg : Config) (env : KmemEnv) (s : Kmem μ) (cp : Nat)
    : Except Fault (Nat × Kmem μ) :=
  kmemCacheAlloc cfg env 2 s cp

def KmemInit (cfg : Config) (env : KmemEnv) (st : KmemState μ) : Prop :=
  ∃ s : Kmem μ, s.ranges = [] ∧ kmemSlabInit cfg env s = .ok st.kmem ∧
    st.created = [st.kmem.bufctlCache, st.kmem.slabCache] ∧ st.live = ∅

def KmemStep (cfg : Config) (env : KmemEnv) (st : KmemState μ) : KmemOp μ → KmemState μ → Prop
  | .create bufsize align constructor destructor, st' =>
    ArgsOk bufsize align ∧ ∃ cp,
      kmemCacheCreate cfg env st.kmem bufsize align constructor destructor = .ok (cp, st'.kmem) ∧
      1 ≤ (st'.kmem.cache cp).slabcap ∧ st'.created = cp :: st.created ∧ st'.live = st.live
  | .alloc cp, st' =>
    cp ∈ st.created ∧ ∃ obj, kmemAlloc cfg env st.kmem cp = .ok (obj, st'.kmem) ∧
      st'.created = st.created ∧ st'.live = insert (cp, obj) st.live
  | .free cp obj, st' =>
    (cp, obj) ∈ st.live ∧ kmemCacheFree cfg st.kmem cp obj = .ok st'.kmem ∧
      st'.created = st.created ∧ st'.live = st.live \ {(cp, obj)}

-- A step that a source of fresh pages serves, possibly another one at every step.
def Served {σ ι : Type} (step : KmemEnv → σ → ι → σ → Prop) (s : σ) (op : ι) (s' : σ) : Prop :=
  ∃ env, Fresh env ∧ step env s op s'

namespace KmemState

def LargeCache (st : KmemState μ) (cp : Nat) : Prop :=
  cp ∈ st.created ∧ kmemSmallMax < (st.kmem.cache cp).chunksize

inductive Live (st : KmemState μ) : Nat → Nat → Prop where
  | client {cp obj : Nat} (h : (cp, obj) ∈ st.live) : Live st cp obj
  | header {cp sp : Nat} (hcp : st.LargeCache cp) (hsp : sp ∈ st.kmem.slabs cp)
      : Live st st.kmem.slabCache sp
  | freeBufctl {cp sp bp : Nat} (hcp : st.LargeCache cp) (hsp : sp ∈ st.kmem.slabs cp)
      (hbp : bp ∈ (st.kmem.slab sp).freelist) : Live st st.kmem.bufctlCache bp
  | usedBufctl {cp bp : Nat} (hcp : st.LargeCache cp) (hbp : bp ∈ (st.kmem.cache cp).buflist)
      : Live st st.kmem.bufctlCache bp

def chunkEnd (s : Kmem μ) (cp sp : Nat) : Nat :=
  if (s.cache cp).chunksize ≤ kmemSmallMax then sp
  else s.chunkBase sp + (s.cache cp).slabsize * pageSize

def InSlab (s : Kmem μ) (cp sp x : Nat) : Prop :=
  s.chunkBase sp ≤ x ∧ x + (s.cache cp).chunksize ≤ chunkEnd s cp sp

structure Counted (st : KmemState μ) (cp sp : Nat) (objs : List Nat) : Prop where
  nodup : objs.Nodup
  mem : ∀ x, x ∈ objs ↔ st.Live cp x ∧ InSlab st.kmem cp sp x
  refcnt : (st.kmem.slab sp).refcnt = objs.length
  freeNodup : ((st.kmem.slab sp).freelist.map (st.kmem.obj cp)).Nodup
  freeLength : (st.kmem.slab sp).freelist.length =
    (st.kmem.cache cp).slabcap - (st.kmem.slab sp).refcnt
  freeChunks : ∀ y ∈ (st.kmem.slab sp).freelist,
    InSlab st.kmem cp sp (st.kmem.obj cp y) ∧ ¬ st.Live cp (st.kmem.obj cp y)

structure Consistent (cfg : Config) (env : KmemEnv) (st : KmemState μ) : Prop where
  apart : ∀ cp x cp' x', st.Live cp x → st.Live cp' x' → (cp, x) ≠ (cp', x') →
    Apart x (st.kmem.cache cp).chunksize x' (st.kmem.cache cp').chunksize
  home : ∀ cp x, st.Live cp x → ∃ sp ∈ st.kmem.slabs cp, InSlab st.kmem cp sp x
  headers : ∀ cp x, st.Live cp x → ∀ cp' ∈ st.created,
    (st.kmem.cache cp').chunksize ≤ kmemSmallMax → ∀ sp ∈ st.kmem.slabs cp',
      Apart x (st.kmem.cache cp).chunksize sp sizeofSlab
  counted : ∀ cp ∈ st.created, ∀ sp ∈ st.kmem.slabs cp, ∃ objs, st.Counted cp sp objs
  lists : ∀ cp ∈ st.created, (st.kmem.slabs cp).Nodup ∧ ∀ sp ∈ st.kmem.slabs cp,
    (sp ∈ (st.kmem.cache cp).fullSlablist ↔
      (st.kmem.slab sp).refcnt = (st.kmem.cache cp).slabcap) ∧
    (sp ∈ (st.kmem.cache cp).slablist ↔ (st.kmem.slab sp).refcnt ≠ (st.kmem.cache cp).slabcap)
  refcnt : ∀ cp ∈ st.created, ∀ sp ∈ (st.kmem.cache cp).slablist,
    (st.kmem.slab sp).refcnt < (st.kmem.cache cp).slabcap
  found : ∀ cp x, st.Live cp x → ∃ sp bp, findSlab cfg st.kmem cp x = .ok (sp, bp) ∧
    sp ∈ st.kmem.slabs cp ∧ InSlab st.kmem cp sp x
  alloc : ∀ cp ∈ st.created, ∀ f, kmemAlloc cfg env st.kmem cp = .error f →
    f = .noMemory ∨ ∃ c obj mem, (st.kmem.cache cp).constructor = some c ∧ (c obj mem).1 ≠ 0
  free : ∀ cp x, (cp, x) ∈ st.live → ∃ s', kmemCacheFree cfg st.kmem cp x = .ok s'

section

variable {cfg : Config} {env : KmemEnv} {st st' : KmemState μ} {used : Nat → List Nat} {cp sp x : Nat}
  {s : Kmem μ}

theorem live_iff (h : Kmem.Inv st.kmem st.created used st.live)
    : st.Live cp x ↔ cp ∈ st.created ∧ Kmem.Allocated st.kmem used cp x := by
  constructor
  . intro hlive
    have hmeta := h.core.metaCaches
    cases hlive with
    | client hx => exact ⟨h.heldCreated cp x hx, h.allocated hx⟩
    | header hcp hsp =>
      refine ⟨hmeta.slabCache, (h.own _ hmeta.slabCache _).mpr (.inr (.inl ?_))⟩
      exact ⟨rfl, _, hcp.1, hcp.2, hsp⟩
    | freeBufctl hcp hsp hbp =>
      refine ⟨hmeta.bufctlCache, (h.own _ hmeta.bufctlCache _).mpr (.inr (.inr ?_))⟩
      exact ⟨rfl, _, ⟨_, hcp.1, hcp.2, hsp⟩, List.mem_append_left _ hbp⟩
    | usedBufctl hcp hbp =>
      rw [(h.core.cache _ hcp.1).buflist hcp.2] at hbp
      rcases hbp with ⟨sp, hsp, hbp⟩
      refine ⟨hmeta.bufctlCache, (h.own _ hmeta.bufctlCache _).mpr (.inr (.inr ?_))⟩
      exact ⟨rfl, _, ⟨_, hcp.1, hcp.2, hsp⟩, List.mem_append_right _ hbp⟩
  . rintro ⟨hcp, hall⟩
    rcases (h.own cp hcp x).mp hall with hx | ⟨rfl, cp', hcp', hlarge, hsp⟩ |
      ⟨rfl, sp, ⟨cp', hcp', hlarge, hsp⟩, hx⟩
    . exact .client hx
    . exact .header ⟨hcp', hlarge⟩ hsp
    . rcases List.mem_append.mp hx with hx | hx
      . exact .freeBufctl ⟨hcp', hlarge⟩ hsp hx
      . refine .usedBufctl ⟨hcp', hlarge⟩ ?_
        rw [(h.core.cache cp' hcp').buflist hlarge]
        exact ⟨sp, hsp, hx⟩

section

variable (h : Kmem.Core st.kmem st.created used) (hcp : cp ∈ st.created) (hsp : sp ∈ st.kmem.slabs cp)

include h hcp hsp

theorem inSlab (hx : x ∈ (st.kmem.slab sp).freelist ++ used sp)
    : InSlab st.kmem cp sp (st.kmem.obj cp x) := by
  unfold InSlab chunkEnd
  by_cases hsmall : (st.kmem.cache cp).chunksize ≤ kmemSmallMax
  . have hin := h.inside_small hcp hsp hsmall hx
    have hobj : st.kmem.obj cp x = x := by
      unfold Kmem.obj
      rw [if_pos hsmall]
    rw [if_pos hsmall, hobj]
    exact ⟨hin.1, hin.2.1⟩
  . rw [if_neg hsmall]
    exact h.inside hcp hsp hx

theorem inSlab_unique {sp' : Nat} (hsp' : sp' ∈ st.kmem.slabs cp) (hx : InSlab st.kmem cp sp x)
    (hx' : InSlab st.kmem cp sp' x)
    : sp = sp' := by
  by_contra hne
  have hcache := h.cache cp hcp
  have hpos : 0 < (st.kmem.cache cp).chunksize :=
    Nat.lt_of_lt_of_le (by decide) hcache.geometry.chunksize
  have hend : ∀ sp ∈ st.kmem.slabs cp,
      chunkEnd st.kmem cp sp ≤ st.kmem.chunkBase sp + (st.kmem.cache cp).slabsize * pageSize := by
    intro sp hsp
    unfold chunkEnd
    split
    . next hsmall =>
      have hslab := h.slabOk hcp hsp
      have hbase := Kmem.chunkBase_small (hslab.small hsmall).1
      have hle := (hslab.small hsmall).2
      rw [(hcache.geometry.small hsmall).1, hbase]
      omega
    . exact Nat.le_refl _
  have hapart := (h.slabs_apart hcp hsp hcp hsp' hne).mono hx.1 (Nat.le_trans hx.2 (hend sp hsp))
    hx'.1 (Nat.le_trans hx'.2 (hend sp' hsp'))
  exact hapart.ne hpos hpos rfl

end

section

variable (h : Kmem.Inv st.kmem st.created used st.live) (hcp : cp ∈ st.created)
  (hsp : sp ∈ st.kmem.slabs cp)

include h hcp hsp

theorem counted_of_inv : st.Counted cp sp ((used sp).map (st.kmem.obj cp)) := by
  have hslab := h.core.slabOk hcp hsp
  have hgeom := (h.core.cache cp hcp).geometry
  have hnodup := hslab.nodup_objs hgeom
  rw [List.map_append, List.nodup_append] at hnodup
  have hlength := hslab.length
  constructor
  . exact hnodup.2.1
  . intro x
    rw [live_iff h]
    constructor
    . intro hx
      rcases List.mem_map.mp hx with ⟨y, hy, rfl⟩
      exact ⟨⟨hcp, sp, hsp, y, hy, rfl⟩, inSlab h.core hcp hsp (List.mem_append_right _ hy)⟩
    . rintro ⟨⟨_, sp', hsp', y, hy, rfl⟩, hin⟩
      have hin' := inSlab h.core hcp hsp' (List.mem_append_right _ hy)
      have heq := inSlab_unique h.core hcp hsp hsp' hin hin'
      subst heq
      exact List.mem_map_of_mem hy
  . rw [List.length_map]
    exact hslab.refcnt
  . exact hnodup.1
  . rw [hslab.refcnt]
    omega
  . intro y hy
    refine ⟨inSlab h.core hcp hsp (List.mem_append_left _ hy), ?_⟩
    rw [live_iff h]
    exact fun hlive => h.core.free_not_allocated hcp hsp hy hlive.2

theorem lists_of_inv
    : (sp ∈ (st.kmem.cache cp).fullSlablist ↔
          (st.kmem.slab sp).refcnt = (st.kmem.cache cp).slabcap) ∧
        (sp ∈ (st.kmem.cache cp).slablist ↔
          (st.kmem.slab sp).refcnt ≠ (st.kmem.cache cp).slabcap) := by
  have hcache := h.core.cache cp hcp
  have hrefcnt := (hcache.slab sp hsp).refcnt
  have hfull : sp ∈ (st.kmem.cache cp).fullSlablist →
      (st.kmem.slab sp).refcnt = (st.kmem.cache cp).slabcap := by
    intro hmem
    rw [hrefcnt, hcache.full sp hmem]
  have hnotFull : sp ∈ (st.kmem.cache cp).slablist →
      (st.kmem.slab sp).refcnt ≠ (st.kmem.cache cp).slabcap := by
    intro hmem
    have := hcache.notFull sp hmem
    omega
  rcases List.mem_append.mp hsp with hmem | hmem
  . have := hnotFull hmem
    tauto
  . have := hfull hmem
    tauto

end

theorem consistent_of_inv (hf : Fresh env) (h : Kmem.Inv st.kmem st.created used st.live)
    : st.Consistent cfg env := by
  constructor
  . intro cp x cp' x' hlive hlive' hne
    rw [live_iff h] at hlive hlive'
    rcases hlive with ⟨hcp, sp, hsp, y, hy, rfl⟩
    rcases hlive' with ⟨hcp', sp', hsp', y', hy', rfl⟩
    apply h.core.objs_apart hcp hsp (List.mem_append_right _ hy) hcp' hsp'
      (List.mem_append_right _ hy')
    rintro rfl rfl
    rw [h.core.cache_unique hcp hsp hcp' hsp'] at hne
    exact hne rfl
  . intro cp x hlive
    rw [live_iff h] at hlive
    rcases hlive with ⟨hcp, sp, hsp, y, hy, rfl⟩
    exact ⟨sp, hsp, inSlab h.core hcp hsp (List.mem_append_right _ hy)⟩
  . intro cp x hlive cp' hcp' hsmall sp' hsp'
    rw [live_iff h] at hlive
    rcases hlive with ⟨hcp, sp, hsp, y, hy, rfl⟩
    exact h.core.header_apart hcp hsp (List.mem_append_right _ hy) hcp' hsp' hsmall
  . intro cp hcp sp hsp
    exact ⟨_, counted_of_inv h hcp hsp⟩
  . intro cp hcp
    exact ⟨(h.core.cache cp hcp).nodup, fun sp hsp => lists_of_inv h hcp hsp⟩
  . intro cp hcp sp hsp
    have hcache := h.core.cache cp hcp
    rw [(hcache.slab sp (List.mem_append_left _ hsp)).refcnt]
    exact hcache.notFull sp hsp
  . intro cp x hlive
    rw [live_iff h] at hlive
    rcases hlive with ⟨hcp, sp, hsp, y, hy, rfl⟩
    exact ⟨sp, y, Kmem.findSlab_spec cfg h hcp hsp hy, hsp,
      inSlab h.core hcp hsp (List.mem_append_right _ hy)⟩
  . intro cp hcp f herr
    have hcases := Kmem.kmemCacheAlloc_allocates cfg hf 0 h hcp
    unfold kmemAlloc at herr
    rw [herr] at hcases
    cases hcases with
    | noMemory => exact .inl rfl
    | rejected c obj mem hc hret => exact .inr ⟨c, obj, mem, hc, hret⟩
  . intro cp x hx
    rcases Kmem.kmemCacheFree_spec cfg h hx with ⟨s', _, hok, _⟩
    exact ⟨s', hok⟩

theorem argsOk_slab : ArgsOk sizeofSlab 0 :=
  ⟨by decide, by decide, .inl rfl, by decide, by decide⟩

theorem argsOk_largeBufctl : ArgsOk sizeofLargeBufctl 0 :=
  ⟨by decide, by decide, .inl rfl, by decide, by decide⟩

theorem inv_two (hranges : RangesOk s.ranges) (hne : s.slabCache ≠ s.bufctlCache)
    (h : ∀ cp ∈ [s.bufctlCache, s.slabCache], (s.cache cp).GeometryOk ∧
      ((s.cache cp).slablist = [] ∧ (s.cache cp).fullSlablist = [] ∧ (s.cache cp).buflist = []) ∧
      (cp, 1) ∈ s.ranges ∧ (s.cache cp).chunksize ≤ kmemSmallMax ∧ (s.cache cp).constructor = none)
    : Kmem.Inv s [s.bufctlCache, s.slabCache] (fun _ => []) ∅ := by
  have hslabs : ∀ cp ∈ [s.bufctlCache, s.slabCache], s.slabs cp = [] := by
    intro cp hcp
    unfold Kmem.slabs
    rw [(h cp hcp).2.1.1, (h cp hcp).2.1.2.1]
    rfl
  have hnone : ∀ cp ∈ [s.bufctlCache, s.slabCache], ∀ x,
      ¬ Kmem.Allocated s (fun _ => []) cp x := by
    rintro cp hcp x ⟨sp, hsp, _⟩
    rw [hslabs cp hcp] at hsp
    cases hsp
  have hmeta : ∀ cp x, ¬ Kmem.Meta s [s.bufctlCache, s.slabCache] (fun _ => []) cp x := by
    rintro cp x (⟨_, cp', hcp', _, hsp⟩ | ⟨_, sp, ⟨cp', hcp', _, hsp⟩, _⟩)
    . rw [hslabs cp' hcp'] at hsp
      cases hsp
    . rw [hslabs cp' hcp'] at hsp
      cases hsp
  constructor
  . constructor
    . exact hranges
    . exact fun cp hcp => .of_empty (h cp hcp).1 (h cp hcp).2.1
    . exact fun cp hcp => (h cp hcp).2.2.1
    . intro cp hcp sp hsp
      rw [hslabs cp hcp] at hsp
      cases hsp
    . intro cp hcp sp hsp
      rw [hslabs cp hcp] at hsp
      cases hsp
    . refine ⟨by simp, by simp, hne, ?_⟩
      intro cp hcp
      apply (h cp _).2.2.2
      simp only [List.mem_cons, List.not_mem_nil, or_false]
      exact hcp.symm
  . simp
  . intro cp hcp x
    simp [hnone cp hcp x, hmeta]
  . simp

theorem created_small {s' : Kmem μ} {bufsize : Nat} (size cap : Nat)
    (hc : Kmem.Created s s' cp bufsize 0 none) (hargs : ArgsOk bufsize 0)
    (hsize : Word.alignUp bufsize (cacheAlign bufsize 0) = size)
    (hgeom : cacheGeometry bufsize size = some (cap, 1)) (hcap : 0 < cap) (hsmall : size ≤ kmemSmallMax)
    : (s'.cache cp).GeometryOk ∧ (s'.cache cp).chunksize ≤ kmemSmallMax := by
  have hchunk := hc.chunksize
  have hgeom' := hc.geometry
  rw [hsize] at hchunk
  rw [hchunk, hgeom, Option.some.injEq, Prod.mk.injEq] at hgeom'
  rw [hchunk]
  exact ⟨hc.geometryOk hargs (by omega), hsmall⟩

theorem inv_init (hf : Fresh env) (h : KmemInit cfg env st)
    : ∃ used, Kmem.Inv st.kmem st.created used st.live := by
  rcases st with ⟨kmem, created, live⟩
  rcases h with ⟨s, hempty, hinit, hcreated, hlive⟩
  dsimp only at hinit hcreated hlive
  unfold kmemSlabInit at hinit
  rcases Except.bind_eq_ok hinit with ⟨⟨cp1, s1⟩, hok1, hinit⟩
  rcases Except.bind_eq_ok hinit with ⟨⟨cp2, s2⟩, hok2, hinit⟩
  cases hinit
  have hnil : RangesOk s.ranges := by
    rw [hempty]
    exact ⟨by simp, by simp, by simp⟩
  have hc1 := Kmem.kmemCacheCreate_created hf hnil argsOk_slab hok1
  have hranges1 : s1.ranges = (cp1, 1) :: s.ranges := by
    rw [hc1.eq]
    rfl
  have hc2 := Kmem.kmemCacheCreate_created hf (by simpa [hranges1] using hc1.ranges)
    argsOk_largeBufctl hok2
  have hranges2 : s2.ranges = (cp2, 1) :: s1.ranges := by
    rw [hc2.eq]
    rfl
  have hslabCache : s2.slabCache = cp1 := by
    rw [hc2.eq]
    rfl
  have hmem : (cp1, 1) ∈ s1.ranges := by
    rw [hranges1]
    exact List.mem_cons_self
  have hne : cp1 ≠ cp2 := ((hc2.apart _ hmem).ne (by simp [pageSize]) (by simp [pageSize])).symm
  have hcache1 : s2.cache cp1 = s1.cache cp1 := hc2.cache_of_ne hne
  rw [hcreated, hlive]
  refine ⟨_, inv_two ?_ ?_ ?_⟩
  . dsimp only
    rw [hranges2]
    exact hc2.ranges
  . dsimp only
    rw [hslabCache]
    exact hne
  . dsimp only
    rw [hslabCache]
    simp only [List.forall_mem_cons, List.not_mem_nil, false_implies, implies_true, and_true]
    rw [hcache1, hranges2]
    have hbufctl : (s2.cache cp2).GeometryOk ∧ (s2.cache cp2).chunksize ≤ kmemSmallMax :=
      created_small 32 126 hc2 argsOk_largeBufctl (by decide) (by decide)
        (by decide) (by decide)
    have hslab : (s1.cache cp1).GeometryOk ∧ (s1.cache cp1).chunksize ≤ kmemSmallMax :=
      created_small 48 84 hc1 argsOk_slab (by decide) (by decide) (by decide)
        (by decide)
    constructor
    . exact ⟨hbufctl.1, hc2.lists, List.mem_cons_self, hbufctl.2, hc2.constructor⟩
    . exact ⟨hslab.1, hc1.lists, List.mem_cons_of_mem _ hmem, hslab.2, hc1.constructor⟩

theorem inv_step (hf : Fresh env) {op : KmemOp μ} (h : Kmem.Inv st.kmem st.created used st.live)
    (hstep : KmemStep cfg env st op st')
    : ∃ used', Kmem.Inv st'.kmem st'.created used' st'.live := by
  cases op with
  | create bufsize align constructor destructor =>
    rcases hstep with ⟨hargs, cp, hok, hcap, hcreated, hlive⟩
    rw [hcreated, hlive]
    exact ⟨used, h.create (Kmem.kmemCacheCreate_created hf h.core.ranges hargs hok) hargs hcap⟩
  | alloc cp =>
    rcases hstep with ⟨hcp, obj, hok, hcreated, hlive⟩
    have hcases := Kmem.kmemCacheAlloc_allocates cfg hf 0 h hcp
    unfold kmemAlloc at hok
    rw [hok] at hcases
    rw [hcreated, hlive]
    cases hcases with
    | ok _ _ used' hinv _ _ => exact ⟨used', hinv⟩
  | free cp obj =>
    rcases hstep with ⟨hx, hok, hcreated, hlive⟩
    rcases Kmem.kmemCacheFree_spec cfg h hx with ⟨s', used', hok', hinv⟩
    rw [hok] at hok'
    cases hok'
    rw [hcreated, hlive]
    exact ⟨used', hinv⟩

theorem slab_safe (hf : Fresh env) (h : Reach (KmemInit cfg env) (KmemStep cfg env) st)
    : st.Consistent cfg env := by
  have hinv : ∃ used, Kmem.Inv st.kmem st.created used st.live := by
    induction h with
    | start h => exact inv_init hf h
    | next _ hstep ih =>
      rcases ih with ⟨used, hinv⟩
      exact inv_step hf hinv hstep
  rcases hinv with ⟨used, hinv⟩
  exact consistent_of_inv hf hinv

end
end KmemState

def bump : KmemEnv := fun ranges n =>
  let top := (ranges.map fun r => r.1 + r.2 * pageSize).foldr max 0
  let addr := (top / pageSize + 1) * pageSize
  if addr + n * pageSize < 2 ^ 64 then some addr else none

theorem le_foldr_max {l : List Nat} {x : Nat} (h : x ∈ l) : x ≤ l.foldr max 0 := by
  induction l with
  | nil => cases h
  | cons y l ih =>
    rw [List.foldr_cons]
    rcases List.mem_cons.mp h with rfl | h
    . exact Nat.le_max_left ..
    . exact Nat.le_trans (ih h) (Nat.le_max_right ..)

theorem fresh_bump : Fresh bump := by
  constructor
  . intro ranges n a ha
    unfold bump at ha
    dsimp only at ha
    split at ha
    . next hlt =>
      cases ha
      refine ⟨Nat.dvd_mul_left .., ?_, hlt⟩
      exact Nat.mul_pos (Nat.succ_pos _) (by decide)
    . cases ha
  . intro ranges n a ha r hr
    unfold bump at ha
    dsimp only at ha
    split at ha
    . cases ha
      have hle := le_foldr_max (List.mem_map_of_mem (f := fun r => r.1 + r.2 * pageSize) hr)
      have hdiv := Nat.lt_mul_div_succ
        ((ranges.map fun r => r.1 + r.2 * pageSize).foldr max 0) (b := pageSize) (by decide)
      right
      rw [Nat.mul_comm] at hdiv
      omega
    . cases ha

def blankKmem : Kmem Unit where
  mem := ()
  cache _ := ⟨0, 0, 0, 0, 0, none, none, [], 0, [], []⟩
  slab _ := ⟨[], 0, 0, 0⟩
  bufctl _ := ⟨0, 0⟩
  slabCache := 0
  bufctlCache := 0
  ranges := []

def oneObject : Except Fault (Kmem Unit × (Nat × Kmem Unit) × (Nat × Kmem Unit)) := do
  let s0 ← kmemSlabInit ⟨false⟩ bump blankKmem
  let (cp, s1) ← kmemCacheCreate ⟨false⟩ bump s0 512 0 none none
  let (obj, s2) ← kmemAlloc ⟨false⟩ bump s1 cp
  return (s0, (cp, s1), (obj, s2))

theorem oneObject_ok
    : oneObject.map (fun r => ((r.2.1.2.cache r.2.1.1).slabcap, (r.2.2.2.cache r.2.1.1).chunksize,
        (r.1.cache r.2.1.1).buflistFirst)) = .ok (16, 512, 0) := by
  decide +kernel

theorem argsOk_large : ArgsOk 512 0 :=
  ⟨by decide, by decide, .inl rfl, by decide, by decide⟩

theorem oneObject_run
    : ∃ s0 cp s1 obj s2, kmemSlabInit ⟨false⟩ bump blankKmem = .ok s0 ∧
        kmemCacheCreate ⟨false⟩ bump s0 512 0 none none = .ok (cp, s1) ∧
        1 ≤ (s1.cache cp).slabcap ∧ kmemAlloc ⟨false⟩ bump s1 cp = .ok (obj, s2) ∧
        (s2.cache cp).chunksize = 512 ∧ (s0.cache cp).buflistFirst = 0 := by
  rcases Except.map_eq_ok oneObject_ok with ⟨⟨s0, ⟨cp, s1⟩, ⟨obj, s2⟩⟩, hok, hcap⟩
  unfold oneObject at hok
  rcases Except.bind_eq_ok hok with ⟨t0, hinit, hok⟩
  rcases Except.bind_eq_ok hok with ⟨⟨c, t1⟩, hcreate, hok⟩
  rcases Except.bind_eq_ok hok with ⟨⟨o, t2⟩, halloc, hok⟩
  cases hok
  simp only [Prod.mk.injEq] at hcap
  exact ⟨s0, cp, s1, obj, s2, hinit, hcreate, by omega, halloc, hcap.2⟩

namespace KmemState

theorem slab_safe_oneObject
    : ∃ (st : KmemState Unit) (cp obj : Nat), (cp, obj) ∈ st.live ∧
        Reach (KmemInit ⟨false⟩ bump) (KmemStep ⟨false⟩ bump) st ∧ st.Consistent ⟨false⟩ bump := by
  rcases oneObject_run with ⟨s0, cp, s1, obj, s2, hinit, hcreate, hcap, halloc, _⟩
  have h0 : Reach (KmemInit ⟨false⟩ bump) (KmemStep ⟨false⟩ bump)
      (⟨s0, [s0.bufctlCache, s0.slabCache], ∅⟩ : KmemState Unit) :=
    .start ⟨blankKmem, rfl, hinit, rfl, rfl⟩
  have h1 : Reach (KmemInit ⟨false⟩ bump) (KmemStep ⟨false⟩ bump)
      (⟨s1, [cp, s0.bufctlCache, s0.slabCache], ∅⟩ : KmemState Unit) :=
    h0.next (e := .create 512 0 none none) ⟨argsOk_large, cp, hcreate, hcap, rfl, rfl⟩
  have h2 : Reach (KmemInit ⟨false⟩ bump) (KmemStep ⟨false⟩ bump)
      (⟨s2, [cp, s0.bufctlCache, s0.slabCache], {(cp, obj)}⟩ : KmemState Unit) :=
    h1.next (e := .alloc cp) ⟨List.mem_cons_self, obj, halloc, rfl, by simp⟩
  exact ⟨_, cp, obj, Set.mem_singleton (cp, obj), h2, slab_safe fresh_bump h2⟩

end KmemState
end Slab
end Nyy
