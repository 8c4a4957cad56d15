import NyyKernel.Lib.Builds
import NyyKernel.Slab.Impl

namespace Nyy
namespace Slab

variable {μ : Type} {cfg cfg' : Config} {s s₀ s₁ : Kmem μ}

def WritesNothing (constructor : Option (Nat → μ → Int × μ)) : Prop :=
  ∀ f, constructor = some f → ∀ obj mem, (f obj mem).2 = mem

def KmemCache.bare (c : KmemCache μ) : KmemCache μ :=
  { c with buflist := [], slablist := [], fullSlablist := [] }

structure Fixed (s₀ s : Kmem μ) : Prop where
  slabCache : s.slabCache = s₀.slabCache
  bufctlCache : s.bufctlCache = s₀.bufctlCache
  bare : ∀ cp, (s.cache cp).bare = (s₀.cache cp).bare

variable {cp obj sp bufctl : Nat} {c : KmemCache μ}

namespace Fixed

theorem refl (s : Kmem μ) : Fixed s s := ⟨rfl, rfl, fun _ => rfl⟩

theorem constructor (h : Fixed s₀ s) (cp : Nat)
    : (s.cache cp).constructor = (s₀.cache cp).constructor :=
  (congrArg KmemCache.constructor (h.bare cp) :)

theorem chunksize (h : Fixed s₀ s) (cp : Nat) : (s.cache cp).chunksize = (s₀.cache cp).chunksize :=
  (congrArg KmemCache.chunksize (h.bare cp) :)

theorem slabcap (h : Fixed s₀ s) (cp : Nat) : (s.cache cp).slabcap = (s₀.cache cp).slabcap :=
  (congrArg KmemCache.slabcap (h.bare cp) :)

theorem setCache (h : Fixed s₀ s) (hc : c.bare = (s₀.cache cp).bare) : Fixed s₀ (s.setCache cp c) := by
  refine ⟨h.slabCache, h.bufctlCache, ?_⟩
  intro cp'
  rcases eq_or_ne cp' cp with rfl | hne
  . simpa [Kmem.setCache] using hc
  . simpa [Kmem.setCache, hne] using h.bare cp'

theorem setSlab (h : Fixed s₀ s) (sp : Nat) (slab : KmemSlab) : Fixed s₀ (s.setSlab sp slab) :=
  ⟨h.slabCache, h.bufctlCache, h.bare⟩

end Fixed

-- The same build, where nothing is counted, or one without assertions that misses no constructor.
def Twin (tags : Meter μ) (s₀ : Kmem μ) (cp : Nat) (cfg cfg' : Config) : Prop :=
  (cfg' = cfg ∧ ∀ mem, tags.count mem = 0) ∨
    (cfg' = ⟨true⟩ ∧ ∀ cp' ∈ [cp, s₀.slabCache, s₀.bufctlCache],
      WritesNothing (s₀.cache cp').constructor)

def kmemMeter (tags : Meter μ) : Meter (Kmem μ) := ⟨fun s => tags.count s.mem, tags.free, tags.floor⟩

abbrev AllocFollows (tags : Meter μ) (s₀ s : Kmem μ) (cost : Nat) (x y : Except Fault (Nat × Kmem μ))
    : Prop :=
  FollowsAt (kmemMeter tags) Prod.snd (fun r => Fixed s₀ r.2) s cost x y

-- at most how often `kmem_cache_alloc` calls `vm_kalloc`
def pageCalls (s : Kmem μ) : Nat → Nat → Nat
  | 0, _ => 0
  | fuel + 1, cp =>
    if (s.cache cp).chunksize ≤ kmemSmallMax then
      1
    else
      pageCalls s fuel s.slabCache + (1 + (s.cache cp).slabcap * pageCalls s fuel s.bufctlCache)

section Alloc

variable {tags : Meter μ} {kalloc kalloc' : PageAlloc μ} {cost : Nat}

theorem Twin.of_mem (ht : Twin tags s₀ cp cfg cfg') {cp' : Nat}
    (hcp : cp' ∈ [cp, s₀.slabCache, s₀.bufctlCache])
    : Twin tags s₀ cp' cfg cfg' := by
  refine ht.imp_right fun ⟨heq, hwrites⟩ => ⟨heq, ?_⟩
  intro cp'' hcp''
  rcases List.mem_cons.mp hcp'' with rfl | hcp''
  . exact hwrites _ hcp
  . exact hwrites _ (List.mem_cons_of_mem _ hcp'')

theorem Twin.check_bind {α : Type} {state : α → Kmem μ} {P : α → Prop} {cond : Bool}
    {x y : Unit → Except Fault α} (ht : Twin tags s₀ cp cfg cfg')
    (h : FollowsAt (kmemMeter tags) state P s cost (x ()) (y ()))
    : FollowsAt (kmemMeter tags) state P s cost (check cfg cond >>= x) (check cfg' cond >>= y) := by
  rcases ht with ⟨rfl, _⟩ | ⟨rfl, _⟩
  . exact FollowsAt.bind_follows (P := fun _ => True) (Follows.of_self fun _ _ => trivial) fun _ _ => h
  . exact FollowsAt.check_bind h

theorem smallSlabCreate_follows (hk : AllocFollows tags s₀ s cost (kalloc s 1) (kalloc' s 1))
    : AllocFollows tags s₀ s cost (smallSlabCreate kalloc s cp) (smallSlabCreate kalloc' s cp) := by
  unfold smallSlabCreate
  refine FollowsAt.bind hk ?_ (Nat.add_zero _).le
  rintro ⟨pg, s1⟩ h1
  exact FollowsAt.pure (h1.setSlab ..) (Meter.le_add ..)

section Large

variable {alloc alloc' : CacheAlloc μ} {c : Nat → Nat}

theorem largeSlabFill_follows
    (halloc : ∀ s, Fixed s₀ s → AllocFollows tags s₀ s (c s₀.bufctlCache) (alloc s s₀.bufctlCache)
      (alloc' s s₀.bufctlCache)) {sp base : Nat} (is : List Nat) (h : Fixed s₀ s)
    : FollowsAt (kmemMeter tags) id (Fixed s₀) s (is.length * c s₀.bufctlCache)
        (largeSlabFill alloc cp sp base is s) (largeSlabFill alloc' cp sp base is s) := by
  induction is generalizing s with
  | nil => exact FollowsAt.pure h (Meter.le_add ..)
  | cons i is ih =>
    unfold largeSlabFill
    rw [h.bufctlCache]
    refine FollowsAt.bind (halloc s h) ?_ (by rw [List.length_cons, Nat.succ_mul, Nat.add_comm])
    rintro ⟨bp, s1⟩ h1
    exact ih ⟨h1.slabCache, h1.bufctlCache, h1.bare⟩

theorem largeSlabCreate_follows (ht : Twin tags s₀ cp cfg cfg')
    (hk : ∀ s n, Fixed s₀ s → AllocFollows tags s₀ s cost (kalloc s n) (kalloc' s n))
    (halloc : ∀ s cp', cp' ∈ [s₀.slabCache, s₀.bufctlCache] → Fixed s₀ s →
      AllocFollows tags s₀ s (c cp') (alloc s cp') (alloc' s cp')) (h : Fixed s₀ s)
    : AllocFollows tags s₀ s
        (c s₀.slabCache + (cost + (s₀.cache cp).slabcap * c s₀.bufctlCache))
        (largeSlabCreate cfg kalloc alloc s cp) (largeSlabCreate cfg' kalloc' alloc' s cp) := by
  unfold largeSlabCreate
  rw [h.slabCache]
  refine FollowsAt.bind (halloc s _ List.mem_cons_self h) ?_ (Nat.le_refl _)
  rintro ⟨sp, s1⟩ h1
  refine ht.check_bind (FollowsAt.bind (hk _ _ (h1.setSlab sp _)) ?_ (Nat.le_refl _))
  rintro ⟨base, s2⟩ h2
  have hbufctl := fun s => halloc s _ (List.mem_cons_of_mem _ List.mem_cons_self)
  refine FollowsAt.bind (largeSlabFill_follows hbufctl _ (h2.setSlab sp _)) ?_ (l := 0) ?_
  . intro s3 h3
    exact FollowsAt.pure h3 (Meter.le_add ..)
  . rw [List.length_range, (h2.setSlab sp _).slabcap]
    exact Nat.le_refl _

end Large

theorem slabAllocLists_bare (c : KmemCache μ) (sp refcnt : Nat)
    : (slabAllocLists c sp refcnt).bare = c.bare := by
  unfold slabAllocLists
  split <;> rfl

theorem slabAlloc_follows (h : Fixed s₀ s)
    : AllocFollows tags s₀ s 0 (slabAlloc s sp) (slabAlloc s sp) := by
  unfold slabAlloc
  dsimp only
  cases (s.slab sp).freelist with
  | nil => exact FollowsAt.error
  | cons bufctl freelist =>
    have hcache : ∀ refcnt, (slabAllocLists (s.cache (s.slab sp).parentCache) sp refcnt).bare =
        (s₀.cache (s.slab sp).parentCache).bare := by
      intro refcnt
      rw [slabAllocLists_bare]
      exact h.bare _
    dsimp only
    split
    . exact FollowsAt.pure ((h.setSlab ..).setCache (hcache _)) (Meter.le_add ..)
    . exact FollowsAt.pure ((h.setSlab ..).setCache (hcache _)) (Meter.le_add ..)

theorem construct_follows (ht : Twin tags s₀ cp cfg cfg') (h : Fixed s₀ s)
    : FollowsAt (kmemMeter tags) id (Fixed s₀) s 0 (construct cfg s cp obj) (construct cfg' s cp obj) := by
  unfold construct
  cases hc : (s.cache cp).constructor with
  | none => exact FollowsAt.pure h (Meter.le_add ..)
  | some f =>
    dsimp only
    rcases ht with ⟨rfl, hzero⟩ | ⟨rfl, hwrites⟩
    . split
      . exact FollowsAt.pure h (Meter.le_add ..)
      . refine FollowsAt.of_follows (Follows.of_self fun s' hs' => ?_) ?_
        . rcases Except.bind_eq_ok hs' with ⟨_, _, hs'⟩
          cases hs'
          exact ⟨h.slabCache, h.bufctlCache, h.bare⟩
        . intro s' _
          simp [kmemMeter, hzero]
    . split
      . exact FollowsAt.pure h (Meter.le_add ..)
      . intro s' hs'
        rcases Except.bind_eq_ok hs' with ⟨_, _, hs'⟩
        cases hs'
        rw [hwrites cp List.mem_cons_self f (h.constructor cp ▸ hc) obj s.mem]
        exact ⟨h, Meter.le_add .., fun _ => rfl⟩

theorem grow_follows {create create' : CacheAlloc μ}
    (hcreate : (s.cache cp).slablist = [] →
      AllocFollows tags s₀ s cost (create s cp) (create' s cp)) (h : Fixed s₀ s)
    : FollowsAt (kmemMeter tags) id (Fixed s₀) s cost (grow create s cp) (grow create' s cp) := by
  unfold grow
  split
  . next hempty =>
    refine FollowsAt.bind (hcreate (List.isEmpty_iff.mp hempty)) ?_ (Nat.add_zero _).le
    rintro ⟨slab, s1⟩ h1
    exact FollowsAt.pure (h1.setCache (h1.bare cp)) (Meter.le_add ..)
  . exact FollowsAt.pure h (Meter.le_add ..)

theorem allocFirst_follows (ht : Twin tags s₀ cp cfg cfg') (h : Fixed s₀ s)
    : AllocFollows tags s₀ s 0 (allocFirst cfg s cp) (allocFirst cfg' s cp) := by
  unfold allocFirst
  cases (s.cache cp).slablist with
  | nil => exact FollowsAt.error
  | cons sp _ =>
    refine ht.check_bind (FollowsAt.bind (slabAlloc_follows h) ?_ (Nat.add_zero _).le)
    rintro ⟨obj, s1⟩ h1
    refine FollowsAt.bind (construct_follows ht h1) ?_ (Nat.add_zero _).le
    intro s2 h2
    exact FollowsAt.pure h2 (Meter.le_add ..)

theorem kmemCacheAlloc_twin {fuel : Nat} (ht : Twin tags s₀ cp cfg cfg')
    (hk : ∀ s n, Fixed s₀ s → AllocFollows tags s₀ s cost (kalloc s n) (kalloc' s n)) (h : Fixed s₀ s)
    : AllocFollows tags s₀ s (pageCalls s₀ fuel cp * cost) (kmemCacheAlloc cfg kalloc fuel s cp)
        (kmemCacheAlloc cfg' kalloc' fuel s cp) := by
  induction fuel generalizing s cp with
  | zero => exact FollowsAt.error
  | succ fuel ih =>
    unfold kmemCacheAlloc pageCalls
    rw [h.chunksize]
    refine FollowsAt.bind (grow_follows (fun _ => ?_) h) ?_ (Nat.add_zero _).le
    . split
      . rw [Nat.one_mul]
        exact smallSlabCreate_follows (hk s 1 h)
      . rw [Nat.add_mul, Nat.add_mul, Nat.one_mul, Nat.mul_assoc]
        refine largeSlabCreate_follows (c := fun cp' => pageCalls s₀ fuel cp' * cost) ht hk ?_ h
        intro s cp' hcp' hs
        exact ih (ht.of_mem (List.mem_cons_of_mem _ hcp')) hs
    . intro s1 h1
      exact allocFirst_follows ht h1

end Alloc

theorem slabFreeLists_bare (c : KmemCache μ) (sp refcnt : Nat)
    : (slabFreeLists c sp refcnt).bare = c.bare := by
  unfold slabFreeLists
  split <;> rfl

theorem buflistRemove_bare {c' : KmemCache μ} {base : Nat} (h : buflistRemove c base bufctl = .ok c')
    : c'.bare = c.bare := by
  unfold buflistRemove at h
  split at h
  . cases h
    rfl
  . split at h <;> cases h
    rfl

section Calls

variable {env : KmemEnv} {s' : Kmem μ} {cp obj : Nat}

-- a build beside itself
theorem kmemCacheAlloc_bare {fuel : Nat} (hok : kmemCacheAlloc cfg env fuel s cp = .ok (obj, s'))
    (cp' : Nat)
    : (s'.cache cp').bare = (s.cache cp').bare := by
  have hk : ∀ s₁ n, Fixed s s₁ → AllocFollows .off s s₁ 0
      (vmKalloc env s₁ n) (vmKalloc env s₁ n) := by
    intro s₁ n h
    unfold vmKalloc
    cases env s₁.ranges n with
    | none => exact FollowsAt.error
    | some addr => exact FollowsAt.pure ⟨h.slabCache, h.bufctlCache, h.bare⟩ (Meter.le_add ..)
  exact (kmemCacheAlloc_twin (.inl ⟨rfl, fun _ => rfl⟩) hk (Fixed.refl s) _ hok).1.bare cp'

theorem kmemCacheFree_bare (hok : kmemCacheFree cfg s cp obj = .ok s') (cp' : Nat)
    : (s'.cache cp').bare = (s.cache cp').bare := by
  have hs : Fixed s (destruct s cp obj) := by
    unfold destruct
    split <;> exact ⟨rfl, rfl, fun _ => rfl⟩
  rcases Except.bind_eq_ok hok with ⟨⟨sp, bp⟩, _, hok⟩
  unfold slabFree at hok
  rcases Except.bind_eq_ok hok with ⟨_, _, hok⟩
  rcases Except.bind_eq_ok hok with ⟨_, _, hok⟩
  rcases Except.bind_eq_ok hok with ⟨c, hc, hok⟩
  cases hok
  refine ((hs.setCache ?_).setSlab _ _).bare cp'
  rw [buflistRemove_bare hc, slabFreeLists_bare]
  exact hs.bare _

end Calls

end Slab
end Nyy
