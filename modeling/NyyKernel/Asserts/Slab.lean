import NyyKernel.Slab.Lemmas.Fixed

namespace Nyy
namespace Slab

variable {μ : Type} {cfg : Config} {m : Meter μ} {kalloc kalloc' : PageAlloc μ} {cost : Nat} {s : Kmem μ}
  {cp : Nat}

theorem kmemCacheAlloc_follows {fuel : Nat}
    (hk : ∀ s₁ n, Fixed s s₁ → AllocFollows m s s₁ cost (kalloc s₁ n) (kalloc' s₁ n))
    (hwrites : ∀ cp' ∈ [cp, s.slabCache, s.bufctlCache], WritesNothing (s.cache cp').constructor)
    (hstock : (s.cache cp).slablist ≠ [] ∨ m.free ∨
      m.floor + (pageCalls s fuel cp * cost : Nat) ≤ m.count s.mem)
    : Follows (fun _ => True) (kmemCacheAlloc cfg kalloc fuel s cp)
        (kmemCacheAlloc ⟨true⟩ kalloc' fuel s cp) := by
  have ht : ∀ m : Meter μ, Twin m s cp cfg ⟨true⟩ := fun _ => .inr ⟨rfl, hwrites⟩
  rcases hstock with hne | hstock
  . cases fuel with
    | zero => exact Follows.error
    | succ fuel =>
      -- no slab is added, so nothing is counted
      have hrun : AllocFollows .off s s 0 (kmemCacheAlloc cfg kalloc (fuel + 1) s cp)
          (kmemCacheAlloc ⟨true⟩ kalloc' (fuel + 1) s cp) := by
        unfold kmemCacheAlloc
        refine FollowsAt.bind (k := 0) (grow_follows (fun hempty => absurd hempty hne) (Fixed.refl s))
          ?_ (Nat.add_zero _).le
        intro s1 h1
        exact allocFirst_follows (ht _) h1
      exact (hrun.toFollows (.inl trivial)).mono fun _ _ => trivial
  . exact ((kmemCacheAlloc_twin (ht m) hk (Fixed.refl s)).toFollows hstock).mono fun _ _ => trivial

theorem findSlab_follows {obj : Nat}
    : Follows (fun _ => True) (findSlab cfg s cp obj) (findSlab ⟨true⟩ s cp obj) := by
  unfold findSlab
  dsimp only
  split
  . exact Follows.pure trivial
  . cases (s.cache cp).buflist.find? fun elm => (s.bufctl elm).base == obj with
    | some elm => exact Follows.pure trivial
    | none =>
      dsimp only
      split
      . exact Follows.check_bind Follows.error
      . exact Follows.error

theorem kmemCacheFree_follows {obj : Nat}
    : Follows (fun _ => True) (kmemCacheFree cfg s cp obj) (kmemCacheFree ⟨true⟩ s cp obj) := by
  unfold kmemCacheFree
  refine Follows.bind findSlab_follows ?_
  rintro ⟨sp, bp⟩ _
  unfold slabFree
  exact Follows.check_bind (Follows.check_bind (Follows.of_self fun _ _ => trivial))

theorem kmemCacheCreate_follows {bufsize align : Nat} {constructor : Option (Nat → μ → Int × μ)}
    {destructor : Option (Nat → μ → μ)} (hk : AllocFollows m s s cost (kalloc s 1) (kalloc' s 1))
    : FollowsAt (kmemMeter m) Prod.snd (fun _ => True) s cost
        (kmemCacheCreate cfg kalloc s bufsize align constructor destructor)
        (kmemCacheCreate ⟨true⟩ kalloc' s bufsize align constructor destructor) := by
  unfold kmemCacheCreate
  refine FollowsAt.check_bind (FollowsAt.check_bind (FollowsAt.bind hk ?_ (Nat.add_zero _).le))
  rintro ⟨cp, s1⟩ _
  dsimp only
  split
  . exact FollowsAt.error
  . split
    . exact FollowsAt.pure trivial (Meter.le_add ..)
    . exact FollowsAt.check_bind (FollowsAt.pure trivial (Meter.le_add ..))

theorem kmemSlabInit_follows (hk : ∀ s, AllocFollows m s s cost (kalloc s 1) (kalloc' s 1))
    : FollowsAt (kmemMeter m) id (fun _ => True) s (2 * cost) (kmemSlabInit cfg kalloc s)
        (kmemSlabInit ⟨true⟩ kalloc' s) := by
  unfold kmemSlabInit
  refine FollowsAt.bind (kmemCacheCreate_follows (hk s)) ?_ (Nat.two_mul _).ge
  rintro ⟨slabCache, s1⟩ _
  refine FollowsAt.bind (kmemCacheCreate_follows (hk { s1 with slabCache := slabCache })) ?_ (Nat.add_zero _).le
  rintro ⟨bufctlCache, s2⟩ _
  exact FollowsAt.pure trivial (Meter.le_add ..)

end Slab
end Nyy
