import NyyKernel.Slab.Run

namespace Nyy
namespace Slab

variable {μ : Type} {env : KmemEnv} {s s' : Kmem μ} {cp bufsize align chunksize slabcap slabsize : Nat}
  {constructor : Option (Nat → μ → Int × μ)} {destructor : Option (Nat → μ → μ)}

def KmemCache.object (c : KmemCache μ) (base i : Nat) : Nat :=
  Word.add base (Word.mul i c.chunksize)

structure KmemCache.Usable (c : KmemCache μ) (bufsize align : Nat) : Prop where
  slabcap : 1 ≤ c.slabcap
  chunksize : bufsize ≤ c.chunksize
  aligned : ∀ base i, pageSize ∣ base → base + c.slabsize * pageSize ≤ 2 ^ 64 → i < c.slabcap →
    align ≠ 0 → align ∣ c.object base i
  inside : ∀ base i, pageSize ∣ base → base + c.slabsize * pageSize ≤ 2 ^ 64 → i < c.slabcap →
    base ≤ c.object base i ∧ c.object base i + c.chunksize ≤ base + c.slabsize * pageSize
  below : ∀ base i, pageSize ∣ base → base + c.slabsize * pageSize ≤ 2 ^ 64 → i < c.slabcap →
    c.chunksize ≤ kmemSmallMax → c.object base i + c.chunksize ≤ base + pageSize - sizeofSlab

theorem kmemCacheCreate_geometry
    (h : kmemCacheCreate ⟨false⟩ env s bufsize align constructor destructor = .ok (cp, s'))
    : (s'.cache cp).chunksize = Word.alignUp bufsize (cacheAlign bufsize align) ∧
      (s'.cache cp).chunksize ≠ 0 ∧
      cacheGeometry bufsize (s'.cache cp).chunksize =
        some ((s'.cache cp).slabcap, (s'.cache cp).slabsize) := by
  unfold kmemCacheCreate at h
  rcases Except.bind_eq_ok h with ⟨_, _, h⟩
  rcases Except.bind_eq_ok h with ⟨_, _, h⟩
  rcases Except.bind_eq_ok h with ⟨⟨a, s1⟩, _, h⟩
  dsimp only at h
  split at h
  . cases h
  . next hne =>
    split at h
    . next slabcap slabsize hgeom =>
      cases h
      simp only [Kmem.setCache, Function.update_self]
      exact ⟨trivial, hne, hgeom⟩
    . cases h

theorem ArgsOk.align_dvd (h : ArgsOk bufsize align)
    : ∃ k, k < 64 ∧ Slab.cacheAlign bufsize align = 2 ^ k ∧ (align ≠ 0 → align ∣ 2 ^ k) ∧
        (align < pageSize → 2 ^ k ∣ pageSize / 2) ∧ (pageSize ≤ align → pageSize ≤ 2 ^ k) := by
  rcases h.cacheAlign with ⟨k, hk, heq, _⟩
  refine ⟨k, hk, heq, ?_, ?_, ?_⟩
  . intro hne
    have hp2 := h.alignP2.resolve_left hne
    unfold p2check at hp2
    rw [Word.sub_eq h.alignLt (by omega), beq_iff_eq] at hp2
    rcases Word.exists_two_pow hne hp2 with ⟨j, rfl⟩
    apply Nat.pow_dvd_pow
    apply (Nat.pow_le_pow_iff_right (show 1 < 2 by decide)).mp
    rw [← heq]
    unfold Slab.cacheAlign
    rw [if_neg hne]
    split
    . omega
    . exact Nat.le_refl _
  . intro hlt
    apply Nat.pow_dvd_pow 2 (n := 11)
    have hle : 2 ^ k < 2 ^ 12 := by
      rw [← heq]
      unfold Slab.cacheAlign
      split
      . split
        . decide
        . decide
      . split
        . decide
        . exact hlt
    exact Nat.le_of_lt_succ ((Nat.pow_lt_pow_iff_right (by decide)).mp hle)
  . intro hle
    have hpage : kmemAlign < pageSize := by decide
    rw [← heq]
    unfold Slab.cacheAlign
    rw [if_neg (by omega), if_neg (by omega)]
    exact hle

theorem alignUp_lt {a k : Nat} (ha : a < 2 ^ 64) (hk : k < 64)
    : Word.alignUp a (2 ^ k) < a + 2 ^ k ∧ 2 ^ k ∣ Word.alignUp a (2 ^ k) := by
  have hpos : 0 < 2 ^ k := Nat.two_pow_pos k
  by_cases hwrap : a + 2 ^ k ≤ 2 ^ 64
  . rw [Word.alignUp_two_pow hwrap hk]
    have := Nat.mul_div_le (a + (2 ^ k - 1)) (2 ^ k)
    exact ⟨by omega, Nat.dvd_mul_right _ _⟩
  . rw [Word.alignUp_wraps ha hk (by omega)]
    exact ⟨by omega, Nat.dvd_zero _⟩

theorem slabcap_pos (hne : chunksize ≠ 0)
    (hgeom : cacheGeometry bufsize chunksize = some (slabcap, slabsize))
    (halign : bufsize ≤ kmemSmallMax → chunksize ≤ pageSize - sizeofSlab)
    : 1 ≤ slabcap := by
  unfold cacheGeometry at hgeom
  split at hgeom
  . next hsmall =>
    simp only [Option.some.injEq, Prod.mk.injEq] at hgeom
    rw [← hgeom.1]
    exact Nat.div_pos (halign hsmall) (Nat.pos_of_ne_zero hne)
  . rcases Option.map_eq_some_iff.mp hgeom with ⟨pages, hfind, hpair⟩
    have hmin := List.find?_some hfind
    simp only [Prod.mk.injEq] at hpair
    rw [← hpair.1]
    have : 16 ≤ pages * pageSize / chunksize := by simpa using hmin
    omega

theorem slabcap_of_page (hsize : pageSize ≤ chunksize)
    (hgeom : cacheGeometry bufsize chunksize = some (slabcap, slabsize))
    : slabcap = 0 := by
  unfold cacheGeometry at hgeom
  split at hgeom
  . simp only [Option.some.injEq, Prod.mk.injEq] at hgeom
    rw [← hgeom.1]
    apply Nat.div_eq_of_lt
    have : pageSize - sizeofSlab < pageSize := by decide
    omega
  . rcases Option.map_eq_some_iff.mp hgeom with ⟨pages, hfind, _⟩
    have hmem := List.mem_of_find?_eq_some hfind
    have hmin := List.find?_some hfind
    rw [List.mem_range'_1] at hmem
    have hmin : 16 ≤ pages * pageSize / chunksize := by simpa using hmin
    have hle : pages * pageSize / chunksize ≤ pages * pageSize / pageSize :=
      Nat.div_le_div_left hsize (by decide)
    rw [Nat.mul_div_cancel _ (by decide)] at hle
    have hmax : kmemMaxpages = 8 := rfl
    omega

theorem KmemCache.GeometryOk.object_eq {c : KmemCache μ} (h : c.GeometryOk) {base i : Nat}
    (hend : base + c.slabsize * pageSize ≤ 2 ^ 64) (hi : i < c.slabcap)
    : c.object base i = base + i * c.chunksize ∧
        i * c.chunksize + c.chunksize ≤ c.slabcap * c.chunksize := by
  have hle : i * c.chunksize + c.chunksize ≤ c.slabcap * c.chunksize := by
    rw [← Nat.succ_mul]
    exact Nat.mul_le_mul_right _ hi
  have hfits := h.fits
  have hpos := h.chunksize
  have halign : kmemAlign = 8 := rfl
  refine ⟨?_, hle⟩
  unfold KmemCache.object
  rw [Word.mul_eq (by omega), Word.add_eq (by omega)]

theorem cache_usable_iff (hbufsize : bufsize < 2 ^ 64) (halign : align < 2 ^ 64)
    (h : kmemCacheCreate ⟨false⟩ env s bufsize align constructor destructor = .ok (cp, s'))
    : (s'.cache cp).Usable bufsize align ↔ align < pageSize := by
  have hargs := Kmem.argsOk_of_ok hbufsize halign h
  rcases kmemCacheCreate_geometry h with ⟨hsize, hne, hgeom⟩
  rcases hargs.align_dvd with ⟨k, hk, heq, hdvd, hsmall, hlarge⟩
  have hup := alignUp_lt hbufsize hk
  have hbounds := Word.alignUp_bounds hbufsize (Nat.pos_of_ne_zero hargs.bufsizeNe) hk
    (by rw [← heq, ← hsize]; exact hne)
  rw [← heq, ← hsize] at hup hbounds
  constructor
  . intro husable
    by_contra hge
    have hle := hlarge (by omega)
    have hpage : pageSize ≤ (s'.cache cp).chunksize := by omega
    have hcap := husable.slabcap
    rw [slabcap_of_page hpage hgeom] at hcap
    exact absurd hcap (by decide)
  . intro hlt
    have hhalf := Nat.le_of_dvd (by decide) (hsmall hlt)
    have hpow : 2 ^ k ∣ pageSize := (hsmall hlt).trans (by decide)
    have hcap : 1 ≤ (s'.cache cp).slabcap := by
      apply slabcap_pos hne hgeom
      intro hbuf
      have hroom : kmemSmallMax + pageSize / 2 ≤ pageSize - sizeofSlab := by decide
      omega
    have hok := hargs.geometryOk hsize hne hgeom hcap
    refine ⟨hcap, by omega, ?_, ?_, ?_⟩
    . intro base i hbase hend hi hzero
      rw [(hok.object_eq hend hi).1]
      apply Nat.dvd_add
      . exact ((hdvd hzero).trans hpow).trans hbase
      . exact ((hdvd hzero).trans (heq ▸ hup.2)).mul_left i
    . intro base i _ hend hi
      have hobj := hok.object_eq hend hi
      have := hok.fits
      omega
    . intro base i _ hend hi hchunk
      have hobj := hok.object_eq hend hi
      have := (hok.small hchunk).2
      omega

theorem cache_usable_iff_inflated
    : ∃ cp s', kmemCacheCreate ⟨false⟩ bump blankKmem 100 512 none none = .ok (cp, s') ∧
        (s'.cache cp).Usable 100 512 := by
  have hrun : (kmemCacheCreate ⟨false⟩ bump blankKmem 100 512 none none).map
      (fun r => (r.2.cache r.1).slabcap) = .ok 7 := by
    decide +kernel
  rcases Except.map_eq_ok hrun with ⟨⟨cp, s'⟩, hok, _⟩
  exact ⟨cp, s', hok, (cache_usable_iff (by decide) (by decide) hok).mpr (by decide)⟩

theorem page_aligned_cache_empty
    : ∃ cp s', kmemCacheCreate ⟨false⟩ bump blankKmem 8 4096 none none = .ok (cp, s') ∧
        (s'.cache cp).slabcap = 0 ∧ ¬ (s'.cache cp).Usable 8 4096 := by
  have hrun : (kmemCacheCreate ⟨false⟩ bump blankKmem 8 4096 none none).map
      (fun r => (r.2.cache r.1).slabcap) = .ok 0 := by
    decide +kernel
  rcases Except.map_eq_ok hrun with ⟨⟨cp, s'⟩, hok, hcap⟩
  refine ⟨cp, s', hok, hcap, ?_⟩
  intro husable
  have hempty : (s'.cache cp).slabcap = 0 := hcap
  have := husable.slabcap
  omega

end Slab
end Nyy
