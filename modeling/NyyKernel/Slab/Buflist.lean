import NyyKernel.Slab.Lemmas.Fixed
import NyyKernel.Slab.Run

namespace Nyy
namespace Slab

variable {μ : Type} {cfg : Config} {env : KmemEnv} {s s' : Kmem μ} {cp sp obj : Nat}

theorem kmemCacheCreate_buflistEnd {bufsize align : Nat} {constructor : Option (Nat → μ → Int × μ)}
    {destructor : Option (Nat → μ → μ)}
    (hok : kmemCacheCreate cfg env s bufsize align constructor destructor = .ok (cp, s'))
    : (s'.cache cp).buflistEnd = (s.cache cp).buflistFirst := by
  unfold kmemCacheCreate at hok
  rcases Except.bind_eq_ok hok with ⟨_, _, hok⟩
  rcases Except.bind_eq_ok hok with ⟨_, _, hok⟩
  rcases Except.bind_eq_ok hok with ⟨⟨a, s1⟩, h1, hok⟩
  have hcache : s1.cache = s.cache := by
    unfold vmKalloc at h1
    split at h1
    . cases h1
      rfl
    . cases h1
  dsimp only at hok
  split at hok
  . cases hok
  . split at hok
    . cases hok
      simp [Kmem.setCache, hcache]
    . rcases Except.bind_eq_ok hok with ⟨_, _, hok⟩
      cases hok
      simp [Kmem.setCache, hcache]

structure BuflistState (μ : Type) where
  sys : KmemState μ
  head : Nat → Nat

namespace BuflistState

variable {st st' : BuflistState μ}

def Init (cfg : Config) (env : KmemEnv) (st : BuflistState μ) : Prop :=
  KmemInit cfg env st.sys ∧ ∀ cp ∈ st.sys.created, st.head cp = (st.sys.kmem.cache cp).buflistEnd

def Step (cfg : Config) (env : KmemEnv) (st : BuflistState μ) (op : KmemOp μ) (st' : BuflistState μ)
    : Prop :=
  KmemStep cfg env st.sys op st'.sys ∧
    match op with
    | .create .. => ∃ cp, st'.sys.created = cp :: st.sys.created ∧
        st'.head = Function.update st.head cp (st.sys.kmem.cache cp).buflistFirst
    | _ => st'.head = st.head

structure Exact (sys : KmemState μ) (cp : Nat) : Prop where
  ends : (sys.kmem.cache cp).buflistEnd = 0
  nodup : ((sys.kmem.cache cp).buflist.map fun x => (sys.kmem.bufctl x).base).Nodup
  mem : ∀ obj, obj ∈ (sys.kmem.cache cp).buflist.map (fun x => (sys.kmem.bufctl x).base) ↔
    (cp, obj) ∈ sys.live
  checked : ∀ obj, (cp, obj) ∉ sys.live →
    kmemCacheFree ⟨false⟩ sys.kmem cp obj = .error .assertion

structure Inv (st : BuflistState μ) : Prop where
  kmem : ∃ used, Kmem.Inv st.sys.kmem st.sys.created used st.sys.live
  head : ∀ cp ∈ st.sys.created, (st.sys.kmem.cache cp).buflistEnd = st.head cp

theorem Inv.init (hf : Fresh env) (h : Init cfg env st) : Inv st :=
  ⟨KmemState.inv_init hf h.1, fun cp hcp => (h.2 cp hcp).symm⟩

theorem Inv.step (hf : Fresh env) {op : KmemOp μ} (h : Inv st) (hstep : Step cfg env st op st')
    : Inv st' := by
  rcases h with ⟨⟨used, hinv⟩, hhead⟩
  refine ⟨KmemState.inv_step hf hinv hstep.1, ?_⟩
  rcases hstep with ⟨hstep, hnew⟩
  cases op with
  | create bufsize align constructor destructor =>
    rcases hstep with ⟨hargs, cp, hok, hcap, hcreated, hlive⟩
    rcases hnew with ⟨cp', hcreated', hhead'⟩
    rw [hcreated, List.cons.injEq] at hcreated'
    rcases hcreated' with ⟨rfl, _⟩
    have hc := Kmem.kmemCacheCreate_created hf hinv.core.ranges hargs hok
    intro cp2 hcp2
    rw [hhead']
    rcases eq_or_ne cp2 cp with rfl | hne
    . rw [Function.update_self]
      exact kmemCacheCreate_buflistEnd hok
    . rw [hcreated, List.mem_cons] at hcp2
      rw [Function.update_of_ne hne, hc.cache_of_ne hne]
      exact hhead cp2 (hcp2.resolve_left hne)
  | alloc cp =>
    rcases hstep with ⟨hcp, obj, hok, hcreated, hlive⟩
    intro cp2 hcp2
    rw [hcreated] at hcp2
    rw [hnew]
    exact (congrArg KmemCache.buflistEnd (kmemCacheAlloc_bare hok cp2)).trans (hhead cp2 hcp2)
  | free cp obj =>
    rcases hstep with ⟨hx, hok, hcreated, hlive⟩
    intro cp2 hcp2
    rw [hcreated] at hcp2
    rw [hnew]
    exact (congrArg KmemCache.buflistEnd (kmemCacheFree_bare hok cp2)).trans (hhead cp2 hcp2)

theorem exact_of_inv {sys : KmemState μ} {used : Nat → List Nat}
    (h : Kmem.Inv sys.kmem sys.created used sys.live) (hcp : cp ∈ sys.created)
    (hlarge : kmemSmallMax < (sys.kmem.cache cp).chunksize) (hend : (sys.kmem.cache cp).buflistEnd = 0)
    : Exact sys cp := by
  have hcache := h.core.cache cp hcp
  have hobj : ∀ x, sys.kmem.obj cp x = (sys.kmem.bufctl x).base := by
    intro x
    unfold Kmem.obj
    rw [if_neg (by omega)]
  have hlive : ∀ obj, (cp, obj) ∈ sys.live ↔ Kmem.Allocated sys.kmem used cp obj := by
    intro obj
    rw [h.own cp hcp obj]
    -- the headers and buffer controls of slabs are objects of small caches
    have hmeta : ¬ Kmem.Meta sys.kmem sys.created used cp obj := by
      rintro (⟨rfl, _⟩ | ⟨rfl, _⟩)
      . have := (h.core.metaCaches.small _ (.inl rfl)).1
        omega
      . have := (h.core.metaCaches.small _ (.inr rfl)).1
        omega
    tauto
  have hmem : ∀ obj, obj ∈ (sys.kmem.cache cp).buflist.map (fun x => (sys.kmem.bufctl x).base) ↔
      (cp, obj) ∈ sys.live := by
    intro obj
    rw [hlive, List.mem_map]
    constructor
    . rintro ⟨x, hx, rfl⟩
      rcases (hcache.buflist hlarge x).mp hx with ⟨sp, hsp, hused⟩
      exact ⟨sp, hsp, x, hused, hobj x⟩
    . rintro ⟨sp, hsp, x, hused, rfl⟩
      exact ⟨x, (hcache.buflist hlarge x).mpr ⟨sp, hsp, hused⟩, (hobj x).symm⟩
  refine ⟨hend, ?_, hmem, ?_⟩
  . apply List.Nodup.map_on _ hcache.buflistNodup
    intro x hx y hy heq
    rcases (hcache.buflist hlarge x).mp hx with ⟨sp, hsp, hx⟩
    rcases (hcache.buflist hlarge y).mp hy with ⟨sp', hsp', hy⟩
    -- two buffer controls in use stand for objects that do not meet
    by_contra hne
    have hpos : 0 < (sys.kmem.cache cp).chunksize := by omega
    have hapart := h.core.objs_apart hcp hsp (List.mem_append_right _ hx) hcp hsp'
      (List.mem_append_right _ hy) (fun _ => hne)
    rw [hobj, hobj] at hapart
    exact hapart.ne hpos hpos heq
  . intro obj hobj
    rcases Kmem.destruct_eq sys.kmem cp obj with ⟨mem, hsame⟩
    have hfind : (sys.kmem.cache cp).buflist.find? (fun x => (sys.kmem.bufctl x).base == obj) = none := by
      rw [List.find?_eq_none]
      intro x hx heq
      apply hobj
      rw [← hmem, List.mem_map]
      exact ⟨x, hx, by simpa using heq⟩
    unfold kmemCacheFree findSlab
    rw [hsame]
    dsimp only
    rw [if_neg (by omega), hfind]
    dsimp only
    rw [if_pos hend]
    rfl

end BuflistState

theorem buflist_exact_iff (hf : Fresh env) {st : BuflistState μ}
    (hr : Reach (BuflistState.Init cfg env) (BuflistState.Step cfg env) st) (hcp : cp ∈ st.sys.created)
    (hlarge : kmemSmallMax < (st.sys.kmem.cache cp).chunksize)
    : BuflistState.Exact st.sys cp ↔ st.head cp = 0 := by
  have h : BuflistState.Inv st := by
    refine hr.invariant ?_ ?_
    . intro s
      exact BuflistState.Inv.init hf
    . intro s op s'
      exact BuflistState.Inv.step hf
  rcases h with ⟨⟨used, hinv⟩, hhead⟩
  rw [← hhead cp hcp]
  constructor
  . exact fun hexact => hexact.ends
  . exact BuflistState.exact_of_inv hinv hcp hlarge

theorem buflist_exact_iff_zeroed
    : ∃ (st : BuflistState Unit) (cp obj : Nat),
        Reach (BuflistState.Init ⟨false⟩ bump) (BuflistState.Step ⟨false⟩ bump) st ∧
          cp ∈ st.sys.created ∧ kmemSmallMax < (st.sys.kmem.cache cp).chunksize ∧
          (cp, obj) ∈ st.sys.live ∧ BuflistState.Exact st.sys cp := by
  rcases oneObject_run with ⟨s0, cp, s1, obj, s2, hinit, hcreate, hcap, halloc, hsize, hfirst⟩
  let head : Nat → Nat := fun cp => (s0.cache cp).buflistEnd
  let head' : Nat → Nat := Function.update head cp (s0.cache cp).buflistFirst
  have h0 : Reach (BuflistState.Init ⟨false⟩ bump) (BuflistState.Step ⟨false⟩ bump)
      (⟨⟨s0, [s0.bufctlCache, s0.slabCache], ∅⟩, head⟩ : BuflistState Unit) :=
    .start ⟨⟨blankKmem, rfl, hinit, rfl, rfl⟩, fun _ _ => rfl⟩
  have h1 : Reach (BuflistState.Init ⟨false⟩ bump) (BuflistState.Step ⟨false⟩ bump)
      (⟨⟨s1, [cp, s0.bufctlCache, s0.slabCache], ∅⟩, head'⟩ : BuflistState Unit) :=
    h0.next (e := .create 512 0 none none)
      ⟨⟨argsOk_large, cp, hcreate, hcap, rfl, rfl⟩, cp, rfl, rfl⟩
  have h2 : Reach (BuflistState.Init ⟨false⟩ bump) (BuflistState.Step ⟨false⟩ bump)
      (⟨⟨s2, [cp, s0.bufctlCache, s0.slabCache], {(cp, obj)}⟩, head'⟩ : BuflistState Unit) :=
    h1.next (e := .alloc cp) ⟨⟨List.mem_cons_self, obj, halloc, rfl, by simp⟩, rfl⟩
  have hlarge : kmemSmallMax < (s2.cache cp).chunksize := by
    rw [hsize]
    decide
  refine ⟨_, cp, obj, h2, List.mem_cons_self, hlarge, Set.mem_singleton _, ?_⟩
  rw [buflist_exact_iff fresh_bump h2 List.mem_cons_self hlarge]
  show Function.update head cp (s0.cache cp).buflistFirst cp = 0
  rw [Function.update_self]
  exact hfirst

def bufCache (w : Nat) : Except Fault (Kmem Unit × Nat × Kmem Unit) := do
  let blank := { blankKmem with cache := fun _ => ⟨w, w, w, w, w, none, none, [], w, [], []⟩ }
  let s0 ← kmemSlabInit ⟨false⟩ bump blank
  let (cp, s1) ← kmemCacheCreate ⟨false⟩ bump s0 512 0 none none
  return (s0, cp, s1)

theorem buflist_stale
    : (bufCache 8).map (fun r => ((r.2.2.cache r.2.1).buflist, (r.2.2.cache r.2.1).buflistEnd)) =
          .ok ([], 8) ∧
        ((bufCache 8).map fun r => (kmemCacheFree ⟨false⟩ r.2.2 r.2.1 4096).map fun _ => ()) =
          .ok (.error .undefined) := by
  constructor
  . decide
  . decide

end Slab
end Nyy
