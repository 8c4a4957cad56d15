import NyyKernel.Slab.Destroy
import NyyKernel.Slab.Lemmas.Fixed

/-!
This module contains `kmalloc` and `kfree` of `kernel/vm/kmem.c`.
-/

namespace Nyy
namespace Kmalloc

open Slab (Kmem KmemCache KmemEnv KmemOp KmemState KmemStep kmemAlloc kmemCacheCreate kmemCacheFree pageSize)

def kmallocSizes : List Nat := [8, 16, 32, 64, 128, 160, 256, 512, 640, 768, 1024, 2048]

def kmallocMax : Nat := 2048

abbrev Bytes := Nat → UInt8

inductive Block where
  | object (cp ptr : Nat)
  | pages (ptr count : Nat)
  deriving DecidableEq

def Block.ptr : Block → Nat
  | .object _ ptr => ptr
  | .pages ptr _ => ptr

def Block.bytes (s : Kmem Bytes) : Block → Nat
  | .object cp _ => (s.cache cp).chunksize
  | .pages _ count => count * pageSize

def pageCount (count : Nat) : Nat := Word.mul count pageSize / pageSize

def vmKalloc (env : KmemEnv) (s : Kmem Bytes) (count : Nat) : Except Fault (Block × Kmem Bytes) :=
  if pageCount count = 0 then
    -- there is no freelist for this size
    .error .undefined
  else do
    let (ptr, s) ← Slab.vmKalloc env s (pageCount count)
    return (.pages ptr (pageCount count), s)

def vmKfree (s : Kmem Bytes) (addr count : Nat) : Except Fault (Kmem Bytes) :=
  Slab.vmKfree s addr (pageCount count)

def kmemInit (cfg : Config) (env : KmemEnv) (s : Kmem Bytes) : Except Fault (List Nat × Kmem Bytes) := do
  let s ← Slab.kmemSlabInit cfg env s
  kmallocSizes.foldlM (fun (caches, s) size => do
    let (cp, s) ← kmemCacheCreate cfg env s size 0 none none
    return (caches ++ [cp], s)) ([], s)

def cacheFor (caches : List Nat) (size : Nat) : Option (Nat × Nat) :=
  (kmallocSizes.zip caches).find? fun c => size ≤ c.1

def kmalloc (cfg : Config) (env : KmemEnv) (s : Kmem Bytes) (caches : List Nat) (size : Nat)
    : Except Fault (Block × Kmem Bytes) :=
  match cacheFor caches size with
  | some (_, cp) => do
    let (ptr, s) ← kmemAlloc cfg env s cp
    return (.object cp ptr, s)
  | none => vmKalloc env s (Word.alignUp size pageSize)

def kfree (cfg : Config) (s : Kmem Bytes) (caches : List Nat) (ptr size : Nat)
    : Except Fault (Kmem Bytes) :=
  if ptr = 0 then
    return s
  else
    match cacheFor caches size with
    | some (_, cp) => kmemCacheFree cfg s cp ptr
    | none => vmKfree s ptr (Word.alignUp size pageSize)

structure State where
  slab : KmemState Bytes
  caches : List Nat
  pages : List (Nat × Nat)

inductive Op where
  | call (op : KmemOp Bytes)
  | kmalloc (size : Nat)
  | kfree (block : Block) (size : Nat)
  | vmKalloc (count : Nat)
  | vmKfree (addr count : Nat)
  -- somebody writes to memory that is not the allocator's
  | write (mem : Bytes)

namespace State

abbrev kmem (st : State) : Kmem Bytes := st.slab.kmem

def Holds (st : State) : Block → Prop
  | .object cp ptr => (cp, ptr) ∈ st.slab.live
  | .pages ptr count => (ptr, count) ∈ st.pages

def add (st : State) (s : Kmem Bytes) : Block → State
  | .object cp ptr => { st with slab := ⟨s, st.slab.created, insert (cp, ptr) st.slab.live⟩ }
  | .pages ptr count =>
    { st with slab := ⟨s, st.slab.created, st.slab.live⟩, pages := (ptr, count) :: st.pages }

def remove (st : State) (s : Kmem Bytes) : Block → State
  | .object cp ptr => { st with slab := ⟨s, st.slab.created, st.slab.live \ {(cp, ptr)}⟩ }
  | .pages ptr count =>
    { st with slab := ⟨s, st.slab.created, st.slab.live⟩, pages := st.pages.erase (ptr, count) }

end State

def Block.IsFor (caches : List Nat) (size : Nat) : Block → Prop
  | .object cp _ => ∃ n, cacheFor caches size = some (n, cp)
  | .pages _ count => cacheFor caches size = none ∧ count = pageCount (Word.alignUp size pageSize)

def Init (cfg : Config) (env : KmemEnv) (st : State) : Prop :=
  ∃ s : Kmem Bytes, s.ranges = [] ∧ kmemInit cfg env s = .ok (st.caches, st.kmem) ∧
    st.slab.created = st.caches.reverse ++ [st.kmem.bufctlCache, st.kmem.slabCache] ∧
    st.slab.live = ∅ ∧ st.pages = []

def Step (cfg : Config) (env : KmemEnv) (st : State) : Op → State → Prop
  | .call op, st' => KmemStep cfg env st.slab op st'.slab ∧ st'.caches = st.caches ∧ st'.pages = st.pages
  | .kmalloc size, st' => ∃ b s, kmalloc cfg env st.kmem st.caches size = .ok (b, s) ∧ st' = st.add s b
  | .kfree b size, st' => st.Holds b ∧ b.IsFor st.caches size ∧ ∃ s,
      kfree cfg st.kmem st.caches b.ptr size = .ok s ∧ st' = st.remove s b
  | .vmKalloc count, st' => ∃ b s, vmKalloc env st.kmem count = .ok (b, s) ∧ st' = st.add s b
  | .vmKfree addr count, st' => (addr, pageCount count) ∈ st.pages ∧ ∃ s,
      vmKfree st.kmem addr count = .ok s ∧ st' = st.remove s (.pages addr (pageCount count))
  | .write mem, st' => st' = { st with slab := { st.slab with kmem := { st.kmem with mem := mem } } }

structure Class (slab : KmemState Bytes) (size cp : Nat) : Prop where
  created : cp ∈ slab.created
  size : size ≤ (slab.kmem.cache cp).chunksize
  constructor : (slab.kmem.cache cp).constructor = none

structure Inv (sizes : List Nat) (st : State) : Prop where
  slab : ∃ used, Kmem.Inv st.kmem st.slab.created used st.slab.live
  ledger : Kmem.Ledger st.kmem st.slab.created st.pages
  caches : List.Forall₂ (Class st.slab) sizes st.caches

section Invariant

variable {cfg : Config} {env : KmemEnv} {sizes : List Nat} {st st' : State} {s s' : Kmem Bytes}
  {size cp ptr a n count : Nat} {b : Block} {slab' : KmemState Bytes}

theorem Class.congr {slab : KmemState Bytes} (h : Class slab size cp)
    (hcreated : slab.created ⊆ slab'.created)
    (hbare : (slab'.kmem.cache cp).bare = (slab.kmem.cache cp).bare)
    : Class slab' size cp :=
  ⟨hcreated h.created, h.size.trans (congrArg KmemCache.chunksize hbare).ge,
    (congrArg KmemCache.constructor hbare).trans h.constructor⟩

theorem Class.call (hf : Slab.Fresh env) {slab : KmemState Bytes} {op : KmemOp Bytes}
    {used : Nat → List Nat} (hinv : Kmem.Inv slab.kmem slab.created used slab.live)
    (hstep : KmemStep cfg env slab op slab') (h : Class slab size cp)
    : Class slab' size cp := by
  cases op with
  | create bufsize align constructor destructor =>
    rcases hstep with ⟨hargs, cp', hok, _, hcreated, _⟩
    have hc := Kmem.kmemCacheCreate_created hf hinv.core.ranges hargs hok
    have hne : cp ≠ cp' := by
      rintro rfl
      exact Kmem.ne_of_apart hinv.core.ranges Nat.one_pos hc.apart (hinv.core.descr cp h.created) rfl
    refine h.congr ?_ ?_
    . rw [hcreated]
      exact List.subset_cons_self ..
    . rw [hc.cache_of_ne hne]
  | alloc cp' =>
    rcases hstep with ⟨hcp, obj, hok, hcreated, _⟩
    exact h.congr (by rw [hcreated]; exact List.Subset.refl _) (Slab.kmemCacheAlloc_bare hok cp)
  | free cp' obj =>
    rcases hstep with ⟨hx, hok, hcreated, _⟩
    exact h.congr (by rw [hcreated]; exact List.Subset.refl _) (Slab.kmemCacheFree_bare hok cp)

theorem Inv.call (hf : Slab.Fresh env) {slab : KmemState Bytes} (op : KmemOp Bytes) (h : Inv sizes st)
    (hstep : KmemStep cfg env st.slab op slab)
    : Inv sizes { st with slab := slab } := by
  rcases h.slab with ⟨used, hinv⟩
  refine ⟨KmemState.inv_step hf hinv hstep, KmemState.ledger_step hf hinv h.ledger hstep, ?_⟩
  exact h.caches.imp fun _ _ hclass => hclass.call hf hinv hstep

theorem Inv.vmKalloc (hf : Slab.Fresh env) (h : Inv sizes st)
    (hok : vmKalloc env st.kmem count = .ok (b, s))
    : Inv sizes (st.add s b) := by
  rcases h.slab with ⟨used, hinv⟩
  unfold Kmalloc.vmKalloc at hok
  split at hok
  . cases hok
  . next hne =>
    rcases Kmem.vmKalloc_cases hf hinv.core.ranges (Nat.pos_of_ne_zero hne)
      with herr | ⟨a, hok', hranges, hapart⟩
    . rw [herr] at hok
      cases hok
    . rw [hok', Except.ok_bind] at hok
      cases hok
      refine ⟨⟨used, hinv.kalloc hranges⟩, ?_, ?_⟩
      . exact h.ledger.kalloc hinv.core.ranges (Nat.pos_of_ne_zero hne) hapart
      . exact h.caches.imp fun _ _ hclass => ⟨hclass.created, hclass.size, hclass.constructor⟩

theorem vmKfree_of_mem (h : Inv sizes st) (ha : (a, pageCount count) ∈ st.pages)
    : vmKfree st.kmem a count = .ok (st.kmem.release a (pageCount count)) := by
  unfold vmKfree Slab.vmKfree
  rw [if_pos (h.ledger.perm.mem_iff.mpr (List.mem_append_right _ ha))]
  rfl

theorem Inv.release (h : Inv sizes st) (ha : (a, n) ∈ st.pages)
    : Inv sizes (st.remove (st.kmem.release a n) (.pages a n)) := by
  rcases h.slab with ⟨used, hinv⟩
  have hledger : Kmem.Ledger st.kmem st.slab.created ((a, n) :: st.pages.erase (a, n)) :=
    ⟨h.ledger.nodup, h.ledger.perm.trans ((List.perm_cons_erase ha).append_left _)⟩
  refine ⟨⟨used, hinv.release (h.ledger.unowned ha)⟩, hledger.release, ?_⟩
  exact h.caches.imp fun _ _ hclass => ⟨hclass.created, hclass.size, hclass.constructor⟩

theorem cacheFor_mem {c : Nat × Nat} (h : cacheFor st.caches size = some c)
    : c ∈ kmallocSizes.zip st.caches ∧ size ≤ c.1 := by
  unfold cacheFor at h
  exact ⟨List.mem_of_find?_eq_some h, by simpa using List.find?_some h⟩

theorem Inv.class (h : Inv kmallocSizes st) (hmem : (n, cp) ∈ kmallocSizes.zip st.caches)
    : Class st.slab n cp := by
  exact (List.forall₂_iff_zip.mp h.caches).2 hmem

theorem Inv.kmalloc (hf : Slab.Fresh env) (h : Inv kmallocSizes st)
    (hok : kmalloc cfg env st.kmem st.caches size = .ok (b, s))
    : Inv kmallocSizes (st.add s b) := by
  unfold Kmalloc.kmalloc at hok
  cases hfor : cacheFor st.caches size with
  | none =>
    rw [hfor] at hok
    exact h.vmKalloc hf hok
  | some c =>
    rcases c with ⟨n, cp⟩
    rw [hfor] at hok
    rcases Except.bind_eq_ok hok with ⟨⟨ptr, s1⟩, halloc, hok⟩
    cases hok
    have hcp := (h.class (cacheFor_mem hfor).1).created
    exact h.call hf (.alloc cp) ⟨hcp, ptr, halloc, rfl, rfl⟩

theorem Inv.kfree_object (cfg : Config) (h : Inv kmallocSizes st) (hlive : (cp, ptr) ∈ st.slab.live)
    (hfor : cacheFor st.caches size = some (n, cp))
    : kfree cfg st.kmem st.caches ptr size = kmemCacheFree cfg st.kmem cp ptr := by
  rcases h.slab with ⟨used, hinv⟩
  have hne : ptr ≠ 0 := hinv.allocated_pos (hinv.heldCreated cp ptr hlive) (hinv.allocated hlive)
  unfold kfree
  rw [if_neg hne, hfor]

theorem Inv.kfree_pages (cfg : Config) (h : Inv kmallocSizes st)
    (hpages : (ptr, pageCount (Word.alignUp size pageSize)) ∈ st.pages)
    (hfor : cacheFor st.caches size = none)
    : kfree cfg st.kmem st.caches ptr size =
        .ok (st.kmem.release ptr (pageCount (Word.alignUp size pageSize))) := by
  rcases h.slab with ⟨used, hinv⟩
  have haddr := hinv.core.ranges.addr _ (h.ledger.perm.mem_iff.mpr (List.mem_append_right _ hpages))
  unfold kfree
  rw [if_neg (Nat.ne_of_gt haddr.2.1), hfor]
  exact vmKfree_of_mem h hpages

theorem Inv.kfree (hf : Slab.Fresh env) (h : Inv kmallocSizes st) (hb : st.Holds b)
    (hfor : b.IsFor st.caches size) (hok : kfree cfg st.kmem st.caches b.ptr size = .ok s)
    : Inv kmallocSizes (st.remove s b) := by
  cases b with
  | object cp ptr =>
    rcases hfor with ⟨n, hfor⟩
    have heq := h.kfree_object cfg hb hfor
    unfold Block.ptr at hok
    rw [heq] at hok
    exact h.call hf (.free cp ptr) ⟨hb, hok, rfl, rfl⟩
  | pages ptr count =>
    rcases hfor with ⟨hfor, rfl⟩
    have heq := h.kfree_pages cfg hb hfor
    unfold Block.ptr at hok
    rw [heq] at hok
    cases hok
    exact h.release hb

theorem Inv.step (hf : Slab.Fresh env) {op : Op} (h : Inv kmallocSizes st) (hstep : Step cfg env st op st')
    : Inv kmallocSizes st' := by
  cases op with
  | call op =>
    rcases st' with ⟨slab, caches, pages⟩
    rcases hstep with ⟨hstep, rfl, rfl⟩
    exact h.call hf op hstep
  | kmalloc size =>
    rcases hstep with ⟨b, s, hok, rfl⟩
    exact h.kmalloc hf hok
  | kfree b size =>
    rcases hstep with ⟨hb, hfor, s, hok, rfl⟩
    exact h.kfree hf hb hfor hok
  | vmKalloc count =>
    rcases hstep with ⟨b, s, hok, rfl⟩
    exact h.vmKalloc hf hok
  | vmKfree addr count =>
    rcases hstep with ⟨hmem, s, hok, rfl⟩
    rw [vmKfree_of_mem h hmem] at hok
    cases hok
    exact h.release hmem
  | write mem =>
    rcases hstep with rfl
    rcases h.slab with ⟨used, hinv⟩
    refine ⟨⟨used, hinv.setMem mem⟩, h.ledger.setMem mem, ?_⟩
    exact h.caches.imp fun _ _ hclass => ⟨hclass.created, hclass.size, hclass.constructor⟩

theorem kmallocSizes_args : ∀ size ∈ kmallocSizes, Slab.ArgsOk size 0 := by
  have hbounds : ∀ size ∈ kmallocSizes, size < 2 ^ 64 ∧ size ≠ 0 ∧
      Slab.cacheGeometry size (Word.alignUp size (Slab.cacheAlign size 0)) ≠ none := by decide
  intro size hsize
  rcases hbounds size hsize with ⟨hlt, hne, hgeom⟩
  exact ⟨hlt, by decide, .inl rfl, hne, hgeom⟩

theorem kmallocSizes_geometry : ∀ size ∈ kmallocSizes,
    size ≤ Word.alignUp size (Slab.cacheAlign size 0) ∧
      ((Slab.cacheGeometry size (Word.alignUp size (Slab.cacheAlign size 0))).map Prod.fst).all
        (1 ≤ ·) = true := by
  decide

def during (caches : List Nat) (s : Kmem Bytes) : State :=
  ⟨⟨s, caches.reverse ++ [s.bufctlCache, s.slabCache], ∅⟩, caches, []⟩

theorem Inv.create (hf : Slab.Fresh env) {caches : List Nat} (h : Inv sizes (during caches s))
    (hsize : size ∈ kmallocSizes) (hok : kmemCacheCreate cfg env s size 0 none none = .ok (cp, s'))
    : Inv (sizes ++ [size]) (during (caches ++ [cp]) s') := by
  rcases h.slab with ⟨used, hinv⟩
  have hargs := kmallocSizes_args size hsize
  have hgeom := kmallocSizes_geometry size hsize
  have hc := Kmem.kmemCacheCreate_created hf hinv.core.ranges hargs hok
  have hchunk := hc.chunksize
  have hcap : 1 ≤ (s'.cache cp).slabcap := by
    have hsome := hc.geometry
    rw [hchunk] at hsome
    rw [hsome] at hgeom
    simpa using hgeom.2
  have hcreated : (during (caches ++ [cp]) s').slab.created = cp :: (during caches s).slab.created := by
    have hglobals : s'.bufctlCache = s.bufctlCache ∧ s'.slabCache = s.slabCache := by
      rw [hc.eq]
      exact ⟨rfl, rfl⟩
    unfold during
    simp [hglobals.1, hglobals.2]
  have hstep : KmemStep cfg env (during caches s).slab (.create size 0 none none)
      (during (caches ++ [cp]) s').slab := ⟨hargs, cp, hok, hcap, hcreated, rfl⟩
  have hnext := h.call hf _ hstep
  refine ⟨hnext.slab, hnext.ledger, List.rel_append hnext.caches ?_⟩
  refine .cons ⟨?_, ?_, hc.constructor⟩ .nil
  . rw [hcreated]
    exact List.mem_cons_self
  . change size ≤ (s'.cache cp).chunksize
    rw [hchunk]
    exact hgeom.1

theorem Inv.creates (hf : Slab.Fresh env) {rest caches caches' : List Nat} (h : Inv sizes (during caches s))
    (hrest : rest ⊆ kmallocSizes)
    (hok : rest.foldlM (fun (caches, s) size => do
      let (cp, s) ← kmemCacheCreate cfg env s size 0 none none
      return (caches ++ [cp], s)) (caches, s) = .ok (caches', s'))
    : Inv (sizes ++ rest) (during caches' s') := by
  induction rest generalizing sizes caches s with
  | nil =>
    cases hok
    rw [List.append_nil]
    exact h
  | cons size rest ih =>
    rw [List.foldlM_cons] at hok
    rcases Except.bind_eq_ok hok with ⟨⟨caches1, s1⟩, hcreate, hok⟩
    rcases Except.bind_eq_ok hcreate with ⟨⟨cp, s2⟩, hcreate, hpair⟩
    cases hpair
    have h1 := h.create hf (hrest List.mem_cons_self) hcreate
    have h2 := ih h1 (fun x hx => hrest (List.mem_cons_of_mem _ hx)) hok
    rwa [List.append_assoc] at h2

theorem Inv.init (hf : Slab.Fresh env) (h : Init cfg env st) : Inv kmallocSizes st := by
  rcases st with ⟨⟨kmem, created, live⟩, caches, pages⟩
  rcases h with ⟨s, hempty, hinit, hcreated, hlive, hpages⟩
  dsimp only [State.kmem] at hinit hcreated hlive hpages
  subst hcreated hlive hpages
  unfold kmemInit at hinit
  rcases Except.bind_eq_ok hinit with ⟨s0, hslab, hinit⟩
  have hkmem : Slab.KmemInit cfg env (during [] s0).slab := ⟨s, hempty, hslab, rfl, rfl⟩
  have h0 : Inv [] (during [] s0) :=
    ⟨KmemState.inv_init hf hkmem, KmemState.ledger_init hf hkmem, .nil⟩
  exact h0.creates hf (List.Subset.refl _) hinit

theorem Inv.reach (hf : Slab.Fresh env) (h : Reach (Init cfg env) (Slab.Served (Step cfg)) st)
    : Inv kmallocSizes st := by
  refine h.invariant (fun _ hinit => .init hf hinit) ?_
  rintro _ _ _ hinv ⟨env', hf', hstep⟩
  exact hinv.step hf' hstep

end Invariant

section Exact

variable {cfg : Config} {env : KmemEnv} {st : State} {size n cp : Nat}

def ClassServed (cfg : Config) (env : KmemEnv) (st : State) (size : Nat) : Prop :=
  ∃ n cp, (n, cp) ∈ kmallocSizes.zip st.caches ∧ size ≤ n ∧
    (∀ m ∈ kmallocSizes, size ≤ m → n ≤ m) ∧ n ≤ (st.kmem.cache cp).chunksize ∧
    (kmalloc cfg env st.kmem st.caches size = .error .noMemory ∨
      ∃ ptr s, kmalloc cfg env st.kmem st.caches size = .ok (.object cp ptr, s) ∧
        (cp, ptr) ∉ st.slab.live ∧
        KmemState.Consistent cfg env ⟨s, st.slab.created, insert (cp, ptr) st.slab.live⟩ ∧
        ∃ s', kfree cfg s st.caches ptr size = .ok s' ∧ kmemCacheFree cfg s cp ptr = .ok s' ∧
          KmemState.Consistent cfg env ⟨s', st.slab.created, st.slab.live⟩)

def PagesServed (cfg : Config) (env : KmemEnv) (st : State) (size : Nat) : Prop :=
  let count := (size + pageSize - 1) / pageSize
  (env st.kmem.ranges count = none ∧
      kmalloc cfg env st.kmem st.caches size = .error .noMemory) ∨
    ∃ ptr, env st.kmem.ranges count = some ptr ∧
      kmalloc cfg env st.kmem st.caches size =
        .ok (.pages ptr count, { st.kmem with ranges := (ptr, count) :: st.kmem.ranges }) ∧
      kfree cfg { st.kmem with ranges := (ptr, count) :: st.kmem.ranges } st.caches ptr size = .ok st.kmem

def Exact (size : Nat) : Prop :=
  ∀ cfg env, Slab.Fresh env → ∀ st, Reach (Init cfg env) (Slab.Served (Step cfg)) st →
    (kmallocMax < size → PagesServed cfg env st size) ∧
      (size ≤ kmallocMax → ClassServed cfg env st size)

theorem sorted_kmallocSizes : kmallocSizes.Pairwise (· ≤ ·) := by
  decide

theorem cacheFor_smallest {caches : List Nat} (hlen : kmallocSizes.length = caches.length)
    (h : cacheFor caches size = some (n, cp))
    : ∀ m ∈ kmallocSizes, size ≤ m → n ≤ m := by
  unfold cacheFor at h
  rw [List.find?_eq_some_iff_append] at h
  rcases h with ⟨_, before, after, hzip, hbefore⟩
  have hsizes := congrArg (List.map Prod.fst) hzip
  rw [List.map_fst_zip (Nat.le_of_eq hlen), List.map_append, List.map_cons] at hsizes
  have hsorted := sorted_kmallocSizes
  rw [hsizes, List.pairwise_append] at hsorted
  intro m hm hsize
  rw [hsizes, List.mem_append] at hm
  rcases hm with hm | hm
  . rcases List.mem_map.mp hm with ⟨c, hc, rfl⟩
    have := hbefore c hc
    simp at this
    omega
  . rcases List.mem_cons.mp hm with rfl | hm
    . exact Nat.le_refl _
    . exact (List.pairwise_cons.mp hsorted.2.1).1 m hm

theorem cacheFor_eq_none_iff {caches : List Nat} (hlen : kmallocSizes.length = caches.length)
    : cacheFor caches size = none ↔ kmallocMax < size := by
  have hmem : ∀ c ∈ kmallocSizes.zip caches, c.1 ∈ kmallocSizes := fun c hc => (List.of_mem_zip hc).1
  have hmax : ∀ m ∈ kmallocSizes, m ≤ kmallocMax := by decide
  unfold cacheFor
  rw [List.find?_eq_none]
  constructor
  . intro h
    have hfst : kmallocMax ∈ (kmallocSizes.zip caches).map Prod.fst := by
      rw [List.map_fst_zip (Nat.le_of_eq hlen)]
      decide
    rcases List.mem_map.mp hfst with ⟨c, hc, heq⟩
    have := h c hc
    simp [heq] at this
    exact this
  . intro h c hc
    have := hmax _ (hmem c hc)
    simp
    omega

theorem Inv.length (h : Inv kmallocSizes st) : kmallocSizes.length = st.caches.length :=
  h.caches.length_eq

theorem classServed (cfg : Config) (hf : Slab.Fresh env) (h : Inv kmallocSizes st) (hsize : size ≤ kmallocMax)
    : ClassServed cfg env st size := by
  cases hfor : cacheFor st.caches size with
  | none =>
    rw [cacheFor_eq_none_iff h.length] at hfor
    omega
  | some c =>
    rcases c with ⟨n, cp⟩
    rcases cacheFor_mem hfor with ⟨hmem, hle⟩
    have hclass := h.class hmem
    rcases h.slab with ⟨used, hinv⟩
    refine ⟨n, cp, hmem, hle, cacheFor_smallest h.length hfor, hclass.size, ?_⟩
    have hkmalloc : kmalloc cfg env st.kmem st.caches size = (do
        let (ptr, s) ← kmemAlloc cfg env st.kmem cp
        return (.object cp ptr, s)) := by
      unfold kmalloc
      rw [hfor]
    have hcases := Kmem.kmemCacheAlloc_allocates cfg hf 0 hinv hclass.created
    unfold kmemAlloc at hkmalloc
    rw [hkmalloc]
    cases halloc : Slab.kmemCacheAlloc cfg env 2 st.kmem cp with
    | error f =>
      rw [halloc] at hcases
      cases hcases with
      | noMemory => exact .inl rfl
      | rejected c obj mem hc _ =>
        rw [hclass.constructor] at hc
        cases hc
    | ok r =>
      rcases r with ⟨ptr, s⟩
      rw [halloc] at hcases
      cases hcases with
      | ok _ _ used1 hinv1 hnew hstable =>
        right
        rw [halloc, Except.ok_bind] at hkmalloc
        have h1 := h.kmalloc hf hkmalloc
        rcases Kmem.kmemCacheFree_spec cfg hinv1 (Set.mem_insert ..) with ⟨s', used2, hfree, hinv2⟩
        rw [Set.insert_sdiff_self_of_notMem hnew] at hinv2
        refine ⟨ptr, s, rfl, hnew, ?_, s', ?_, hfree, ?_⟩
        . exact KmemState.consistent_of_inv hf hinv1
        . rw [← hfree]
          exact h1.kfree_object cfg (Set.mem_insert ..) hfor
        . exact KmemState.consistent_of_inv hf hinv2

theorem alignUp_page (size : Nat) (h : size ≤ 2 ^ 64 - pageSize)
    : Word.alignUp size pageSize = pageSize * ((size + pageSize - 1) / pageSize) := by
  have hpage : pageSize = 2 ^ 12 := rfl
  rw [hpage] at h ⊢
  rw [Word.alignUp_two_pow (by omega) (by omega)]
  rfl

theorem pageCount_eq (count : Nat) : pageCount count = count % 2 ^ 52 := by
  unfold pageCount Word.mul pageSize
  omega

end Exact

def blank : Kmem Bytes where
  mem _ := 0
  cache _ := ⟨0, 0, 0, 0, 0, none, none, [], 0, [], []⟩
  slab _ := ⟨[], 0, 0, 0⟩
  bufctl _ := ⟨0, 0⟩
  slabCache := 0
  bufctlCache := 0
  ranges := []

def top (ranges : List (Nat × Nat)) : Nat := (ranges.map fun r => r.1 + r.2 * pageSize).foldr max 0

theorem bump_eq_some {ranges : List (Nat × Nat)} {n : Nat} (h : top ranges ≤ 2 ^ 20) (hn : n ≤ 2 ^ 51)
    : ∃ a, Slab.bump ranges n = some a := by
  unfold Slab.bump
  dsimp only
  change ∃ a, (if (top ranges / pageSize + 1) * pageSize + n * pageSize < 2 ^ 64 then _ else _) = some a
  have hpage : pageSize = 4096 := rfl
  rw [if_pos (by rw [hpage]; omega)]
  exact ⟨_, rfl⟩

theorem kmemInit_bump : ((kmemInit ⟨false⟩ Slab.bump blank).map fun r => top r.2.ranges) =
    .ok 114688 := by
  decide +kernel

theorem exists_init
    : ∃ st, Init ⟨false⟩ Slab.bump st ∧ top st.kmem.ranges ≤ 2 ^ 20 := by
  rcases Except.map_eq_ok kmemInit_bump with ⟨⟨caches, s⟩, hok, htop⟩
  refine ⟨during caches s, ⟨blank, rfl, hok, rfl, rfl, rfl⟩, ?_⟩
  change top s.ranges ≤ 2 ^ 20
  dsimp only at htop
  omega

theorem kmalloc_pages (cfg : Config) (size : Nat) {env : KmemEnv} {st : State} {ptr : Nat}
    (h : Inv kmallocSizes st) (hmax : kmallocMax < size) (hsize : size < 2 ^ 47)
    (henv : env st.kmem.ranges (Word.alignUp size pageSize) = some ptr)
    : kmalloc cfg env st.kmem st.caches size = .ok (.pages ptr (Word.alignUp size pageSize),
        { st.kmem with ranges := (ptr, Word.alignUp size pageSize) :: st.kmem.ranges }) := by
  have hpage : pageSize = 4096 := rfl
  have hpos : kmallocMax = 2048 := rfl
  have halign := alignUp_page size (by omega)
  have hcount : pageCount (Word.alignUp size pageSize) = Word.alignUp size pageSize := by
    rw [pageCount_eq, halign, hpage]
    omega
  unfold kmalloc
  rw [(cacheFor_eq_none_iff h.length).mpr hmax]
  dsimp only
  unfold vmKalloc Slab.vmKalloc
  rw [hcount, if_neg (by rw [halign, hpage]; omega), henv]
  rfl

theorem kmalloc_exact_iff (size : Nat) (hsize : size < 2 ^ 47) : Exact size ↔ size ≤ kmallocMax := by
  constructor
  . intro h
    by_contra hlt
    have hpage : pageSize = 4096 := rfl
    have hpos : kmallocMax = 2048 := rfl
    rcases exists_init with ⟨st, hinit, htop⟩
    have hinv := Inv.init Slab.fresh_bump hinit
    have halign := alignUp_page size (by omega)
    rcases bump_eq_some (n := Word.alignUp size pageSize) htop (by rw [halign, hpage]; omega)
      with ⟨ptr, hbump⟩
    have hkmalloc := kmalloc_pages ⟨false⟩ size hinv (by omega) hsize hbump
    rcases (h ⟨false⟩ Slab.bump Slab.fresh_bump st (.start hinit)).1 (by omega)
      with ⟨_, herr⟩ | ⟨ptr', _, hok, _⟩
    . rw [hkmalloc] at herr
      cases herr
    . rw [hkmalloc, Except.ok.injEq, Prod.mk.injEq, Block.pages.injEq] at hok
      have hcount := hok.1.2
      rw [halign, hpage] at hcount
      omega
  . intro hle cfg env hf st hreach
    refine ⟨fun hlt => absurd hle (by omega), fun _ => ?_⟩
    exact classServed cfg hf (Inv.reach hf hreach) hle

theorem kmalloc_exact_iff_page : ¬ Exact 4096 := by
  rw [kmalloc_exact_iff 4096 (by decide)]
  decide

theorem kmalloc_one_page
    : ∃ st, Init ⟨false⟩ Slab.bump st ∧ ∃ ptr,
        kmalloc ⟨false⟩ Slab.bump st.kmem st.caches 4096 =
          .ok (.pages ptr 4096, { st.kmem with ranges := (ptr, 4096) :: st.kmem.ranges }) := by
  rcases exists_init with ⟨st, hinit, htop⟩
  rcases bump_eq_some (n := 4096) htop (by decide) with ⟨ptr, hbump⟩
  have halign : Word.alignUp 4096 pageSize = 4096 := by decide
  refine ⟨st, hinit, ptr, ?_⟩
  have hkmalloc := kmalloc_pages ⟨false⟩ 4096 (Inv.init Slab.fresh_bump hinit) (by decide)
    (by decide) (by rw [halign]; exact hbump)
  rwa [halign] at hkmalloc

end Kmalloc
end Nyy
