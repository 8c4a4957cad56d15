import Mathlib.Logic.Function.Basic
import NyyKernel.Lib.Fault
import NyyKernel.Lib.Word

/-!
This module contains the slab allocator of `kernel/lib/slab.c`. Caches, slabs and buffer controls
are found by their address, and a list that is linked through them is a list of addresses.
-/

namespace Nyy
namespace Slab

def pageSize : Nat := 4096

def kmemSmallMax : Nat := pageSize / 16

def kmemAlign : Nat := 8

def kmemSecondAlign : Nat := 16

def kmemMaxpages : Nat := 8

def sizeofSlab : Nat := 48

def sizeofLargeBufctl : Nat := 24

structure KmemSlab where
  freelist : List Nat
  refcnt : Nat
  parentCache : Nat
  base : Nat
  deriving DecidableEq, Repr

structure KmemLargeBufctl where
  slab : Nat
  base : Nat
  deriving DecidableEq, Repr

-- A cache. The contents of the objects are a value of `μ`, which only constructors and destructors look at.
structure KmemCache (μ : Type) where
  slabcap : Nat
  align : Nat
  chunksize : Nat
  bufsize : Nat
  slabsize : Nat
  constructor : Option (Nat → μ → Int × μ)
  destructor : Option (Nat → μ → μ)
  buflist : List Nat
  -- the pointer behind the last element that was inserted into `buflist`
  buflistEnd : Nat
  slablist : List Nat
  fullSlablist : List Nat

structure Kmem (μ : Type) where
  mem : μ
  cache : Nat → KmemCache μ
  slab : Nat → KmemSlab
  bufctl : Nat → KmemLargeBufctl
  slabCache : Nat
  bufctlCache : Nat
  -- what `vm_kalloc` handed out: address and number of pages
  ranges : List (Nat × Nat)

-- what `vm_kalloc` does, for a number of pages
abbrev PageAlloc (μ : Type) := Kmem μ → Nat → Except Fault (Nat × Kmem μ)

abbrev CacheAlloc (μ : Type) := Kmem μ → Nat → Except Fault (Nat × Kmem μ)

abbrev KmemEnv := List (Nat × Nat) → Nat → Option Nat

variable {μ : Type}

namespace Kmem

def setCache (s : Kmem μ) (cp : Nat) (c : KmemCache μ) : Kmem μ :=
  { s with cache := Function.update s.cache cp c }

def setSlab (s : Kmem μ) (sp : Nat) (slab : KmemSlab) : Kmem μ :=
  { s with slab := Function.update s.slab sp slab }

def setBufctl (s : Kmem μ) (bp : Nat) (bufctl : KmemLargeBufctl) : Kmem μ :=
  { s with bufctl := Function.update s.bufctl bp bufctl }

end Kmem

-- SLIST_FIRST(&cp->buflist)
def KmemCache.buflistFirst (c : KmemCache μ) : Nat := c.buflist.headD c.buflistEnd

-- LIST_REMOVE(sp, entry), from the list of the cache that `sp` is on
def KmemCache.listRemove (c : KmemCache μ) (sp : Nat) : KmemCache μ :=
  { c with slablist := c.slablist.erase sp, fullSlablist := c.fullSlablist.erase sp }

-- A `vm_kalloc` whose answer depends on what it handed out.
def vmKalloc (env : KmemEnv) : PageAlloc μ := fun s count =>
  match env s.ranges count with
  | some addr => return (addr, { s with ranges := (addr, count) :: s.ranges })
  | none => .error .noMemory

instance : Coe KmemEnv (PageAlloc μ) := ⟨vmKalloc⟩

def smallSlabCreate (kalloc : PageAlloc μ) (s : Kmem μ) (cp : Nat) : Except Fault (Nat × Kmem μ) := do
  let (pg, s) ← kalloc s 1
  let sp := Word.sub (Word.add pg pageSize) sizeofSlab
  let c := s.cache cp
  let freelist := (List.range c.slabcap).foldl
    (fun freelist i => Word.add pg (Word.mul i c.chunksize) :: freelist) []
  return (sp, s.setSlab sp ⟨freelist, 0, cp, 0⟩)

def largeSlabFill (alloc : CacheAlloc μ) (cp sp base : Nat)
    : List Nat → Kmem μ → Except Fault (Kmem μ)
  | [], s => return s
  | i :: is, s => do
    let (bp, s) ← alloc s s.bufctlCache
    let s := s.setBufctl bp ⟨sp, Word.add base (Word.mul (s.cache cp).chunksize i)⟩
    let s := s.setSlab sp { s.slab sp with freelist := bp :: (s.slab sp).freelist }
    largeSlabFill alloc cp sp base is s

def largeSlabCreate (cfg : Config) (kalloc : PageAlloc μ) (alloc : CacheAlloc μ) (s : Kmem μ) (cp : Nat)
    : Except Fault (Nat × Kmem μ) := do
  let (sp, s) ← alloc s s.slabCache
  check cfg (sp != 0)
  let s := s.setSlab sp { s.slab sp with freelist := [], refcnt := 0, parentCache := cp }
  let (base, s) ← kalloc s (s.cache cp).slabsize
  let s := s.setSlab sp { s.slab sp with base := base }
  let s ← largeSlabFill alloc cp sp base (List.range (s.cache cp).slabcap) s
  return (sp, s)

def slabAllocLists (c : KmemCache μ) (sp refcnt : Nat) : KmemCache μ :=
  if refcnt = c.slabcap then
    { c.listRemove sp with fullSlablist := sp :: (c.listRemove sp).fullSlablist }
  else
    c

def slabAlloc (s : Kmem μ) (sp : Nat) : Except Fault (Nat × Kmem μ) := do
  let slab := s.slab sp
  let cp := slab.parentCache
  match slab.freelist with
  | [] => .error .undefined
  | bufctl :: freelist =>
    let refcnt := slab.refcnt + 1
    let s := s.setSlab sp { slab with freelist := freelist, refcnt := refcnt }
    let c := slabAllocLists (s.cache cp) sp refcnt
    if slab.base = 0 then
      return (bufctl, s.setCache cp c)
    else
      return ((s.bufctl bufctl).base, s.setCache cp { c with buflist := bufctl :: c.buflist })

def slabFreeLists (c : KmemCache μ) (sp refcnt : Nat) : KmemCache μ :=
  if refcnt = c.slabcap then
    { c.listRemove sp with slablist := sp :: (c.listRemove sp).slablist }
  else
    c

-- SLIST_REMOVE(&cp->buflist, bufctl, kmem_bufctl, entry), if the slab is a large one
def buflistRemove (c : KmemCache μ) (base bufctl : Nat) : Except Fault (KmemCache μ) :=
  if base = 0 then
    return c
  else if bufctl ∈ c.buflist then
    return { c with buflist := c.buflist.erase bufctl }
  else
    -- the walk leaves the list
    .error .undefined

def slabFree (cfg : Config) (s : Kmem μ) (sp bufctl : Nat) : Except Fault (Kmem μ) := do
  check cfg (sp != 0)
  check cfg (bufctl != 0)
  let slab := s.slab sp
  let cp := slab.parentCache
  let c := slabFreeLists (s.cache cp) sp slab.refcnt
  let c ← buflistRemove c slab.base bufctl
  let slab := { slab with freelist := bufctl :: slab.freelist, refcnt := Word.sub slab.refcnt 1 }
  return (s.setCache cp c).setSlab sp slab

-- the call of the constructor is the argument of an assertion
def construct (cfg : Config) (s : Kmem μ) (cp obj : Nat) : Except Fault (Kmem μ) :=
  match (s.cache cp).constructor with
  | none => return s
  | some constructor =>
    if cfg.disableAsserts then
      return s
    else do
      check cfg ((constructor obj s.mem).1 == 0)
      return { s with mem := (constructor obj s.mem).2 }

-- The part of `kmem_cache_alloc` that adds a slab if there is none with a free chunk.
def grow (create : CacheAlloc μ) (s : Kmem μ) (cp : Nat)
    : Except Fault (Kmem μ) := do
  if (s.cache cp).slablist.isEmpty then
    let (slab, s) ← create s cp
    return s.setCache cp { s.cache cp with slablist := slab :: (s.cache cp).slablist }
  else
    return s

-- The rest of `kmem_cache_alloc`, that takes an object from the first slab with a free chunk.
def allocFirst (cfg : Config) (s : Kmem μ) (cp : Nat) : Except Fault (Nat × Kmem μ) :=
  match (s.cache cp).slablist with
  | [] => .error .undefined
  | sp :: _ => do
    check cfg ((s.slab sp).refcnt < (s.cache cp).slabcap)
    let (obj, s) ← slabAlloc s sp
    let s ← construct cfg s cp obj
    return (obj, s)

-- a large slab allocates its header and its buffer controls with recursive calls
def kmemCacheAlloc (cfg : Config) (kalloc : PageAlloc μ)
    : Nat → CacheAlloc μ
  | 0, _, _ => .error .fuel
  | fuel + 1, s, cp => do
    let create :=
      if (s.cache cp).chunksize ≤ kmemSmallMax then
        smallSlabCreate kalloc
      else
        largeSlabCreate cfg kalloc (kmemCacheAlloc cfg kalloc fuel)
    let s ← grow create s cp
    allocFirst cfg s cp

-- The slab and the buffer control of an object, as `kmem_cache_free` finds them.
def findSlab (cfg : Config) (s : Kmem μ) (cp obj : Nat) : Except Fault (Nat × Nat) :=
  let c := s.cache cp
  if c.chunksize ≤ kmemSmallMax then
    return (Word.sub (Word.alignUp (Word.add obj 1) pageSize) sizeofSlab, obj)
  else
    match c.buflist.find? fun elm => (s.bufctl elm).base == obj with
    | some elm => return ((s.bufctl elm).slab, elm)
    | none => do
      if c.buflistEnd = 0 then
        -- sp is still NULL
        check cfg false
      .error .undefined

def destruct (s : Kmem μ) (cp obj : Nat) : Kmem μ :=
  match (s.cache cp).destructor with
  | none => s
  | some destructor => { s with mem := destructor obj s.mem }

def kmemCacheFree (cfg : Config) (s : Kmem μ) (cp obj : Nat) : Except Fault (Kmem μ) := do
  let s := destruct s cp obj
  let (sp, bp) ← findSlab cfg s cp obj
  slabFree cfg s sp bp

-- P2CHECK
def p2check (v : Nat) : Bool := v &&& Word.sub v 1 == 0

def cacheAlign (bufsize align : Nat) : Nat :=
  if align = 0 then
    if kmemSecondAlign ≤ Word.alignUp bufsize kmemAlign then kmemSecondAlign else kmemAlign
  else if align < kmemAlign then
    kmemAlign
  else
    align

def cacheGeometry (bufsize chunksize : Nat) : Option (Nat × Nat) :=
  if bufsize ≤ kmemSmallMax then
    some ((pageSize - sizeofSlab) / chunksize, 1)
  else
    -- aim for 16 chunks minimum
    ((List.range' 1 kmemMaxpages).find? fun pages => 16 ≤ pages * pageSize / chunksize).map
      fun pages => (pages * pageSize / chunksize, pages)

def kmemCacheCreate (cfg : Config) (kalloc : PageAlloc μ) (s : Kmem μ) (bufsize align : Nat)
    (constructor : Option (Nat → μ → Int × μ)) (destructor : Option (Nat → μ → μ))
    : Except Fault (Nat × Kmem μ) := do
  check cfg (align == 0 || p2check align)
  check cfg (bufsize != 0)
  let align := cacheAlign bufsize align
  -- a cache fits into one page
  let (cp, s) ← kalloc s 1
  let chunksize := Word.alignUp bufsize align
  let stale := s.cache cp
  -- `slabcap` and `buflist` keep what the page held
  let c : KmemCache μ :=
    { stale with
      bufsize := bufsize
      align := align
      chunksize := chunksize
      constructor := constructor
      destructor := destructor
      buflist := []
      buflistEnd := stale.buflistFirst
      slablist := []
      fullSlablist := [] }
  if chunksize = 0 then
    -- division by zero
    .error .undefined
  else
    match cacheGeometry bufsize chunksize with
    | some (slabcap, slabsize) =>
      return (cp, s.setCache cp { c with slabcap := slabcap, slabsize := slabsize })
    | none => do
      check cfg false
      return (cp, s.setCache cp { c with slabsize := Word.sub 0 1 })

def kmemSlabInit (cfg : Config) (kalloc : PageAlloc μ) (s : Kmem μ) : Except Fault (Kmem μ) := do
  let (slabCache, s) ← kmemCacheCreate cfg kalloc s sizeofSlab 0 none none
  let s := { s with slabCache := slabCache }
  let (bufctlCache, s) ← kmemCacheCreate cfg kalloc s sizeofLargeBufctl 0 none none
  return { s with bufctlCache := bufctlCache }

end Slab
end Nyy
