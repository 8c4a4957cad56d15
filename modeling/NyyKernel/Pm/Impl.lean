import Mathlib.Tactic
import NyyKernel.Paging.Impl

/-!
This module contains the model of the physical page allocator. A page descriptor lies at the start of
the region that its page is part of. A pointer to a descriptor is the position of the region in the
list of regions, which only grows at its end, and the index of the descriptor.
-/

namespace Nyy
namespace Pm

open Paging (Addr Mmu PageMem)

inductive PageUse where
  | free
  | internal
  | vm
  | wired
  deriving DecidableEq, Repr

structure Page where
  pfn : BitVec 52
  usage : PageUse
  order : Nat
  deriving DecidableEq, Repr

structure Region where
  base : Addr
  pagecnt : BitVec 64
  pages : List Page
  deriving DecidableEq, Repr

structure PagePtr where
  region : Nat
  index : Nat
  deriving DecidableEq, Repr

structure Vmstat where
  total : BitVec 64
  used : BitVec 64
  deriving DecidableEq, Repr

structure State where
  regionlist : List Region
  buddyFreelist : Nat → List PagePtr
  vmstat : Vmstat

def sizeofRegion : BitVec 64 := 32

def sizeofPage : BitVec 64 := 32

def pageAlignUp (addr : BitVec 64) : BitVec 64 := (addr + 0x1000 - 1) &&& ~~~(0x1000 - 1)

-- `PG2P`
def pg2p (page : Page) : Addr := page.pfn.setWidth 64 <<< 12

namespace State

def page? (s : State) (p : PagePtr) : Option Page :=
  s.regionlist[p.region]?.bind (fun r => r.pages[p.index]?)

def setUsage (s : State) (p : PagePtr) (usage : PageUse) : State :=
  { s with
    regionlist := s.regionlist.modify p.region (fun r =>
      { r with pages := r.pages.modify p.index (fun page => { page with usage := usage }) }) }

def insertTail (s : State) (order : Nat) (p : PagePtr) : State :=
  { s with
    buddyFreelist := Function.update s.buddyFreelist order (s.buddyFreelist order ++ [p]) }

def remove (s : State) (order : Nat) (p : PagePtr) : State :=
  { s with
    buddyFreelist := Function.update s.buddyFreelist order ((s.buddyFreelist order).erase p) }

end State

def pmInit : State := ⟨[], fun _ => [], ⟨0, 0⟩⟩

def regionUsed (length : BitVec 64) : BitVec 64 :=
  pageAlignUp (sizeofRegion + sizeofPage * length / 0x1000)

def newPage (base used : BitVec 64) (i : Nat) : Page where
  pfn := ((base + BitVec.ofNat 64 i * 0x1000) >>> 12).setWidth 52
  usage := if BitVec.ofNat 64 i < used / 0x1000 then .internal else .free
  order := 0

def newRegion (base length : BitVec 64) : Region where
  base := base
  pagecnt := length / 0x1000
  pages := (List.range (length / 0x1000).toNat).map (newPage base (regionUsed length))

def insertPages (s : State) (region used : Nat) (pages : List Page) : State :=
  (List.range' used (pages.length - used)).foldl
    (fun s i => s.insertTail (pages[i]?.elim 0 Page.order) ⟨region, i⟩) s

def pmAddRegion (s : State) (base length : BitVec 64) : State :=
  let used := regionUsed length
  if length - used < 0x1000 * 2 then
    s
  else
    let region := newRegion base length
    let s' := { s with
      regionlist := s.regionlist ++ [region]
      vmstat := ⟨s.vmstat.total + region.pagecnt, s.vmstat.used + used / 0x1000⟩ }
    insertPages s' s.regionlist.length (used / 0x1000).toNat region.pages

def pmAllocateN (cfg : Config) (s : State) (n : Nat) (usage : PageUse)
    : Except Fault (PagePtr × State) := do
  check cfg (n == 1)
  let pg := (s.buddyFreelist 0).head?
  check cfg pg.isSome
  match pg with
  | none => .error .undefined
  | some pg =>
    let s := (s.setUsage pg usage).remove 0 pg
    .ok (pg, { s with vmstat.used := s.vmstat.used + BitVec.ofNat 64 n })

def pmAllocate (cfg : Config) (s : State) (usage : PageUse) : Except Fault (PagePtr × State) :=
  pmAllocateN cfg s 1 usage

def clearPages (s : State) (pages : PagePtr) (n : Nat) (mem : PageMem)
    : Except Fault PageMem :=
  (List.range n).foldlM
    (fun mem i =>
      match s.page? ⟨pages.region, pages.index + i⟩ with
      | none => .error .undefined
      | some page => .ok (Radix.clear mem (pg2p page) 0)) mem

def pmAllocateNZeroed (cfg : Config) (m : Mmu State) (n : Nat) (usage : PageUse)
    : Except Fault (PagePtr × Mmu State) := do
  let (pages, pm) ← pmAllocateN cfg m.pm n usage
  let mem ← clearPages pm pages n m.mem
  .ok (pages, ⟨mem, pm⟩)

def pmAllocateZeroed (cfg : Config) (m : Mmu State) (usage : PageUse)
    : Except Fault (PagePtr × Mmu State) :=
  pmAllocateNZeroed cfg m 1 usage

def pmFreeN (cfg : Config) (s : State) (pages : PagePtr) (n : Nat) : Except Fault State := do
  check cfg (n == 1)
  let s := (List.range n).foldl
    (fun s i => s.setUsage ⟨pages.region, pages.index + i⟩ .free) s
  let s := s.insertTail 0 pages
  .ok { s with vmstat.used := s.vmstat.used - BitVec.ofNat 64 n }

def pmFree (cfg : Config) (s : State) (page : PagePtr) : Except Fault State :=
  pmFreeN cfg s page 1

def Region.contains (r : Region) (paddr : Addr) : Bool :=
  r.base ≤ paddr && paddr < r.base + r.pagecnt * 0x1000

def pmLookupRegion (s : State) (paddr : Addr) : Option Nat :=
  s.regionlist.findIdx? (fun r => r.contains paddr)

def pmLookup (s : State) (paddr : Addr) : Option PagePtr := do
  let region ← pmLookupRegion s paddr
  let r ← s.regionlist[region]?
  some ⟨region, ((paddr - r.base) / 0x1000).toNat⟩

end Pm
end Nyy
