import Mathlib.Tactic
import NyyKernel.Lib.Fault
import NyyKernel.Lib.Radix

/-!
This module contains the model of the amd64 page tables, next to the walk that the processor does. Physical
memory is a table of 512 words for each page aligned address.
-/

namespace Nyy
namespace Paging

abbrev Addr := BitVec 64

abbrev PageMem := Addr → BitVec 9 → BitVec 64

abbrev PmAllocate (σ : Type) := σ → Except Fault (Addr × σ)

def ptePresent : BitVec 64 := 0x1
def pteWrite : BitVec 64 := 0x2
def pteUser : BitVec 64 := 0x4
def ptePwt : BitVec 64 := 0x8
def ptePcd : BitVec 64 := 0x10
def ptePat : BitVec 64 := 0x80
def ptePagesize : BitVec 64 := 0x80
def pteGlobal : BitVec 64 := 0x100
def pteAddress : BitVec 64 := 0x000FFFFFFFFFF000
def pteNoExecute : BitVec 64 := 0x8000000000000000

def kVmRead : BitVec 64 := 1
def kVmWrite : BitVec 64 := 2
def kVmExecute : BitVec 64 := 4
def kVmUser : BitVec 64 := 8
def kVmGlobal : BitVec 64 := 16
def kVmHuge : BitVec 64 := 32
def kVmHugeShift : Nat := 26
def kVmHuge2MB : BitVec 64 := (21 <<< kVmHugeShift) ||| kVmHuge
def kVmHuge1GB : BitVec 64 := (30 <<< kVmHugeShift) ||| kVmHuge
def kVmAll : BitVec 64 := kVmRead ||| kVmWrite

def mib2 : BitVec 64 := 0x200000
def gib1 : BitVec 64 := 0x40000000

inductive CacheMode where
  | uncached
  | writeback
  | writethrough
  | writecombine
  deriving DecidableEq, Repr

structure Features where
  gbpages : Bool
  pge : Bool
  nx : Bool
  deriving DecidableEq, Repr

structure WalkFlags where
  createNew : Bool
  size2MB : Bool
  size1GB : Bool
  deriving DecidableEq, Repr

def pageAlignDown (addr : BitVec 64) : BitVec 64 := addr &&& ~~~(0x1000 - 1)

def index (addr : BitVec 64) (level : Nat) : BitVec 9 :=
  ((addr >>> (12 + 9 * level)) &&& 0x1ff).setWidth 9

def present (entry : BitVec 64) : Bool := entry &&& ptePresent != 0

structure Mmu (σ : Type) where
  mem : PageMem
  pm : σ

section

variable {σ : Type} (pmAllocateN : PmAllocate σ)

-- `pmAllocateN` takes a page for the use in tables and gives its address, `PG2P` of the page.
def pmAllocateZeroed (m : Mmu σ) : Except Fault (Addr × Mmu σ) := do
  let (page, pm) ← pmAllocateN m.pm
  .ok (page, { mem := Radix.clear m.mem page 0, pm := pm })

-- One level of the walk: the table below a slot, `none` where the walk returns a null pointer.
def pteNext (m : Mmu σ) (table : Addr) (i : BitVec 9) (flags : WalkFlags)
    : Except Fault (Option Addr × Mmu σ) :=
  if present (m.mem table i) then
    .ok (some (m.mem table i &&& pteAddress), m)
  else if !flags.createNew then
    .ok (none, m)
  else do
    let (page, m) ← pmAllocateZeroed pmAllocateN m
    let entry := page ||| ptePresent ||| pteUser ||| pteWrite
    .ok (some page, { m with mem := Radix.write m.mem table i entry })

def pteWalk (m : Mmu σ) (cr3 vaddr : Addr) (flags : WalkFlags)
    : Except Fault (Option (Addr × BitVec 9) × Mmu σ) := do
  match ← pteNext pmAllocateN m cr3 (index vaddr 3) flags with
  | (none, m) => .ok (none, m)
  | (some pml3, m) =>
    if flags.size1GB then
      .ok (some (pml3, index vaddr 2), m)
    else
      match ← pteNext pmAllocateN m pml3 (index vaddr 2) flags with
      | (none, m) => .ok (none, m)
      | (some pml2, m) =>
        if flags.size2MB then
          .ok (some (pml2, index vaddr 1), m)
        else
          match ← pteNext pmAllocateN m pml2 (index vaddr 1) flags with
          | (none, m) => .ok (none, m)
          | (some pml1, m) => .ok (some (pml1, index vaddr 0), m)

def unmapFlags (cfg : Config) (features : Features) (flags : BitVec 64) : Except Fault WalkFlags :=
  if flags &&& kVmHuge = 0 then
    .ok ⟨false, false, false⟩
  else if flags >>> kVmHugeShift = 12 then
    .ok ⟨false, false, false⟩
  else if flags >>> kVmHugeShift = 21 then
    .ok ⟨false, true, false⟩
  else if flags >>> kVmHugeShift = 30 then do
    check cfg features.gbpages
    .ok ⟨false, false, true⟩
  else do
    check cfg false
    .ok ⟨false, false, false⟩

def vmPortUnmap (cfg : Config) (features : Features) (m : Mmu σ) (cr3 vaddr : Addr) (flags : BitVec 64)
    : Except Fault (Mmu σ) := do
  let walkFlags ← unmapFlags cfg features flags
  match ← pteWalk pmAllocateN m cr3 vaddr walkFlags with
  | (none, m) => .ok m
  | (some (table, i), m) =>
    let entry := m.mem table i &&& ~~~(ptePresent ||| pteAddress)
    .ok { m with mem := Radix.write m.mem table i entry }

def bitsIf (cond : Bool) (bits : BitVec 64) : BitVec 64 := if cond then bits else 0

def cacheBits : CacheMode → BitVec 64
  -- this case falls through into the next one
  | .writecombine => (ptePat ||| ptePwt) ||| ptePwt
  | .writethrough => ptePwt
  | .writeback => 0
  | .uncached => ptePcd ||| ptePwt

def newEntry (features : Features) (size : BitVec 64) (paddr : Addr) (cache : CacheMode) (flags : BitVec 64)
    : BitVec 64 :=
  size
    ||| pageAlignDown paddr
    ||| bitsIf (flags &&& kVmUser != 0) pteUser
    ||| bitsIf (flags &&& kVmWrite != 0) pteWrite
    ||| bitsIf (flags &&& kVmRead != 0) ptePresent
    ||| bitsIf (features.pge && flags &&& kVmGlobal != 0) pteGlobal
    ||| bitsIf (features.nx && !(flags &&& kVmExecute != 0)) pteNoExecute
    ||| cacheBits cache

-- The part of a mapping after the page size is known.
def mapEntry (m : Mmu σ) (cr3 vaddr : Addr) (walkFlags : WalkFlags) (entry : BitVec 64)
    : Except Fault (Mmu σ) := do
  match ← pteWalk pmAllocateN m cr3 vaddr walkFlags with
  | (none, _) => .error .undefined
  | (some (table, i), m) => .ok { m with mem := Radix.write m.mem table i entry }

-- A mapping of 1 GiB calls itself for the parts if the processor has no such pages, the parts are
-- of 2 MiB each: the depth of the recursion is two.
def vmPortMapFuel (cfg : Config) (features : Features) (cr3 : Addr) (cache : CacheMode)
    : Nat → Mmu σ → Addr → Addr → BitVec 64 → Except Fault (Mmu σ)
  | 0, _, _, _, _ => .error .fuel
  | fuel + 1, m, paddr, vaddr, flags =>
    if flags &&& kVmHuge = 0 then
      mapEntry pmAllocateN m cr3 vaddr ⟨true, false, false⟩
        (newEntry features 0 paddr cache flags)
    else if flags >>> kVmHugeShift = 21 then do
      check cfg (paddr % mib2 == 0)
      mapEntry pmAllocateN m cr3 vaddr ⟨true, true, false⟩
        (newEntry features ptePagesize paddr cache flags)
    else if flags >>> kVmHugeShift = 30 then do
      check cfg (paddr % gib1 == 0)
      if features.gbpages then
        mapEntry pmAllocateN m cr3 vaddr ⟨true, false, true⟩
          (newEntry features ptePagesize paddr cache flags)
      else
        (List.range 512).foldlM
          (fun m i => vmPortMapFuel cfg features cr3 cache fuel m
            (paddr + mib2 * BitVec.ofNat 64 i) (vaddr + mib2 * BitVec.ofNat 64 i)
            ((flags &&& ~~~kVmHuge1GB) ||| kVmHuge2MB)) m
    else do
      check cfg false
      mapEntry pmAllocateN m cr3 vaddr ⟨true, false, false⟩
        (newEntry features ptePagesize paddr cache flags)

def vmPortMap (cfg : Config) (features : Features) (m : Mmu σ) (cr3 paddr vaddr : Addr) (cache : CacheMode)
    (flags : BitVec 64) : Except Fault (Mmu σ) :=
  vmPortMapFuel pmAllocateN cfg features cr3 cache 2 m paddr vaddr flags

def vmPortTranslatePaddr (m : Mmu σ) (cr3 addr : Addr) : Except Fault (Addr × Mmu σ) := do
  match ← pteWalk pmAllocateN m cr3 addr ⟨false, false, false⟩ with
  | (none, m) => .ok (-1, m)
  | (some (table, i), m) => .ok (m.mem table i &&& pteAddress, m)

def vmPortTranslate {π : Type} (pmLookup : Addr → Option π) (m : Mmu σ) (cr3 addr : Addr)
    : Except Fault (Option π × Mmu σ) := do
  let (paddr, m) ← vmPortTranslatePaddr pmAllocateN m cr3 addr
  if paddr = -1 then
    .ok (none, m)
  else
    .ok (pmLookup paddr, m)

def vmPortInitMap (m : Mmu σ) : Except Fault (Addr × Mmu σ) :=
  pmAllocateZeroed pmAllocateN m

end

/-!
The walk of the processor. A word with the page size bit ends the walk in the second and the third
level, in the topmost level the bit is reserved.
-/

inductive Leaf where
  | page1G (entry : BitVec 64)
  | page2M (entry : BitVec 64)
  | page4K (entry : BitVec 64)
  deriving DecidableEq, Repr

def large (entry : BitVec 64) : Bool := entry &&& ptePagesize != 0

def isLarge (entry : BitVec 64) : Bool := present entry && large entry

def tableBelow (entry : BitVec 64) : Option Addr :=
  if present entry && !large entry then some (entry &&& pteAddress) else none

def hardwareWalk (mem : PageMem) (cr3 vaddr : Addr) : Option Leaf :=
  match tableBelow (mem cr3 (index vaddr 3)) with
  | none => none
  | some pml3 =>
    if isLarge (mem pml3 (index vaddr 2)) then
      some (.page1G (mem pml3 (index vaddr 2)))
    else
      match tableBelow (mem pml3 (index vaddr 2)) with
      | none => none
      | some pml2 =>
        if isLarge (mem pml2 (index vaddr 1)) then
          some (.page2M (mem pml2 (index vaddr 1)))
        else
          match tableBelow (mem pml2 (index vaddr 1)) with
          | none => none
          | some pml1 =>
            if present (mem pml1 (index vaddr 0)) then
              some (.page4K (mem pml1 (index vaddr 0)))
            else
              none

def Leaf.frame (vaddr : Addr) : Leaf → Addr
  | .page1G entry =>
    (entry &&& pteAddress &&& ~~~(gib1 - 1)) ||| (pageAlignDown vaddr &&& (gib1 - 1))
  | .page2M entry =>
    (entry &&& pteAddress &&& ~~~(mib2 - 1)) ||| (pageAlignDown vaddr &&& (mib2 - 1))
  | .page4K entry => entry &&& pteAddress

def Leaf.address (vaddr : Addr) (leaf : Leaf) : Addr :=
  leaf.frame vaddr ||| (vaddr &&& (0x1000 - 1))

def Canonical (vaddr : Addr) : Prop := (vaddr.setWidth 48).signExtend 64 = vaddr

instance (vaddr : Addr) : Decidable (Canonical vaddr) :=
  inferInstanceAs (Decidable ((vaddr.setWidth 48).signExtend 64 = vaddr))

def page (vaddr : Addr) : BitVec 64 := vaddr >>> 12

end Paging
end Nyy
