import NyyKernel.Lib.Fault

/-!
This module contains `kernel/devkit/pci/pci.c`. What `kmalloc` returns are new nodes, so a pointer to a node
is its place in the list of all nodes; the children of a node are those that it is the parent of.
-/

namespace Nyy
namespace Pci

section Access

variable {m : Type → Type} [Monad m]

-- `port_pci_read32`
abbrev ReadFn (m : Type → Type) := Nat → Nat → Nat → Nat → Nat → m (BitVec 32)

-- `port_pci_write32`
abbrev WriteFn (m : Type → Type) := Nat → Nat → Nat → Nat → Nat → BitVec 32 → m Unit

variable (read32 : ReadFn m) (write32 : WriteFn m) (seg bus slot function offset : Nat)

def pciRead8 : m (BitVec 8) := do
  let reg ← read32 seg bus slot function offset
  return ((reg >>> ((offset &&& 0b11) * 8)) &&& 0xff).setWidth 8

def pciRead16 : m (BitVec 16) := do
  let reg ← read32 seg bus slot function offset
  return ((reg >>> ((offset &&& 0b11) * 8)) &&& 0xffff).setWidth 16

def pciRead32 : m (BitVec 32) := read32 seg bus slot function offset

def pciWrite8 (value : BitVec 8) : m Unit := do
  let old ← read32 seg bus slot function offset
  let bitoffset := 8 * (offset &&& 0b11)
  let old := old &&& ~~~ (0xff#32 <<< bitoffset)
  let old := old ||| value.setWidth 32 <<< bitoffset
  write32 seg bus slot function offset old

def pciWrite16 (value : BitVec 16) : m Unit := do
  let old ← read32 seg bus slot function offset
  let bitoffset := 8 * (offset &&& 0b11)
  let old := old &&& ~~~ (0xffff#32 <<< bitoffset)
  let old := old ||| value.setWidth 32 <<< bitoffset
  write32 seg bus slot function offset old

def pciWrite32 (value : BitVec 32) : m Unit := write32 seg bus slot function offset value

def headerType : m (BitVec 8) := do
  let reg ← pciRead32 read32 seg bus slot function 0xC
  return ((reg &&& 0x00FF0000) >>> 16).setWidth 8

def vendorId : m (BitVec 16) := pciRead16 read32 seg bus slot function 0

def deviceId : m (BitVec 16) := do
  let reg ← pciRead32 read32 seg bus slot function 0
  return (reg >>> 16).setWidth 16

def classCode : m (BitVec 8) := do
  let reg3 ← pciRead32 read32 seg bus slot function 0x8
  return (reg3 >>> 24).setWidth 8

def subClass : m (BitVec 8) := do
  let reg3 ← pciRead32 read32 seg bus slot function 0x8
  return ((reg3 &&& 0x00FF0000) >>> 16).setWidth 8

def revisionId : m (BitVec 8) := pciRead8 read32 seg bus slot function 0x8

def secondaryBus : m (BitVec 8) := do
  let reg6 ← pciRead16 read32 seg bus slot function 0x18
  return (reg6 >>> 8).setWidth 8

end Access

structure PciDevice where
  seg : Nat
  bus : Nat
  slot : Nat
  function : Nat
  vendorId : BitVec 16
  deviceId : BitVec 16
  classCode : BitVec 8
  subClass : BitVec 8
  revision : BitVec 8
  deriving DecidableEq, Repr

inductive NodePtr where
  -- the node that `pci_init` is given
  | proot
  | node (i : Nat)
  deriving DecidableEq, Repr

structure PciNode where
  name : String
  parent : Option NodePtr
  dev : PciDevice
  -- `segId` and `busId`, if the node is a bus
  bus : Option (Nat × Nat)
  deriving DecidableEq, Repr

structure PciTree where
  nodes : List PciNode
  busCnt : Nat

def namebuf (name : String) : String := String.ofList (name.toList.take 15)

def pciCreateDevice (slot function : Nat) : PciNode where
  name := namebuf ("PciDev-" ++ toString slot ++ ":" ++ toString function)
  parent := none
  dev := ⟨0, 0, 0, 0, 0, 0, 0, 0, 0⟩
  bus := none

def PciTree.pciCreateBus (t : PciTree) (seg : Nat) : PciNode × PciTree :=
  (⟨namebuf ("PciBus-" ++ toString seg ++ ":" ++ toString t.busCnt), none, ⟨0, 0, 0, 0, 0, 0, 0, 0, 0⟩,
    some (0, 0)⟩, { t with busCnt := t.busCnt + 1 })

def PciTree.push (t : PciTree) (node : PciNode) : PciTree := { t with nodes := t.nodes ++ [node] }

def devNodeAttach (cfg : Config) (node : PciNode) (parent : Option NodePtr) : Except Fault PciNode := do
  check cfg parent.isSome
  check cfg (node.parent == none)
  match parent with
  | none => .error .undefined
  | some parent => return { node with parent := some parent }

variable (space : ReadFn Id)

def pciDevCommonRead (dev : PciDevice) : PciDevice :=
  { dev with
    vendorId := (vendorId space dev.seg dev.bus dev.slot dev.function).run
    deviceId := (deviceId space dev.seg dev.bus dev.slot dev.function).run
    classCode := (classCode space dev.seg dev.bus dev.slot dev.function).run
    subClass := (subClass space dev.seg dev.bus dev.slot dev.function).run
    revision := (revisionId space dev.seg dev.bus dev.slot dev.function).run }

variable (cfg : Config)

-- The branch of `check_function` for a bridge, up to the scan of the bus behind it.
def bridgeNode (t : PciTree) (parent : Option NodePtr) (segId busId slot function : Nat)
    : Except Fault PciTree := do
  let secondary := (secondaryBus space segId busId slot function).run.toNat
  let (dev, t) := t.pciCreateBus 0
  let dev ← devNodeAttach cfg dev parent
  let dev := { dev with
    bus := some (0, secondary)
    dev := pciDevCommonRead space
      { dev.dev with seg := segId, bus := busId, slot := slot, function := function } }
  return t.push dev

def deviceNode (t : PciTree) (bus segId busId slot function : Nat) : Except Fault PciTree := do
  let dev := pciCreateDevice slot function
  let dev := { dev with
    dev := pciDevCommonRead space
      { dev.dev with seg := segId, bus := busId, slot := slot, function := function } }
  let dev ← devNodeAttach cfg dev (some (.node bus))
  return t.push dev

variable (scan : PciTree → Nat → Except Fault PciTree)

def checkFunction (t : PciTree) (bus slot function : Nat) : Except Fault PciTree :=
  match t.nodes[bus]? with
  | some ⟨_, parent, _, some (segId, busId)⟩ => do
    let classcode := (classCode space segId busId slot function).run
    let subclass := (subClass space segId busId slot function).run
    if classcode = 0x6 ∧ subclass = 0x0 then
      -- host bridge
      return t
    else if classcode = 0x6 ∧ subclass = 0x4 then
      -- pci-to-pci
      let dev := t.nodes.length
      let t ← bridgeNode space cfg t parent segId busId slot function
      let t ← scan t dev
      deviceNode space cfg t bus segId busId slot function
    else
      deviceNode space cfg t bus segId busId slot function
  | _ => .error .undefined

def checkSlot (t : PciTree) (bus slot : Nat) : Except Fault PciTree :=
  match t.nodes[bus]? with
  | some ⟨_, _, _, some (segId, busId)⟩ => do
    let vendor := (vendorId space segId busId slot 0).run
    if vendor = 0xFFFF then
      return t
    else
      let t ← checkFunction space cfg scan t bus slot 0
      if (headerType space segId busId slot 0).run &&& 0x80 ≠ 0 then
        (List.range' 1 7).foldlM (fun t function =>
          if (vendorId space segId busId slot function).run ≠ 0xFFFF then
            checkFunction space cfg scan t bus slot function
          else
            return t) t
      else
        return t
  | _ => .error .undefined

-- bridges lead back here
def checkBus : Nat → PciTree → Nat → Except Fault PciTree
  | 0, _, _ => .error .fuel
  | fuel + 1, t, bus =>
    (List.range 32).foldlM (fun t slot => checkSlot space cfg (checkBus fuel) t bus slot) t

def rootBus (fuel : Nat) (t : PciTree) (busId function : Nat) : Except Fault PciTree := do
  let bus := t.nodes.length
  let (dev, t) := t.pciCreateBus 0
  let dev ← devNodeAttach cfg dev (some .proot)
  let dev := { dev with
    bus := some (0, busId)
    dev := { dev.dev with seg := 0, bus := 0, slot := 0, function := function } }
  checkBus space cfg fuel (t.push dev) bus

-- the functions of a multi-function host bridge are the buses 0 to 7
def rootBuses (fuel : Nat) : List Nat → PciTree → Except Fault PciTree
  | [], t => return t
  | function :: functions, t =>
    if (vendorId space 0 0 0 function).run = 0xFFFF then
      return t
    else do
      let t ← rootBus space cfg fuel t function function
      rootBuses fuel functions t

def pciInit (fuel : Nat) (t : PciTree) : Except Fault PciTree :=
  let hdr := (headerType space 0 0 0 0).run
  if hdr &&& 0x80 = 0 then
    rootBus space cfg fuel t 0 0
  else
    rootBuses space cfg fuel (List.range 8) t

end Pci
end Nyy
