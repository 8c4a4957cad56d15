import NyyKernel.Lib.Bytes
import NyyKernel.Lib.Forest
import NyyKernel.Pci.Impl

namespace Nyy
namespace Pci

variable (space : ReadFn Id)

section Space

-- bits of a register of the configuration header, lowest first
def field (b slot function offset low width : Nat) : BitVec width :=
  (space 0 b slot function offset).run.extractLsb' low width

def vendor (b slot function : Nat) : BitVec 16 := field space b slot function 0x0 0 16

-- bit 7 of the header type, which is the third byte of its register
def MultiFunction (b slot : Nat) : Prop := (space 0 b slot 0 0xC).run.getLsbD 23

def Present (b slot function : Nat) : Prop :=
  slot < 32 ∧ function < 8 ∧ vendor space b slot 0 ≠ 0xFFFF ∧
    (function = 0 ∨ (MultiFunction space b slot ∧ vendor space b slot function ≠ 0xFFFF))

def IsClass (b slot function : Nat) (classcode subclass : BitVec 8) : Prop :=
  field space b slot function 0x8 24 8 = classcode ∧ field space b slot function 0x8 16 8 = subclass

def HostBridge (b slot function : Nat) : Prop := IsClass space b slot function 0x6 0x0

def Bridge (b slot function : Nat) : Prop := IsClass space b slot function 0x6 0x4

instance (b slot : Nat) : Decidable (MultiFunction space b slot) :=
  inferInstanceAs (Decidable (_ = true))

instance (b slot function : Nat) : Decidable (HostBridge space b slot function) :=
  inferInstanceAs (Decidable (_ ∧ _))

instance (b slot function : Nat) : Decidable (Bridge space b slot function) :=
  inferInstanceAs (Decidable (_ ∧ _))

def secondary (b slot function : Nat) : Nat := (field space b slot function 0x18 8 8).toNat

inductive BusReachable : Nat → Prop where
  | zero : BusReachable 0
  | bridge {b slot function : Nat} : BusReachable b → Present space b slot function →
    Bridge space b slot function → BusReachable (secondary space b slot function)

structure BridgeTree : Prop where
  secondary_gt : ∀ b slot function, BusReachable space b → Present space b slot function →
    Bridge space b slot function → b < secondary space b slot function
  secondary_inj : ∀ b slot function b' slot' function', BusReachable space b →
    Present space b slot function → Bridge space b slot function → BusReachable space b' →
    Present space b' slot' function' → Bridge space b' slot' function' →
    secondary space b slot function = secondary space b' slot' function' →
    b = b' ∧ slot = slot' ∧ function = function'

def deviceAt (b slot function : Nat) : PciDevice where
  seg := 0
  bus := b
  slot := slot
  function := function
  vendorId := vendor space b slot function
  deviceId := field space b slot function 0x0 16 16
  classCode := field space b slot function 0x8 24 8
  subClass := field space b slot function 0x8 16 8
  revision := field space b slot function 0x8 0 8

end Space

section Readers

open Bytes

variable {space} {b slot function : Nat}

theorem setWidth_third (v : BitVec 32) : ((v &&& 0x00FF0000) >>> 16).setWidth 8 = v.extractLsb' 16 8 := by
  rw [BitVec.ushiftRight_and_distrib]
  exact read_field 16 v (by decide)

theorem vendorId_eq : (vendorId space 0 b slot function).run = vendor space b slot function := by
  exact read_field 0 _ (by decide)

theorem headerType_iff
    : (headerType space 0 b slot 0).run &&& 0x80 ≠ 0 ↔ MultiFunction space b slot := by
  have hheader : (headerType space 0 b slot 0).run = field space b slot 0 0xC 16 8 := setWidth_third _
  have hbit : MultiFunction space b slot ↔ (field space b slot 0 0xC 16 8).getLsbD 7 := by
    unfold MultiFunction field
    rw [BitVec.getLsbD_extractLsb']
    rfl
  rw [hheader, hbit]
  generalize field space b slot 0 0xC 16 8 = header
  revert header
  decide

theorem classCode_eq : (classCode space 0 b slot function).run = field space b slot function 0x8 24 8 := by
  exact @BitVec.setWidth_ushiftRight_eq_extractLsb 32 24 8 _

theorem subClass_eq : (subClass space 0 b slot function).run = field space b slot function 0x8 16 8 := by
  exact setWidth_third _

theorem secondaryBus_eq
    : (secondaryBus space 0 b slot function).run = field space b slot function 0x18 8 8 := by
  have hword : (pciRead16 space 0 b slot function 0x18).run = field space b slot function 0x18 0 16 :=
    read_field 0 _ (by decide)
  show ((pciRead16 space 0 b slot function 0x18).run >>> 8).setWidth 8 = _
  rw [hword, BitVec.setWidth_ushiftRight_eq_extractLsb]
  unfold field
  ext i hi
  simp

theorem pciDevCommonRead_eq
    : pciDevCommonRead space ⟨0, b, slot, function, 0, 0, 0, 0, 0⟩ = deviceAt space b slot function := by
  have hdevice : (deviceId space 0 b slot function).run = field space b slot function 0x0 16 16 :=
    @BitVec.setWidth_ushiftRight_eq_extractLsb 32 16 16 _
  have hrevision : (revisionId space 0 b slot function).run = field space b slot function 0x8 0 8 :=
    read_field 0 _ (by decide)
  unfold pciDevCommonRead deviceAt
  simp only [vendorId_eq, hdevice, classCode_eq, subClass_eq, hrevision]

end Readers

section Lists

def functionsOf (b slot : Nat) : List Nat :=
  if vendor space b slot 0 = 0xFFFF then
    []
  else
    0 :: if MultiFunction space b slot then
        (List.range' 1 7).filter fun function => vendor space b slot function ≠ 0xFFFF
      else
        []

def functionsOn (b : Nat) : List (Nat × Nat) :=
  (List.range 32).flatMap fun slot => (functionsOf space b slot).map (Prod.mk slot)

def children (b : Nat) : List Nat :=
  ((functionsOn space b).filter fun f => Bridge space b f.1 f.2).map fun f => secondary space b f.1 f.2

def keysOn (b : Nat) : List (Nat × Nat × Nat) :=
  ((functionsOn space b).filter fun f => ¬ HostBridge space b f.1 f.2).map (Prod.mk b)

variable {space} {b slot function c : Nat}

theorem mem_functionsOf
    : (slot < 32 ∧ function ∈ functionsOf space b slot) ↔ Present space b slot function := by
  unfold functionsOf Present
  split_ifs with hvendor hheader
  . simp [hvendor]
  . simp only [List.mem_cons, List.mem_filter, List.mem_range'_1, decide_eq_true_eq]
    grind
  . simp only [List.mem_cons, List.not_mem_nil]
    grind

theorem nodup_functionsOf : (functionsOf space b slot).Nodup := by
  unfold functionsOf
  split_ifs
  . exact List.nodup_nil
  . refine List.nodup_cons.mpr ⟨?_, ?_⟩
    . simp
    . exact List.Nodup.filter _ (List.nodup_range' ..)
  . exact List.nodup_singleton 0

theorem mem_functionsOn
    : (slot, function) ∈ functionsOn space b ↔ Present space b slot function := by
  rw [← mem_functionsOf]
  unfold functionsOn
  simp

theorem nodup_functionsOn : (functionsOn space b).Nodup := by
  refine List.nodup_flatMap.mpr ⟨?_, ?_⟩
  . intro slot _
    exact nodup_functionsOf.map (Prod.mk_right_injective slot)
  . refine (List.nodup_range (n := 32)).imp ?_
    intro slot slot' hne f hf hf'
    rcases List.mem_map.mp hf with ⟨_, _, rfl⟩
    rcases List.mem_map.mp hf' with ⟨_, _, heq⟩
    exact hne (congrArg Prod.fst heq).symm

theorem mem_children
    : c ∈ children space b ↔ ∃ slot function, Present space b slot function ∧
        Bridge space b slot function ∧ c = secondary space b slot function := by
  unfold children
  simp only [List.mem_map, List.mem_filter, decide_eq_true_eq, Prod.exists, mem_functionsOn]
  grind

theorem mem_keysOn {key : Nat × Nat × Nat}
    : key ∈ keysOn space b ↔ key.1 = b ∧ Present space b key.2.1 key.2.2 ∧
        ¬ HostBridge space b key.2.1 key.2.2 := by
  rcases key with ⟨c, slot, function⟩
  unfold keysOn
  simp only [List.mem_map, List.mem_filter, decide_eq_true_eq, Prod.exists, mem_functionsOn]
  grind

theorem nodup_keysOn : (keysOn space b).Nodup := by
  exact (nodup_functionsOn.filter _).map (Prod.mk_right_injective b)

theorem busReachable_iff : BusReachable space c ↔ Descends (children space) 0 c := by
  constructor
  . intro h
    induction h with
    | zero => exact .refl
    | bridge _ hpresent hbridge ih => exact ih.step (mem_children.mpr ⟨_, _, hpresent, hbridge, rfl⟩)
  . intro h
    induction h with
    | refl => exact .zero
    | step _ hmem ih =>
      rcases mem_children.mp hmem with ⟨slot, function, hpresent, hbridge, rfl⟩
      exact ih.bridge hpresent hbridge

theorem secondary_lt : secondary space b slot function < 256 := by
  exact (field space b slot function 0x18 8 8).isLt

theorem BridgeTree.isTree (h : BridgeTree space) : IsTree (children space) id 256 0 := by
  constructor
  . intro b c hb hc
    rcases mem_children.mp hc with ⟨slot, function, hpresent, hbridge, rfl⟩
    exact h.secondary_gt b slot function (busReachable_iff.mpr hb) hpresent hbridge
  . intro b hb
    cases hb with
    | refl => decide
    | step _ hmem =>
      rcases mem_children.mp hmem with ⟨slot, function, _, _, rfl⟩
      exact secondary_lt
  . intro b hb
    refine (nodup_functionsOn.filter _).map_on ?_
    intro f hf g hg heq
    simp only [List.mem_filter, decide_eq_true_eq] at hf hg
    have hb := busReachable_iff.mpr hb
    have hsame := h.secondary_inj b f.1 f.2 b g.1 g.2 hb (mem_functionsOn.mp hf.1) hf.2 hb
      (mem_functionsOn.mp hg.1) hg.2 heq
    exact Prod.ext hsame.2.1 hsame.2.2
  . intro a b c ha hb hca hcb
    rcases mem_children.mp hca with ⟨slot, function, hpresent, hbridge, rfl⟩
    rcases mem_children.mp hcb with ⟨slot', function', hpresent', hbridge', heq⟩
    exact (h.secondary_inj a slot function b slot' function' (busReachable_iff.mpr ha) hpresent hbridge
      (busReachable_iff.mpr hb) hpresent' hbridge' heq).1

end Lists

section Traversal

variable {space} {cfg : Config} {t t' t'' : PciTree} {ids ids' : List Nat}
  {keys keys' : List (Nat × Nat × Nat)} {b bus slot function i : Nat} {new : List PciNode}
  {f : PciTree → Except Fault PciTree} {β : Type}

def busIds (nodes : List PciNode) : List Nat := nodes.filterMap fun n => n.bus.map Prod.snd

def deviceKeys (nodes : List PciNode) : List (Nat × Nat × Nat) :=
  (nodes.filter fun n => n.bus.isNone).map fun n => (n.dev.bus, n.dev.slot, n.dev.function)

def IsBus (b : Nat) (n : PciNode) : Prop := n.bus = some (0, b) ∧ n.parent = some .proot

def Attached (space : ReadFn Id) (nodes : List PciNode) (n : PciNode) : Prop :=
  n.dev = deviceAt space n.dev.bus n.dev.slot n.dev.function ∧
    ∃ i bn, n.parent = some (.node i) ∧ nodes[i]? = some bn ∧ IsBus n.dev.bus bn

structure Grows (space : ReadFn Id) (t t' : PciTree) (ids : List Nat) (keys : List (Nat × Nat × Nat))
    (new : List PciNode) : Prop where
  nodes : t'.nodes = t.nodes ++ new
  ids : busIds new = ids
  keys : (deviceKeys new).Perm keys
  bus : ∀ n ∈ new, n.bus ≠ none → ∃ b, IsBus b n
  device : ∀ n ∈ new, n.bus = none → Attached space t'.nodes n

theorem Grows.refl (t : PciTree) : Grows space t t [] [] [] := by
  refine ⟨by simp, rfl, .refl _, ?_, ?_⟩ <;> simp

theorem Grows.getElem? {bn : PciNode} (h : Grows space t t' ids keys new) (hi : t.nodes[i]? = some bn)
    : t'.nodes[i]? = some bn := by
  rcases List.getElem?_eq_some_iff.mp hi with ⟨hlt, _⟩
  rw [h.nodes, List.getElem?_append_left hlt, hi]

theorem Attached.mono {nodes : List PciNode} {n : PciNode} (h : Attached space nodes n)
    : Attached space (nodes ++ new) n := by
  rcases h with ⟨hdev, i, bn, hparent, hi, hbus⟩
  rcases List.getElem?_eq_some_iff.mp hi with ⟨hlt, _⟩
  refine ⟨hdev, i, bn, hparent, ?_, hbus⟩
  rw [List.getElem?_append_left hlt, hi]

theorem Grows.trans {new' : List PciNode} (h : Grows space t t' ids keys new)
    (h' : Grows space t' t'' ids' keys' new')
    : Grows space t t'' (ids ++ ids') (keys ++ keys') (new ++ new') := by
  constructor
  . rw [h'.nodes, h.nodes, List.append_assoc]
  . rw [← h.ids, ← h'.ids]
    exact List.filterMap_append
  . have hsplit : deviceKeys (new ++ new') = deviceKeys new ++ deviceKeys new' := by
      simp [deviceKeys]
    rw [hsplit]
    exact h.keys.append h'.keys
  . intro n hn
    rcases List.mem_append.mp hn with hn | hn
    . exact h.bus n hn
    . exact h'.bus n hn
  . intro n hn hnone
    rcases List.mem_append.mp hn with hn | hn
    . rw [h'.nodes]
      exact (h.device n hn hnone).mono
    . exact h'.device n hn hnone

def HasBus (t : PciTree) (i b : Nat) : Prop := ∃ bn, t.nodes[i]? = some bn ∧ IsBus b bn

def Extends (space : ReadFn Id) (f : PciTree → Except Fault PciTree) (i b : Nat) (ids : List Nat)
    (keys : List (Nat × Nat × Nat)) : Prop :=
  ∀ t, HasBus t i b → ∃ t' new, f t = .ok t' ∧ Grows space t t' ids keys new

theorem Grows.hasBus (h : Grows space t t' ids keys new) (hbus : HasBus t i b) : HasBus t' i b := by
  rcases hbus with ⟨bn, hi, hbn⟩
  exact ⟨bn, h.getElem? hi, hbn⟩

theorem Extends.pure : Extends space (fun t => .ok t) i b [] [] := by
  intro t _
  exact ⟨t, [], rfl, Grows.refl t⟩

theorem Extends.bind {g : PciTree → Except Fault PciTree} (hf : Extends space f i b ids keys)
    (hg : Extends space g i b ids' keys')
    : Extends space (fun t => f t >>= g) i b (ids ++ ids') (keys ++ keys') := by
  intro t hbus
  rcases hf t hbus with ⟨t', new, hft, hgrow⟩
  rcases hg t' (hgrow.hasBus hbus) with ⟨t'', new', hgt, hgrow'⟩
  refine ⟨t'', new ++ new', ?_, hgrow.trans hgrow'⟩
  show (f t >>= g) = _
  rw [hft]
  exact hgt

theorem Extends.of_perm (h : Extends space f i b ids keys) (hkeys : keys.Perm keys')
    : Extends space f i b ids keys' := by
  intro t hbus
  rcases h t hbus with ⟨t', new, hft, hgrow⟩
  exact ⟨t', new, hft, ⟨hgrow.nodes, hgrow.ids, hgrow.keys.trans hkeys, hgrow.bus, hgrow.device⟩⟩

theorem Extends.foldlM {f : PciTree → β → Except Fault PciTree} (idsOf : β → List Nat)
    (keysOf : β → List (Nat × Nat × Nat)) (l : List β)
    (hf : ∀ x ∈ l, Extends space (fun t => f t x) i b (idsOf x) (keysOf x))
    : Extends space (fun t => l.foldlM f t) i b (l.flatMap idsOf) (l.flatMap keysOf) := by
  induction l with
  | nil => exact Extends.pure
  | cons x l ih =>
    have hx := hf x List.mem_cons_self
    have hl := ih fun y hy => hf y (List.mem_cons_of_mem _ hy)
    exact hx.bind hl

theorem deviceNode_extends (space : ReadFn Id) (cfg : Config) (i b slot function : Nat)
    : Extends space (fun t => deviceNode space cfg t i 0 b slot function) i b []
        [(b, slot, function)] := by
  rintro t ⟨bn, hi, hbn⟩
  rcases List.getElem?_eq_some_iff.mp hi with ⟨hlt, _⟩
  refine ⟨t.push { pciCreateDevice slot function with
      parent := some (.node i), dev := deviceAt space b slot function }, _, ?_, rfl, rfl, .refl _, ?_, ?_⟩
  . dsimp only
    unfold deviceNode devNodeAttach
    dsimp only
    rw [check_of cfg (by rfl), check_of cfg (by rfl), ← pciDevCommonRead_eq]
    rfl
  . intro n hn hne
    rw [List.mem_singleton] at hn
    subst hn
    exact absurd rfl hne
  . intro n hn _
    rw [List.mem_singleton] at hn
    subst hn
    refine ⟨rfl, i, bn, rfl, ?_, hbn⟩
    simp only [PciTree.push]
    rw [List.getElem?_append_left hlt, hi]

theorem bridgeNode_eq_ok (space : ReadFn Id) (cfg : Config) (t : PciTree) (b slot function : Nat)
    : ∃ t' new, bridgeNode space cfg t (some .proot) 0 b slot function = .ok t' ∧
        Grows space t t' [secondary space b slot function] [] new ∧
        HasBus t' t.nodes.length (secondary space b slot function) := by
  refine ⟨(t.pciCreateBus 0).2.push { (t.pciCreateBus 0).1 with
      parent := some .proot
      bus := some (0, secondary space b slot function)
      dev := deviceAt space b slot function }, _, ?_, ⟨rfl, rfl, .refl _, ?_, ?_⟩, ?_⟩
  . unfold bridgeNode devNodeAttach
    dsimp only
    rw [check_of cfg (by rfl), check_of cfg (by rfl), secondaryBus_eq, ← pciDevCommonRead_eq]
    rfl
  . intro n hn _
    rw [List.mem_singleton] at hn
    subst hn
    exact ⟨_, rfl, rfl⟩
  . simp
  . refine ⟨_, List.getElem?_concat_length, rfl, rfl⟩

def rootNode (t : PciTree) (busId function : Nat) : PciNode :=
  { (t.pciCreateBus 0).1 with
    parent := some .proot, bus := some (0, busId), dev := ⟨0, 0, 0, function, 0, 0, 0, 0, 0⟩ }

theorem rootBus_eq {fuel : Nat}
    : rootBus space cfg fuel t b function =
        checkBus space cfg fuel ((t.pciCreateBus 0).2.push (rootNode t b function)) t.nodes.length := by
  unfold rootBus devNodeAttach
  dsimp only
  rw [check_of cfg (by rfl), check_of cfg (by rfl)]
  rfl

section Function

variable {scan : PciTree → Nat → Except Fault PciTree} {below : Nat → List Nat}
  {keysBelow : Nat → List (Nat × Nat × Nat)} {i : Nat}

def idsOf (space : ReadFn Id) (below : Nat → List Nat) (b : Nat) (f : Nat × Nat) : List Nat :=
  if Bridge space b f.1 f.2 then
    secondary space b f.1 f.2 :: below (secondary space b f.1 f.2)
  else
    []

def keysOf (space : ReadFn Id) (keysBelow : Nat → List (Nat × Nat × Nat)) (b : Nat) (f : Nat × Nat)
    : List (Nat × Nat × Nat) :=
  (if Bridge space b f.1 f.2 then keysBelow (secondary space b f.1 f.2) else []) ++
    (if HostBridge space b f.1 f.2 then [] else [(b, f)])

theorem HostBridge.not_bridge (h : HostBridge space b slot function)
    : ¬ Bridge space b slot function := by
  intro hbridge
  have := h.2.symm.trans hbridge.2
  contradiction

theorem checkFunction_eq (hbus : HasBus t i b)
    : checkFunction space cfg scan t i slot function =
      if HostBridge space b slot function then
        .ok t
      else if Bridge space b slot function then do
        let t' ← bridgeNode space cfg t (some .proot) 0 b slot function
        let t' ← scan t' t.nodes.length
        deviceNode space cfg t' i 0 b slot function
      else
        deviceNode space cfg t i 0 b slot function := by
  rcases hbus with ⟨⟨name, parent, dev, bn⟩, hi, rfl, rfl⟩
  unfold checkFunction
  rw [hi]
  simp only [classCode_eq, subClass_eq]
  rfl

theorem checkSlot_eq (hbus : HasBus t i b)
    : checkSlot space cfg scan t i slot = (functionsOf space b slot).foldlM
        (fun t function => checkFunction space cfg scan t i slot function) t := by
  rcases hbus with ⟨⟨name, parent, dev, bn⟩, hi, rfl, rfl⟩
  unfold checkSlot functionsOf
  rw [hi]
  simp only [vendorId_eq, headerType_iff]
  split
  . rfl
  . split
    . simp only [List.foldlM_cons, List.foldlM_filter, decide_eq_true_eq]
    . rfl

theorem checkFunction_extends
    (hscan : Bridge space b slot function → ∀ j, Extends space (fun t => scan t j) j
      (secondary space b slot function) (below (secondary space b slot function))
      (keysBelow (secondary space b slot function)))
    : Extends space (fun t => checkFunction space cfg scan t i slot function) i b
        (idsOf space below b (slot, function)) (keysOf space keysBelow b (slot, function)) := by
  rintro t hbus
  dsimp only
  rw [checkFunction_eq hbus]
  unfold idsOf keysOf
  by_cases hhost : HostBridge space b slot function
  . simp only [if_pos hhost, if_neg hhost.not_bridge]
    exact ⟨t, [], rfl, Grows.refl t⟩
  . by_cases hbridge : Bridge space b slot function
    . simp only [if_neg hhost, if_pos hbridge]
      rcases bridgeNode_eq_ok space cfg t b slot function with ⟨t1, new1, h1, hgrow1, hbus1⟩
      rcases hscan hbridge t.nodes.length t1 hbus1 with ⟨t2, new2, h2, hgrow2⟩
      have hgrow := hgrow1.trans hgrow2
      rcases deviceNode_extends space cfg i b slot function t2 (hgrow.hasBus hbus) with
        ⟨t3, new3, h3, hgrow3⟩
      refine ⟨t3, new1 ++ new2 ++ new3, ?_, ?_⟩
      . rw [h1, Except.ok_bind]
        dsimp only at h2
        rw [h2]
        exact h3
      . simpa using hgrow.trans hgrow3
    . simp only [if_neg hhost, if_neg hbridge]
      exact deviceNode_extends space cfg i b slot function t hbus

theorem flatMap_filter {α β : Type} (p : α → Bool) (g : α → List β) (l : List α)
    : (l.filter p).flatMap g = l.flatMap fun x => if p x then g x else [] := by
  induction l with
  | nil => rfl
  | cons x l ih =>
    by_cases hx : p x
    . simp [hx, ih]
    . simp [hx, ih]

theorem checkSlot_extends (hslot : slot < 32)
    (hscan : ∀ function, Present space b slot function → Bridge space b slot function →
      ∀ j, Extends space (fun t => scan t j) j (secondary space b slot function)
        (below (secondary space b slot function)) (keysBelow (secondary space b slot function)))
    : Extends space (fun t => checkSlot space cfg scan t i slot) i b
        (((functionsOf space b slot).map (Prod.mk slot)).flatMap (idsOf space below b))
        (((functionsOf space b slot).map (Prod.mk slot)).flatMap (keysOf space keysBelow b)) := by
  have hfunction : ∀ function ∈ functionsOf space b slot,
      Extends space (fun t => checkFunction space cfg scan t i slot function) i b
        (idsOf space below b (slot, function)) (keysOf space keysBelow b (slot, function)) := by
    intro function hmem
    exact checkFunction_extends (hscan function (mem_functionsOf.mp ⟨hslot, hmem⟩))
  intro t hbus
  dsimp only
  rw [checkSlot_eq hbus, List.flatMap_map, List.flatMap_map]
  exact Extends.foldlM _ _ _ hfunction t hbus

theorem checkSlots_extends
    (hscan : ∀ slot function, Present space b slot function → Bridge space b slot function →
      ∀ j, Extends space (fun t => scan t j) j (secondary space b slot function)
        (below (secondary space b slot function)) (keysBelow (secondary space b slot function)))
    : Extends space
        (fun t => (List.range 32).foldlM (fun t slot => checkSlot space cfg scan t i slot) t) i b
        ((functionsOn space b).flatMap (idsOf space below b))
        ((functionsOn space b).flatMap (keysOf space keysBelow b)) := by
  unfold functionsOn
  rw [List.flatMap_assoc, List.flatMap_assoc]
  refine Extends.foldlM _ _ _ ?_
  intro slot hslot
  exact checkSlot_extends (List.mem_range.mp hslot) (hscan slot)

theorem idsOn_eq (n : Nat) (hn : ∀ c ∈ children space b, 0 < n)
    : (functionsOn space b).flatMap (idsOf space (fun c => (preorder (children space) n c).tail) b) =
        (preorder (children space) (n + 1) b).tail := by
  show _ = (children space b).flatMap (preorder (children space) n)
  unfold children
  rw [List.flatMap_map, flatMap_filter]
  apply List.flatMap_congr
  rintro ⟨slot, function⟩ hf
  unfold idsOf
  by_cases hbridge : Bridge space b slot function
  . have hpos := hn _ (mem_children.mpr ⟨slot, function, mem_functionsOn.mp hf, hbridge, rfl⟩)
    rcases Nat.exists_eq_succ_of_ne_zero hpos.ne' with ⟨k, rfl⟩
    simp [hbridge, preorder]
  . simp [hbridge]

theorem keysOn_perm (n : Nat)
    : ((functionsOn space b).flatMap
        (keysOf space (fun c => (preorder (children space) n c).flatMap (keysOn space)) b)).Perm
        ((preorder (children space) (n + 1) b).flatMap (keysOn space)) := by
  have hbelow : (functionsOn space b).flatMap (fun f => if Bridge space b f.1 f.2 then
      (preorder (children space) n (secondary space b f.1 f.2)).flatMap (keysOn space) else []) =
      ((children space b).flatMap (preorder (children space) n)).flatMap (keysOn space) := by
    unfold children
    rw [List.flatMap_assoc, List.flatMap_map, flatMap_filter]
    simp
  have hhere : (functionsOn space b).flatMap (fun f => if HostBridge space b f.1 f.2 then [] else
      [(b, f)]) = keysOn space b := by
    unfold keysOn
    rw [List.map_eq_flatMap, flatMap_filter]
    apply List.flatMap_congr
    intro f _
    by_cases hhost : HostBridge space b f.1 f.2 <;> simp [hhost]
  refine (List.flatMap_append_perm _ _ _).symm.trans ?_
  rw [hbelow, hhere]
  exact List.perm_append_comm

theorem checkBus_extends (cfg : Config) (htree : IsTree (children space) id 256 0) {n : Nat}
    (hb : Descends (children space) 0 b) (hn : 256 ≤ b + n)
    : Extends space (fun t => checkBus space cfg n t i) i b (preorder (children space) n b).tail
        ((preorder (children space) n b).flatMap (keysOn space)) := by
  -- on the depth: a bridge leads to a bus with a higher number
  induction n generalizing b i with
  | zero =>
    have := htree.bounded b hb
    simp only [id] at this
    omega
  | succ n ih =>
    have hchild : ∀ c ∈ children space b, 256 ≤ c + n ∧ c < 256 := by
      intro c hc
      have hlt := htree.rank_lt b c hb hc
      have hbound := htree.bounded c (hb.step hc)
      simp only [id] at hlt hbound
      omega
    refine Extends.of_perm ?_ (keysOn_perm n)
    rw [← idsOn_eq n fun c hc => by have := hchild c hc; omega]
    refine checkSlots_extends ?_
    intro slot function hpresent hbridge j
    have hmem : secondary space b slot function ∈ children space b :=
      mem_children.mpr ⟨slot, function, hpresent, hbridge, rfl⟩
    exact ih (hb.step hmem) (hchild _ hmem).1

end Function

theorem nodup_keys {l : List Nat} (hl : l.Nodup) : (l.flatMap (keysOn space)).Nodup := by
  refine List.nodup_flatMap.mpr ⟨fun _ _ => nodup_keysOn, ?_⟩
  refine hl.imp ?_
  intro b c hne key hb hc
  exact hne ((mem_keysOn.mp hb).1.symm.trans (mem_keysOn.mp hc).1)

/--
If the bridges form a tree then `pci_init` returns, with one node for every bus that is reachable and
one device for every function there.
-/
theorem pci_enumeration (space : ReadFn Id) (cfg : Config) (hheader : ¬ MultiFunction space 0 0)
    (htree : BridgeTree space) (busCnt : Nat) {fuel : Nat} (hfuel : 256 ≤ fuel)
    : ∃ t, pciInit space cfg fuel ⟨[], busCnt⟩ = .ok t ∧
        (busIds t.nodes).Nodup ∧ (∀ b, b ∈ busIds t.nodes ↔ BusReachable space b) ∧
        (∀ n ∈ t.nodes, n.bus ≠ none → ∃ b, IsBus b n) ∧
        (deviceKeys t.nodes).Nodup ∧
        (∀ b slot function, (b, slot, function) ∈ deviceKeys t.nodes ↔
          BusReachable space b ∧ Present space b slot function ∧ ¬ HostBridge space b slot function) ∧
        ∀ n ∈ t.nodes, n.bus = none → Attached space t.nodes n := by
  have htree := htree.isTree
  have hdepth : 256 ≤ id 0 + fuel := by simpa using hfuel
  rcases Nat.exists_eq_succ_of_ne_zero (show fuel ≠ 0 by omega) with ⟨k, rfl⟩
  let bn := rootNode ⟨[], busCnt⟩ 0 0
  have hbn : IsBus 0 bn := ⟨rfl, rfl⟩
  have hinit : pciInit space cfg (k + 1) ⟨[], busCnt⟩ =
      checkBus space cfg (k + 1) ⟨[bn], busCnt + 1⟩ 0 := by
    unfold pciInit
    rw [if_pos (not_not.mp (mt headerType_iff.mp hheader)), rootBus_eq]
    rfl
  have hbus : HasBus ⟨[bn], busCnt + 1⟩ 0 0 := ⟨bn, rfl, hbn⟩
  rcases checkBus_extends cfg htree .refl hdepth _ hbus with ⟨t, new, ht, hgrow⟩
  have hnodes : t.nodes = bn :: new := hgrow.nodes
  have hids : busIds t.nodes = preorder (children space) (k + 1) 0 := by
    rw [hnodes]
    show 0 :: busIds new = _
    rw [hgrow.ids]
    rfl
  have hkeys : (deviceKeys t.nodes).Perm
      ((preorder (children space) (k + 1) 0).flatMap (keysOn space)) := by
    rw [hnodes]
    exact hgrow.keys
  refine ⟨t, hinit.trans ht, ?_, ?_, ?_, ?_, ?_, ?_⟩
  . rw [hids]
    exact htree.nodup_preorder .refl hdepth
  . intro b
    rw [hids, htree.mem_preorder .refl hdepth, busReachable_iff]
  . intro n hn hne
    rw [hnodes] at hn
    rcases List.mem_cons.mp hn with rfl | hn
    . exact ⟨0, hbn⟩
    . exact hgrow.bus n hn hne
  . rw [hkeys.nodup_iff]
    exact nodup_keys (htree.nodup_preorder .refl hdepth)
  . intro b slot function
    rw [hkeys.mem_iff, List.mem_flatMap]
    constructor
    . rintro ⟨c, hc, hkey⟩
      rcases mem_keysOn.mp hkey with ⟨rfl, hpresent, hhost⟩
      rw [htree.mem_preorder .refl hdepth, ← busReachable_iff] at hc
      exact ⟨hc, hpresent, hhost⟩
    . rintro ⟨hb, hpresent, hhost⟩
      refine ⟨b, ?_, mem_keysOn.mpr ⟨rfl, hpresent, hhost⟩⟩
      rw [htree.mem_preorder .refl hdepth, ← busReachable_iff]
      exact hb
  . intro n hn hnone
    rw [hnodes] at hn
    rcases List.mem_cons.mp hn with rfl | hn
    . cases hnone
    . exact hgrow.device n hn hnone

end Traversal

def oneBridge : ReadFn Id := fun _ b slot function offset =>
  if b = 0 ∧ slot = 0 ∧ function = 0 then
    0
  else if b = 0 ∧ slot = 1 ∧ function = 0 then
    if offset = 0x8 then 0x06040000 else if offset = 0x18 then 0x100 else 0
  else if b = 1 ∧ slot = 2 ∧ function = 0 then
    if offset = 0x0 then 0x12348086 else if offset = 0x8 then 0x03000001 else 0
  else
    0xFFFFFFFF

theorem oneBridge_bridge {b slot function : Nat} (h : Bridge oneBridge b slot function)
    : b = 0 ∧ slot = 1 ∧ function = 0 := by
  by_contra hne
  have hclass := h.1
  unfold field oneBridge at hclass
  rw [if_neg hne] at hclass
  split_ifs at hclass <;> exact absurd hclass (by decide)

theorem pci_enumeration_oneBridge
    : ∃ t, pciInit oneBridge ⟨false⟩ 256 ⟨[], 0⟩ = .ok t ∧
        (∀ b, b ∈ busIds t.nodes ↔ BusReachable oneBridge b) ∧
        ∃ n ∈ t.nodes, n.bus = none ∧ n.dev = ⟨0, 1, 2, 0, 0x8086, 0x1234, 3, 0, 1⟩ := by
  have htree : BridgeTree oneBridge := by
    constructor
    . intro b slot function _ _ hbridge
      rcases oneBridge_bridge hbridge with ⟨rfl, rfl, rfl⟩
      decide
    . intro b slot function b' slot' function' _ _ hbridge _ _ hbridge' _
      rcases oneBridge_bridge hbridge with ⟨rfl, rfl, rfl⟩
      rcases oneBridge_bridge hbridge' with ⟨rfl, rfl, rfl⟩
      exact ⟨rfl, rfl, rfl⟩
  have hpresent : Present oneBridge 0 1 0 ∧ Present oneBridge 1 2 0 := by
    unfold Present
    decide
  have hone : BusReachable oneBridge 1 := .bridge .zero hpresent.1 (by decide)
  rcases pci_enumeration oneBridge ⟨false⟩ (by decide) htree 0 (Nat.le_refl 256) with
    ⟨t, ht, _, hids, _, _, hkeys, hdevices⟩
  refine ⟨t, ht, hids, ?_⟩
  rcases List.mem_map.mp ((hkeys 1 2 0).mpr ⟨hone, hpresent.2, by decide⟩) with ⟨n, hn, hkey⟩
  simp only [List.mem_filter, Option.isNone_iff_eq_none, Prod.mk.injEq] at hn hkey
  have hdev := (hdevices n hn.1 hn.2).1
  rw [hkey.1, hkey.2.1, hkey.2.2] at hdev
  exact ⟨n, hn.1, hn.2, hdev⟩

end Pci
end Nyy
