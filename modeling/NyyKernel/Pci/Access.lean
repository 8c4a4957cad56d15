import NyyKernel.Lib.Bytes
import NyyKernel.Lib.Word
import NyyKernel.Pci.Impl

/-!
This module contains the two ways to access the configuration space in
`kernel/platform/amd64/pci.c`, through I/O ports and through memory, on a model of the hardware.
-/

namespace Nyy
namespace Pci

open Bytes

variable {α : Type}

abbrev Space := Nat → Nat → Nat → Nat → BitVec 8

structure Hardware where
  space : Space
  configAddress : BitVec 32

structure McfgEntry where
  address : Nat
  segment : Nat
  startBus : Fin 256
  endBus : Fin 256
  deriving DecidableEq, Repr

abbrev HwM := StateT Hardware (Except Fault)

def dwordAt (space : Space) (bus slot function offset : Nat) : BitVec 32 :=
  dword fun k => space bus slot function (offset + k)

def setDword (space : Space) (bus slot function offset : Nat) (v : BitVec 32) : Space :=
  fun b s f o =>
    if b = bus ∧ s = slot ∧ f = function ∧ offset ≤ o ∧ o < offset + 4 then
      byte v (o - offset)
    else
      space b s f o

section Legacy

-- outl(PCI_IO_CONFIG_ADDRESS, address)
def outlAddress (address : BitVec 32) : HwM Unit := fun hw => .ok ((), { hw with configAddress := address })

def selectedBus (address : BitVec 32) : Nat := ((address >>> 16) &&& 0xff).toNat
def selectedSlot (address : BitVec 32) : Nat := ((address >>> 11) &&& 0x1f).toNat
def selectedFunction (address : BitVec 32) : Nat := ((address >>> 8) &&& 0x7).toNat
def selectedOffset (address : BitVec 32) : Nat := ((address >>> 2) &&& 0x3f).toNat * 4

-- inl(PCI_IO_CONFIG_DATA), which shows nothing unless bit 31 of the address is set
def inlData : HwM (BitVec 32) := fun hw =>
  let a := hw.configAddress
  if a &&& 0x80000000 = 0 then
    .ok (0xFFFFFFFF, hw)
  else
    .ok (dwordAt hw.space (selectedBus a) (selectedSlot a) (selectedFunction a) (selectedOffset a), hw)

-- outl(PCI_IO_CONFIG_DATA, value)
def outlData (value : BitVec 32) : HwM Unit := fun hw =>
  let a := hw.configAddress
  if a &&& 0x80000000 = 0 then
    .ok ((), hw)
  else
    .ok ((), { hw with
      space := setDword hw.space (selectedBus a) (selectedSlot a) (selectedFunction a) (selectedOffset a)
        value })

def assertHw (cfg : Config) (cond : Bool) : HwM Unit := fun hw => do
  check cfg cond
  return ((), hw)

variable (cfg : Config) (segment bus slot function offset : Nat)

def legacyAsserts : HwM Unit := do
  assertHw cfg (segment == 0)
  assertHw cfg (bus < 256 && slot < 32 && function < 8 && offset < 256)
  assertHw cfg (offset &&& 0b11 == 0)

def legacyAddress : BitVec 32 :=
  0x80000000 ||| BitVec.ofNat 32 bus <<< 16 ||| BitVec.ofNat 32 slot <<< 11 |||
    BitVec.ofNat 32 function <<< 8 ||| (BitVec.ofNat 32 offset &&& ~~~ 3)

def pciLegacyRead : HwM (BitVec 32) := do
  legacyAsserts cfg segment bus slot function offset
  outlAddress (legacyAddress bus slot function offset)
  inlData

def pciLegacyWrite (value : BitVec 32) : HwM Unit := do
  legacyAsserts cfg segment bus slot function offset
  outlAddress (legacyAddress bus slot function offset)
  outlData value

end Legacy

section Mcfg

abbrev Window := Nat → Option (Nat × Nat × Nat × Nat)

def mmioRead (window : Window) (addr : Nat) : HwM (BitVec 32) := fun hw =>
  match window addr with
  | some (bus, slot, function, offset) => .ok (dwordAt hw.space bus slot function offset, hw)
  | none => .error .undefined

def mmioWrite (window : Window) (addr : Nat) (value : BitVec 32) : HwM Unit := fun hw =>
  match window addr with
  | some (bus, slot, function, offset) =>
    .ok ((), { hw with space := setDword hw.space bus slot function offset value })
  | none => .error .undefined

variable (entries : List McfgEntry) (window : Window) (segment bus slot function offset : Nat)

def mcfgBus : Option McfgEntry :=
  entries.find? fun e => e.segment == segment && e.startBus.val ≤ bus && bus ≤ e.endBus.val

def mcfgAddress (entry : McfgEntry) : Nat :=
  Word.add entry.address
      (((bus - entry.startBus.val) <<< 20 ||| slot <<< 15 ||| function <<< 12) % 2 ^ 32) |||
    (offset &&& 0xFFFFFFFC)

def pciMcfgRead : HwM (BitVec 32) :=
  match mcfgBus entries segment bus with
  | none => return 0xFFFFFFFF
  | some entry => mmioRead window (mcfgAddress bus slot function offset entry)

def pciMcfgWrite (value : BitVec 32) : HwM Unit :=
  match mcfgBus entries segment bus with
  -- the source does not look whether there is an entry
  | none => StateT.lift (.error .undefined)
  | some entry => mmioWrite window (mcfgAddress bus slot function offset entry) value

end Mcfg

inductive Access where
  | read8 (bus slot function offset : Nat)
  | read16 (bus slot function offset : Nat)
  | read32 (bus slot function offset : Nat)
  | write8 (bus slot function offset : Nat) (value : BitVec 8)
  | write16 (bus slot function offset : Nat) (value : BitVec 16)
  | write32 (bus slot function offset : Nat) (value : BitVec 32)

namespace Access

def exec (read32 : ReadFn HwM) (write32 : WriteFn HwM) : Access → HwM (BitVec 32)
  | .read8 bus slot function offset => do
    return (← pciRead8 read32 0 bus slot function offset).setWidth 32
  | .read16 bus slot function offset => do
    return (← pciRead16 read32 0 bus slot function offset).setWidth 32
  | .read32 bus slot function offset => pciRead32 read32 0 bus slot function offset
  | .write8 bus slot function offset value => do
    pciWrite8 read32 write32 0 bus slot function offset value
    return 0
  | .write16 bus slot function offset value => do
    pciWrite16 read32 write32 0 bus slot function offset value
    return 0
  | .write32 bus slot function offset value => do
    pciWrite32 write32 0 bus slot function offset value
    return 0

def setByte (space : Space) (bus slot function offset : Nat) (v : BitVec 8) : Space :=
  fun b s f o => if b = bus ∧ s = slot ∧ f = function ∧ o = offset then v else space b s f o

def spec (space : Space) : Access → BitVec 32 × Space
  | .read8 bus slot function offset => ((space bus slot function offset).setWidth 32, space)
  | .read16 bus slot function offset =>
    ((space bus slot function (offset + 1) ++ space bus slot function offset).setWidth 32, space)
  | .read32 bus slot function offset => (dwordAt space bus slot function offset, space)
  | .write8 bus slot function offset value => (0, setByte space bus slot function offset value)
  | .write16 bus slot function offset value =>
    (0, setByte (setByte space bus slot function offset (value.extractLsb' 0 8)) bus slot function
      (offset + 1) (value.extractLsb' 8 8))
  | .write32 bus slot function offset value => (0, setDword space bus slot function offset value)

def bus : Access → Nat
  | .read8 bus _ _ _ | .read16 bus _ _ _ | .read32 bus _ _ _ => bus
  | .write8 bus _ _ _ _ | .write16 bus _ _ _ _ | .write32 bus _ _ _ _ => bus

def offset : Access → Nat
  | .read8 _ _ _ offset | .read16 _ _ _ offset | .read32 _ _ _ offset => offset
  | .write8 _ _ _ offset _ | .write16 _ _ _ offset _ | .write32 _ _ _ offset _ => offset

def InRange : Access → Prop
  | .read8 _ slot function offset => slot < 32 ∧ function < 8 ∧ offset < 256
  | .read16 _ slot function offset => slot < 32 ∧ function < 8 ∧ offset < 256 ∧ offset % 2 = 0
  | .read32 _ slot function offset => slot < 32 ∧ function < 8 ∧ offset < 256 ∧ offset % 4 = 0
  | .write8 _ slot function offset _ => slot < 32 ∧ function < 8 ∧ offset < 256
  | .write16 _ slot function offset _ => slot < 32 ∧ function < 8 ∧ offset < 256 ∧ offset % 2 = 0
  | .write32 _ slot function offset _ => slot < 32 ∧ function < 8 ∧ offset < 256 ∧ offset % 4 = 0

instance : DecidablePred InRange
  | .read8 .. | .write8 .. => inferInstanceAs (Decidable (_ ∧ _ ∧ _))
  | .read16 .. | .read32 .. => inferInstanceAs (Decidable (_ ∧ _ ∧ _ ∧ _))
  | .write16 .. | .write32 .. => inferInstanceAs (Decidable (_ ∧ _ ∧ _ ∧ _))

end Access

def Covered (entries : List McfgEntry) (window : Window) (bus : Nat) : Prop :=
  ∃ e, mcfgBus entries 0 bus = some e ∧ e.address % 4096 = 0 ∧
    ∀ slot < 32, ∀ function < 8, ∀ offset < 4096,
      window (Word.add e.address ((bus - e.startBus.val) * 2 ^ 20 + slot * 2 ^ 15 + function * 2 ^ 12) +
        offset) = some (bus, slot, function, offset)

theorem bind_of {β : Type} {x : HwM α} {f : α → HwM β} {hw hw' : Hardware} {a : α}
    (hx : x hw = .ok (a, hw'))
    : (x >>= f) hw = f a hw' := by
  show (x hw >>= fun r => f r.1 r.2) = _
  rw [hx]
  rfl

def Gives {α : Type} (x : HwM α) (hw : Hardware) (v : α) (space : Space) : Prop :=
  ∃ address, x hw = .ok (v, ⟨space, address⟩)

theorem Gives.bind {β : Type} {x : HwM α} {f : α → HwM β} {hw : Hardware} {a : α} {b : β}
    {space space' : Space} (hx : Gives x hw a space) (hf : ∀ address, Gives (f a) ⟨space, address⟩ b space')
    : Gives (x >>= f) hw b space' := by
  rcases hx with ⟨address, hx⟩
  rcases hf address with ⟨address', hf⟩
  refine ⟨address', ?_⟩
  rw [bind_of hx]
  exact hf

theorem Gives.pure (hw : Hardware) (v : α) : Gives (pure v) hw v hw.space :=
  ⟨hw.configAddress, rfl⟩

theorem assertHw_of {cfg : Config} {cond : Bool} (h : check cfg cond = .ok ()) (hw : Hardware)
    : assertHw cfg cond hw = .ok ((), hw) := by
  unfold assertHw
  rw [h]
  rfl

structure Backend (read32 : ReadFn HwM) (write32 : WriteFn HwM) (Ok : Nat → Nat → Prop) : Prop where
  read : ∀ hw bus slot function offset, Ok bus offset → slot < 32 → function < 8 → offset < 256 →
    Gives (read32 0 bus slot function offset) hw
      (dwordAt hw.space bus slot function (offset / 4 * 4)) hw.space
  write : ∀ hw bus slot function offset v, Ok bus offset → slot < 32 → function < 8 → offset < 256 →
    Gives (write32 0 bus slot function offset v) hw ()
      (setDword hw.space bus slot function (offset / 4 * 4) v)

section Registers

theorem and_three (n : Nat) : n &&& 0b11 = n % 4 := Nat.and_two_pow_sub_one_eq_mod n 2

variable (space : Space) (bus slot function : Nat) {offset : Nat}

theorem byte_dwordAt (offset : Nat)
    : byte (dwordAt space bus slot function (offset / 4 * 4)) (offset &&& 0b11) =
        space bus slot function offset := by
  unfold dwordAt
  rw [and_three, byte_dword _ (by omega)]
  congr 1
  omega

theorem byte_dwordAt_succ (heven : offset % 2 = 0)
    : byte (dwordAt space bus slot function (offset / 4 * 4)) ((offset &&& 0b11) + 1) =
        space bus slot function (offset + 1) := by
  unfold dwordAt
  rw [and_three, byte_dword _ (by omega)]
  congr 1
  omega

theorem setDword_write_byte (offset : Nat) (value : BitVec 8)
    : setDword space bus slot function (offset / 4 * 4)
        (dwordAt space bus slot function (offset / 4 * 4) &&&
          ~~~ (0xff#32 <<< (8 * (offset &&& 0b11))) |||
            value.setWidth 32 <<< (8 * (offset &&& 0b11))) =
      Access.setByte space bus slot function offset value := by
  funext b s f o
  unfold setDword Access.setByte
  split
  . next h =>
    rcases h with ⟨rfl, rfl, rfl, hlo, hhi⟩
    rw [and_three, byte_write_byte _ _ (by omega) (by omega)]
    by_cases ho : o = offset
    . rw [if_pos (by omega), if_pos (by omega)]
    . unfold dwordAt
      rw [if_neg (by omega), if_neg (by omega), byte_dword _ (by omega)]
      congr 1
      omega
  . next h =>
    rw [if_neg (by omega)]

theorem setDword_write_word (value : BitVec 16) (heven : offset % 2 = 0)
    : setDword space bus slot function (offset / 4 * 4)
        (dwordAt space bus slot function (offset / 4 * 4) &&&
          ~~~ (0xffff#32 <<< (8 * (offset &&& 0b11))) |||
            value.setWidth 32 <<< (8 * (offset &&& 0b11))) =
      Access.setByte (Access.setByte space bus slot function offset (value.extractLsb' 0 8)) bus slot
        function (offset + 1) (value.extractLsb' 8 8) := by
  funext b s f o
  unfold setDword Access.setByte
  split
  . next h =>
    rcases h with ⟨rfl, rfl, rfl, hlo, hhi⟩
    rw [and_three, byte_write_word _ _ (by omega) (by omega)]
    by_cases ho : o = offset
    . rw [if_pos (by omega), if_neg (by omega), if_pos (by omega)]
    . by_cases ho' : o = offset + 1
      . rw [if_neg (by omega), if_pos (by omega), if_pos (by omega)]
      . unfold dwordAt
        rw [if_neg (by omega), if_neg (by omega), if_neg (by omega), if_neg (by omega),
          byte_dword _ (by omega)]
        congr 1
        omega
  . next h =>
    rw [if_neg (by omega), if_neg (by omega)]

end Registers

namespace Backend

variable {read32 : ReadFn HwM} {write32 : WriteFn HwM} {Ok : Nat → Nat → Prop}
variable (h : Backend read32 write32 Ok) (hw : Hardware) {bus slot function offset : Nat}
variable (hok : Ok bus offset) (hs : slot < 32) (hf : function < 8) (ho : offset < 256)

include h hok hs hf ho

theorem pciRead8
    : Gives (pciRead8 read32 0 bus slot function offset) hw (hw.space bus slot function offset)
        hw.space := by
  apply (h.read hw bus slot function offset hok hs hf ho).bind
  intro address
  rw [read_byte, byte_dwordAt]
  exact Gives.pure _ _

theorem pciRead16 (heven : offset % 2 = 0)
    : Gives (pciRead16 read32 0 bus slot function offset) hw
        (hw.space bus slot function (offset + 1) ++ hw.space bus slot function offset) hw.space := by
  apply (h.read hw bus slot function offset hok hs hf ho).bind
  intro address
  rw [read_word, byte_dwordAt, byte_dwordAt_succ _ _ _ _ heven]
  exact Gives.pure _ _

theorem pciRead32 (hal : offset % 4 = 0)
    : Gives (pciRead32 read32 0 bus slot function offset) hw
        (dwordAt hw.space bus slot function offset) hw.space := by
  have hread := h.read hw bus slot function offset hok hs hf ho
  rw [show offset / 4 * 4 = offset by omega] at hread
  exact hread

theorem pciWrite8 (value : BitVec 8)
    : Gives (pciWrite8 read32 write32 0 bus slot function offset value) hw ()
        (Access.setByte hw.space bus slot function offset value) := by
  apply (h.read hw bus slot function offset hok hs hf ho).bind
  intro address
  rw [← setDword_write_byte]
  exact h.write ⟨hw.space, address⟩ bus slot function offset _ hok hs hf ho

theorem pciWrite16 (value : BitVec 16) (heven : offset % 2 = 0)
    : Gives (pciWrite16 read32 write32 0 bus slot function offset value) hw ()
        (Access.setByte (Access.setByte hw.space bus slot function offset (value.extractLsb' 0 8)) bus
          slot function (offset + 1) (value.extractLsb' 8 8)) := by
  apply (h.read hw bus slot function offset hok hs hf ho).bind
  intro address
  rw [← setDword_write_word _ _ _ _ _ heven]
  exact h.write ⟨hw.space, address⟩ bus slot function offset _ hok hs hf ho

theorem pciWrite32 (value : BitVec 32) (hal : offset % 4 = 0)
    : Gives (pciWrite32 write32 0 bus slot function offset value) hw ()
        (setDword hw.space bus slot function offset value) := by
  have hwrite := h.write hw bus slot function offset value hok hs hf ho
  rw [show offset / 4 * 4 = offset by omega] at hwrite
  exact hwrite

omit hok hs hf ho

theorem exec {a : Access} (hr : a.InRange) (hok : Ok a.bus a.offset)
    : Gives (a.exec read32 write32) hw (a.spec hw.space).1 (a.spec hw.space).2 := by
  cases a with
  | read8 bus slot function offset =>
    rcases hr with ⟨hs, hf, ho⟩
    exact (h.pciRead8 hw hok hs hf ho).bind fun _ => Gives.pure _ _
  | read16 bus slot function offset =>
    rcases hr with ⟨hs, hf, ho, heven⟩
    exact (h.pciRead16 hw hok hs hf ho heven).bind fun _ => Gives.pure _ _
  | read32 bus slot function offset =>
    rcases hr with ⟨hs, hf, ho, hal⟩
    exact h.pciRead32 hw hok hs hf ho hal
  | write8 bus slot function offset value =>
    rcases hr with ⟨hs, hf, ho⟩
    exact (h.pciWrite8 hw hok hs hf ho value).bind fun _ => Gives.pure _ _
  | write16 bus slot function offset value =>
    rcases hr with ⟨hs, hf, ho, heven⟩
    exact (h.pciWrite16 hw hok hs hf ho value heven).bind fun _ => Gives.pure _ _
  | write32 bus slot function offset value =>
    rcases hr with ⟨hs, hf, ho, hal⟩
    exact (h.pciWrite32 hw hok hs hf ho value hal).bind fun _ => Gives.pure _ _

end Backend

section Legacy

variable {bus slot function offset : Nat}
variable (hb : bus < 256) (hs : slot < 32) (hf : function < 8) (ho : offset < 256)

theorem testBit_of_lt {x w i : Nat} (hx : x < 2 ^ w) (hi : w ≤ i) : x.testBit i = false := by
  apply Nat.testBit_lt_two_pow
  exact Nat.lt_of_lt_of_le hx (Nat.pow_le_pow_right (by decide) hi)

include hb hs hf ho

theorem getLsbD_legacyAddress {i : Nat} (hi : i < 32)
    : (legacyAddress bus slot function offset).getLsbD i =
        if i < 8 then decide (2 ≤ i) && offset.testBit i
        else if i < 11 then function.testBit (i - 8)
        else if i < 16 then slot.testBit (i - 11)
        else if i < 24 then bus.testBit (i - 16)
        else decide (i = 31) := by
  have hbus : 24 ≤ i → bus.testBit (i - 16) = false := fun h => testBit_of_lt (w := 8) hb (by omega)
  have hslot : 16 ≤ i → slot.testBit (i - 11) = false := fun h => testBit_of_lt (w := 5) hs (by omega)
  have hfun : 11 ≤ i → function.testBit (i - 8) = false := fun h => testBit_of_lt (w := 3) hf (by omega)
  have hoff : 8 ≤ i → offset.testBit i = false := fun h => testBit_of_lt (w := 8) ho h
  have henable : (0x80000000 : BitVec 32).getLsbD i = decide (i = 31) := by
    have hall : ∀ i : Fin 32, (0x80000000 : BitVec 32).getLsbD i.val = decide (i.val = 31) := by decide
    exact hall ⟨i, hi⟩
  have hmask : (3 : BitVec 32).getLsbD i = decide (i < 2) := getLsbD_mask (w := 2) hi
  unfold legacyAddress
  simp only [BitVec.getLsbD_or, BitVec.getLsbD_and, BitVec.getLsbD_not, BitVec.getLsbD_shiftLeft,
    BitVec.getLsbD_ofNat, hi, hmask]
  split_ifs <;> grind

theorem selectedBus_legacyAddress
    : selectedBus (legacyAddress bus slot function offset) = bus := by
  apply toNat_field (w := 8) (s := 16) _ (by decide) hb
  intro i hi
  rw [getLsbD_legacyAddress hb hs hf ho (by omega)]
  rw [if_neg (by omega), if_neg (by omega), if_neg (by omega), if_pos (by omega), Nat.add_sub_cancel_left]

theorem selectedSlot_legacyAddress
    : selectedSlot (legacyAddress bus slot function offset) = slot := by
  apply toNat_field (w := 5) (s := 11) _ (by decide) hs
  intro i hi
  rw [getLsbD_legacyAddress hb hs hf ho (by omega)]
  rw [if_neg (by omega), if_neg (by omega), if_pos (by omega), Nat.add_sub_cancel_left]

theorem selectedFunction_legacyAddress
    : selectedFunction (legacyAddress bus slot function offset) = function := by
  apply toNat_field (w := 3) (s := 8) _ (by decide) hf
  intro i hi
  rw [getLsbD_legacyAddress hb hs hf ho (by omega)]
  rw [if_neg (by omega), if_pos (by omega), Nat.add_sub_cancel_left]

theorem selectedOffset_legacyAddress
    : selectedOffset (legacyAddress bus slot function offset) = offset / 4 * 4 := by
  unfold selectedOffset
  congr 1
  apply toNat_field (w := 6) (s := 2) _ (by decide) (by omega)
  intro i hi
  rw [getLsbD_legacyAddress hb hs hf ho (by omega), if_pos (by omega)]
  rw [show offset / 4 = offset / 2 ^ 2 from rfl, Nat.testBit_div_two_pow, Nat.add_comm]
  simp

theorem enabled_legacyAddress
    : legacyAddress bus slot function offset &&& 0x80000000 ≠ 0 := by
  intro h
  have hbit := congrArg (BitVec.getLsbD · 31) h
  simp only [BitVec.getLsbD_and] at hbit
  rw [getLsbD_legacyAddress hb hs hf ho (by decide)] at hbit
  simp at hbit

theorem legacyAsserts_of {cfg : Config} (hal : cfg.disableAsserts = true ∨ offset % 4 = 0) (hw : Hardware)
    : legacyAsserts cfg 0 bus slot function offset hw = .ok ((), hw) := by
  have h3 : check cfg (offset &&& 0b11 == 0) = .ok () := by
    unfold check
    rcases hal with hal | hal <;> simp [and_three, hal]
  have h2 : check cfg (bus < 256 && slot < 32 && function < 8 && offset < 256) = .ok () := by
    apply check_of
    simp [hb, hs, hf, ho]
  have h1 : check cfg (0 == 0) = .ok () := check_of cfg rfl
  unfold legacyAsserts
  rw [bind_of (assertHw_of h1 hw), bind_of (assertHw_of h2 hw)]
  exact assertHw_of h3 hw

omit hb hs hf ho in
theorem legacy_backend (cfg : Config)
    : Backend (pciLegacyRead cfg) (pciLegacyWrite cfg)
        fun bus offset => bus < 256 ∧ (cfg.disableAsserts = true ∨ offset % 4 = 0) where
  read := by
    rintro hw bus slot function offset ⟨hb, hal⟩ hs hf ho
    refine ⟨legacyAddress bus slot function offset, ?_⟩
    unfold pciLegacyRead
    rw [bind_of (legacyAsserts_of hb hs hf ho hal hw)]
    show (if _ then _ else _) = _
    rw [if_neg (enabled_legacyAddress hb hs hf ho)]
    dsimp only
    rw [selectedBus_legacyAddress hb hs hf ho, selectedSlot_legacyAddress hb hs hf ho,
      selectedFunction_legacyAddress hb hs hf ho, selectedOffset_legacyAddress hb hs hf ho]
  write := by
    rintro hw bus slot function offset v ⟨hb, hal⟩ hs hf ho
    refine ⟨legacyAddress bus slot function offset, ?_⟩
    unfold pciLegacyWrite
    rw [bind_of (legacyAsserts_of hb hs hf ho hal hw)]
    show (if _ then _ else _) = _
    rw [if_neg (enabled_legacyAddress hb hs hf ho)]
    dsimp only
    rw [selectedBus_legacyAddress hb hs hf ho, selectedSlot_legacyAddress hb hs hf ho,
      selectedFunction_legacyAddress hb hs hf ho, selectedOffset_legacyAddress hb hs hf ho]

end Legacy

section Mcfg

variable {bus slot function offset : Nat}

theorem mcfgBus_some {entries : List McfgEntry} {segment : Nat} {e : McfgEntry}
    (h : mcfgBus entries segment bus = some e)
    : e.segment = segment ∧ e.startBus.val ≤ bus ∧ bus < 256 := by
  have hfound := List.find?_some h
  simp only [Bool.and_eq_true, beq_iff_eq, decide_eq_true_eq] at hfound
  exact ⟨hfound.1.1, hfound.1.2, by omega⟩

theorem shifted_fields {d : Nat} (hd : d < 256) (hs : slot < 32) (hf : function < 8)
    : (d <<< 20 ||| slot <<< 15 ||| function <<< 12) % 2 ^ 32 =
        d * 2 ^ 20 + slot * 2 ^ 15 + function * 2 ^ 12 := by
  have h1 : d <<< 20 ||| slot <<< 15 = d * 2 ^ 20 + slot * 2 ^ 15 := by
    rw [← Nat.shiftLeft_add_eq_or_of_lt (by rw [Nat.shiftLeft_eq]; omega), Nat.shiftLeft_eq,
      Nat.shiftLeft_eq]
  have h2 : d * 2 ^ 20 + slot * 2 ^ 15 = (d * 2 ^ 5 + slot) <<< 15 := by
    rw [Nat.shiftLeft_eq]
    omega
  rw [h1, h2, ← Nat.shiftLeft_add_eq_or_of_lt (by rw [Nat.shiftLeft_eq]; omega), Nat.shiftLeft_eq,
    Nat.shiftLeft_eq]
  omega

theorem mcfgAddress_eq {e : McfgEntry} (hd : bus - e.startBus.val < 256) (hpage : e.address % 4096 = 0)
    (hs : slot < 32) (hf : function < 8) (ho : offset < 4096)
    : mcfgAddress bus slot function offset e =
        Word.add e.address ((bus - e.startBus.val) * 2 ^ 20 + slot * 2 ^ 15 + function * 2 ^ 12) +
          offset / 4 * 4 := by
  have hmask : offset &&& 0xFFFFFFFC = offset / 4 * 4 := by
    have hlow : (offset &&& 0xFFFFFFFC) % 2 ^ 2 = 0 := by
      rw [Nat.and_mod_two_pow]
      exact Nat.and_zero _
    have hhigh : (offset &&& 0xFFFFFFFC) >>> 2 = (offset >>> 2) % 2 ^ 30 := by
      rw [Nat.shiftRight_and_distrib, ← Nat.and_two_pow_sub_one_eq_mod]
      rfl
    rw [Nat.shiftRight_eq_div_pow, Nat.shiftRight_eq_div_pow] at hhigh
    omega
  unfold mcfgAddress
  rw [shifted_fields hd hs hf, hmask]
  generalize hbase : Word.add e.address _ = base
  have hdvd : base = (base / 4096) <<< 12 := by
    rw [Nat.shiftLeft_eq, ← hbase]
    unfold Word.add
    omega
  rw [hdvd, ← Nat.shiftLeft_add_eq_or_of_lt (by omega)]

theorem mcfg_backend (entries : List McfgEntry) (window : Window)
    : Backend (pciMcfgRead entries window) (pciMcfgWrite entries window)
        fun bus _ => Covered entries window bus where
  read := by
    rintro hw bus slot function offset ⟨e, he, hpage, hwin⟩ hs hf ho
    refine ⟨hw.configAddress, ?_⟩
    unfold pciMcfgRead mmioRead
    rw [he]
    dsimp only
    have hd := (mcfgBus_some he).2
    rw [mcfgAddress_eq (by omega) hpage hs hf (by omega)]
    rw [hwin slot hs function hf (offset / 4 * 4) (by omega)]
  write := by
    rintro hw bus slot function offset v ⟨e, he, hpage, hwin⟩ hs hf ho
    refine ⟨hw.configAddress, ?_⟩
    unfold pciMcfgWrite mmioWrite
    rw [he]
    dsimp only
    have hd := (mcfgBus_some he).2
    rw [mcfgAddress_eq (by omega) hpage hs hf (by omega)]
    rw [hwin slot hs function hf (offset / 4 * 4) (by omega)]

end Mcfg

section Run

variable (read32 : ReadFn HwM) (write32 : WriteFn HwM)

def run : List Access → HwM (List (BitVec 32))
  | [] => return []
  | a :: as => do
    let v ← a.exec read32 write32
    let vs ← run as
    return v :: vs

def specRun : List Access → Space → List (BitVec 32) × Space
  | [], space => ([], space)
  | a :: as, space =>
    ((a.spec space).1 :: (specRun as (a.spec space).2).1, (specRun as (a.spec space).2).2)

variable {read32 write32}

theorem Backend.run {Ok : Nat → Nat → Prop} (h : Backend read32 write32 Ok) {as : List Access}
    (hr : ∀ a ∈ as, a.InRange ∧ Ok a.bus a.offset) (hw : Hardware)
    : Gives (run read32 write32 as) hw (specRun as hw.space).1 (specRun as hw.space).2 := by
  induction as generalizing hw with
  | nil => exact Gives.pure _ _
  | cons a as ih =>
    have ha := hr a List.mem_cons_self
    have has := fun a' hmem => hr a' (List.mem_cons_of_mem a hmem)
    apply (h.exec hw ha.1 ha.2).bind
    intro address
    apply (ih has ⟨(a.spec hw.space).2, address⟩).bind
    intro address'
    exact Gives.pure _ _

end Run

/--
Through memory, every sequence of accesses means what it says; through ports, if none is inside of a
register or there are no asserts.
-/
theorem pci_access_agrees (cfg : Config) (entries : List McfgEntry) (window : Window) (hw : Hardware)
    (as : List Access) (hr : ∀ a ∈ as, a.InRange ∧ Covered entries window a.bus)
    : Gives (run (pciMcfgRead entries window) (pciMcfgWrite entries window) as) hw
        (specRun as hw.space).1 (specRun as hw.space).2 ∧
      ((∀ a ∈ as, cfg.disableAsserts = true ∨ a.offset % 4 = 0) →
        Gives (run (pciLegacyRead cfg) (pciLegacyWrite cfg) as) hw
          (specRun as hw.space).1 (specRun as hw.space).2) := by
  constructor
  . exact (mcfg_backend entries window).run hr hw
  . intro hal
    apply (legacy_backend cfg).run
    intro a ha
    rcases (hr a ha).2 with ⟨e, he, -⟩
    exact ⟨(hr a ha).1, (mcfgBus_some he).2.2, hal a ha⟩

namespace Flat

def entries : List McfgEntry := [⟨0, 0, 0, 255⟩]

def window : Window := fun addr =>
  some (addr / 2 ^ 20, addr / 2 ^ 15 % 2 ^ 5, addr / 2 ^ 12 % 2 ^ 3, addr % 2 ^ 12)

def hardware : Hardware := ⟨fun _ _ _ offset => BitVec.ofNat 8 offset, 0⟩

theorem covered_zero : Covered entries window 0 := by
  refine ⟨⟨0, 0, 0, 255⟩, rfl, rfl, ?_⟩
  intro slot hs function hf offset ho
  unfold window Word.add
  simp only [Option.some.injEq, Prod.mk.injEq, Fin.val_zero]
  omega

end Flat

theorem pci_access_agrees_flat
    : Gives (run (pciLegacyRead ⟨false⟩) (pciLegacyWrite ⟨false⟩)
        [.write8 0 1 2 4 0x77, .read32 0 1 2 4]) Flat.hardware [0, 0x07060577]
        (specRun [.write8 0 1 2 4 0x77, .read32 0 1 2 4] Flat.hardware.space).2 := by
  have h := pci_access_agrees ⟨false⟩ Flat.entries Flat.window Flat.hardware
    [.write8 0 1 2 4 0x77, .read32 0 1 2 4] (by
      simp only [List.mem_cons, List.not_mem_nil, or_false, forall_eq_or_imp, forall_eq]
      exact ⟨⟨by decide, Flat.covered_zero⟩, ⟨by decide, Flat.covered_zero⟩⟩)
  exact h.2 (by
    simp only [List.mem_cons, List.not_mem_nil, or_false, forall_eq_or_imp, forall_eq]
    decide)

theorem legacy_asserts_byte_access
    : (Access.read8 0 0 0 1).InRange ∧ Covered Flat.entries Flat.window 0 ∧
      run (pciMcfgRead Flat.entries Flat.window) (pciMcfgWrite Flat.entries Flat.window)
        [.read8 0 0 0 1] Flat.hardware = .ok ([1], Flat.hardware) ∧
      run (pciLegacyRead ⟨false⟩) (pciLegacyWrite ⟨false⟩) [.read8 0 0 0 1] Flat.hardware =
        .error .assertion :=
  ⟨by decide, Flat.covered_zero, rfl, rfl⟩

end Pci
end Nyy
