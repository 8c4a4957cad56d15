import NyyKernel.Paging.Lemmas.Leaves
import NyyKernel.Paging.Run

namespace Nyy
namespace Paging

inductive MemType where
  | uc
  | wc
  | wt
  | wp
  | wb
  | ucMinus
  deriving DecidableEq, Repr

def MemType.code : MemType → BitVec 64
  | .uc => 0x0
  | .wc => 0x1
  | .wt => 0x4
  | .wp => 0x5
  | .wb => 0x6
  | .ucMinus => 0x7

def paN (type : MemType) (n : Nat) : BitVec 64 := type.code <<< (n * 8)

def portPat : BitVec 64 :=
  paN .wb 0 ||| paN .wt 1 ||| paN .ucMinus 2 ||| paN .uc 3 ||| paN .wp 4 ||| paN .wc 5

def patType (pat : BitVec 64) (n : Nat) : Option MemType :=
  match ((pat >>> (n * 8)).setWidth 3).toNat with
  | 0 => some .uc
  | 1 => some .wc
  | 4 => some .wt
  | 5 => some .wp
  | 6 => some .wb
  | 7 => some .ucMinus
  | _ => none

def PageSize.patBit : PageSize → Nat
  | .kib4 => 7
  | .mib2 => 12
  | .gib1 => 12

def patIndex (size : PageSize) (entry : BitVec 64) : Nat :=
  4 * (entry.getLsbD size.patBit).toNat + 2 * (entry.getLsbD 4).toNat + (entry.getLsbD 3).toNat

def PageSize.frameMask (size : PageSize) : BitVec 64 := pteAddress &&& ~~~(BitVec.ofNat 64 (size.bytes - 1))

structure Decoded where
  frame : Addr
  present : Bool
  writable : Bool
  user : Bool
  global : Bool
  noExecute : Bool
  memory : Option MemType
  deriving DecidableEq, Repr

def decode (pat : BitVec 64) (size : PageSize) (entry : BitVec 64) : Decoded where
  frame := entry &&& size.frameMask
  present := entry.getLsbD 0
  writable := entry.getLsbD 1
  user := entry.getLsbD 2
  global := entry.getLsbD 8
  noExecute := entry.getLsbD 63
  memory := patType pat (patIndex size entry)

def CacheMode.memType : CacheMode → MemType
  | .uncached => .uc
  | .writeback => .wb
  | .writethrough => .wt
  | .writecombine => .wc

def asked (features : Features) (paddr : Addr) (cache : CacheMode) (flags : BitVec 64) : Decoded where
  frame := paddr
  present := flags &&& kVmRead != 0
  writable := flags &&& kVmWrite != 0
  user := flags &&& kVmUser != 0
  global := features.pge && flags &&& kVmGlobal != 0
  noExecute := features.nx && !(flags &&& kVmExecute != 0)
  memory := some cache.memType

section

variable {features : Features} {size : BitVec 64} {paddr : Addr} {cache : CacheMode} {flags : BitVec 64}
  {i : Nat}

theorem getLsbD_bitsIf (cond : Bool) (bits : BitVec 64) (i : Nat)
    : (bitsIf cond bits).getLsbD i = (cond && bits.getLsbD i) := by
  cases cond <;> simp [bitsIf]

theorem getLsbD_pageAlignDown (a : Addr) (hi : i < 64)
    : (pageAlignDown a).getLsbD i = (a.getLsbD i && decide (12 ≤ i)) := by
  have hmask : ∀ i : Fin 64, (~~~(0x1000 - 1) : BitVec 64).getLsbD i = decide (12 ≤ i.val) := by
    decide
  unfold pageAlignDown
  rw [BitVec.getLsbD_and, hmask ⟨i, hi⟩]

theorem getLsbD_newEntry (i : Nat)
    : (newEntry features size paddr cache flags).getLsbD i
        =
      ((pageAlignDown paddr).getLsbD i
        || (newEntry features size 0 cache flags).getLsbD i) := by
  have hzero : (pageAlignDown 0).getLsbD i = false := by simp [pageAlignDown]
  unfold newEntry
  simp only [BitVec.getLsbD_or, hzero, Bool.or_false]
  cases size.getLsbD i <;> cases (pageAlignDown paddr).getLsbD i <;> simp

theorem getLsbD_of_aligned {size : PageSize} (halign : paddr.toNat % size.bytes = 0)
    (hi : i < 12 + 9 * size.level)
    : paddr.getLsbD i = false := by
  have := congrArg (Nat.testBit · i) halign
  rw [← BitVec.testBit_toNat]
  simpa [PageSize.bytes, Nat.testBit_mod_two_pow, hi] using this

theorem getLsbD_attribute (hframe : paddr &&& pteAddress = paddr) (hi : i < 64) (hout : i < 12 ∨ 52 ≤ i)
    : (newEntry features size paddr cache flags).getLsbD i
        =
      (newEntry features size 0 cache flags).getLsbD i := by
  have hzero : (pageAlignDown paddr).getLsbD i = false := by
    rw [pageAlignDown_frame hframe, ← hframe, BitVec.getLsbD_and, getLsbD_pteAddress hi]
    simp
    omega
  rw [getLsbD_newEntry, hzero, Bool.false_or]

theorem and_frameMask {size : PageSize} {entry : BitVec 64} (hentry : entry &&& pteAddress = paddr)
    (halign : paddr.toNat % size.bytes = 0)
    : entry &&& size.frameMask = paddr := by
  unfold PageSize.frameMask
  rw [← BitVec.and_assoc, hentry]
  apply BitVec.eq_of_getLsbD_eq
  intro i hi
  have hmask : (BitVec.ofNat 64 (size.bytes - 1)).getLsbD i = decide (i < 12 + 9 * size.level) := by
    unfold PageSize.bytes
    rw [BitVec.getLsbD_ofNat, Nat.testBit_two_pow_sub_one]
    simp [hi]
  rw [BitVec.getLsbD_and, BitVec.getLsbD_not, hmask]
  by_cases hlow : i < 12 + 9 * size.level
  . rw [getLsbD_of_aligned halign hlow, Bool.false_and]
  . simp [hi, hlow]

-- A large page has no room for the bit of the upper half of the table, the page size is there already.
def leafType : PageSize → CacheMode → MemType
  | .kib4, cache => cache.memType
  | _, .writecombine => .wt
  | _, cache => cache.memType

theorem patType_newEntry {size : PageSize} (hframe : paddr &&& pteAddress = paddr)
    (halign : paddr.toNat % size.bytes = 0)
    : patType portPat (patIndex size (newEntry features size.bits paddr cache flags))
        =
      some (leafType size cache) := by
  have hpat : (newEntry features size.bits paddr cache flags).getLsbD size.patBit
      = (newEntry features size.bits 0 cache flags).getLsbD size.patBit := by
    cases size with
    | kib4 => exact getLsbD_attribute hframe (by decide) (by decide)
    | mib2 =>
      rw [getLsbD_newEntry, getLsbD_pageAlignDown _ (by decide), getLsbD_of_aligned halign (by decide)]
      rfl
    | gib1 =>
      rw [getLsbD_newEntry, getLsbD_pageAlignDown _ (by decide), getLsbD_of_aligned halign (by decide)]
      rfl
  unfold patIndex
  rw [hpat, getLsbD_attribute hframe (by decide) (by decide),
    getLsbD_attribute hframe (by decide) (by decide)]
  unfold newEntry
  simp only [BitVec.getLsbD_or, getLsbD_bitsIf]
  cases size <;> cases cache <;>
    simp [PageSize.patBit, PageSize.bits, pageAlignDown, pteUser, pteWrite, ptePresent, pteGlobal,
      pteNoExecute, cacheBits, ptePagesize, ptePat, ptePwt, ptePcd, leafType, CacheMode.memType] <;>
    decide

theorem decode_newEntry {size : PageSize} (hframe : paddr &&& pteAddress = paddr)
    (halign : paddr.toNat % size.bytes = 0)
    : decode portPat size (newEntry features size.bits paddr cache flags)
        =
      { asked features paddr cache flags with memory := some (leafType size cache) } := by
  have hbits : size.bits &&& pteAddress = 0 := by
    cases size <;> decide
  unfold decode
  rw [and_frameMask (newEntry_and features cache flags hbits hframe) halign,
    patType_newEntry hframe halign, getLsbD_attribute hframe (by decide) (by decide),
    getLsbD_attribute hframe (by decide) (by decide),
    getLsbD_attribute hframe (by decide) (by decide),
    getLsbD_attribute hframe (by decide) (by decide),
    getLsbD_attribute hframe (by decide) (by decide)]
  unfold newEntry
  simp only [BitVec.getLsbD_or, getLsbD_bitsIf]
  cases size <;> cases cache <;>
    simp [PageSize.bits, pageAlignDown, pteUser, pteWrite, ptePresent, pteGlobal,
      pteNoExecute, cacheBits, ptePagesize, ptePat, ptePwt, ptePcd, asked]

theorem newEntry_partFlags
    : newEntry features size paddr cache (partFlags flags)
        =
      newEntry features size paddr cache flags := by
  have hkeep : ∀ bit : BitVec 64, ~~~kVmHuge1GB &&& bit = bit → kVmHuge2MB &&& bit = 0
      → partFlags flags &&& bit = flags &&& bit := by
    intro bit hkept hnew
    unfold partFlags
    rw [or_and, BitVec.and_assoc, hkept, hnew]
    simp
  unfold newEntry
  rw [hkeep kVmUser (by decide) (by decide), hkeep kVmWrite (by decide) (by decide),
    hkeep kVmRead (by decide) (by decide), hkeep kVmGlobal (by decide) (by decide),
    hkeep kVmExecute (by decide) (by decide)]

end

section

variable {features : Features} {paddr vaddr : Addr} {cache : CacheMode} {flags : BitVec 64} {w : LeafWrite}

theorem decode_of_mem (hlt : paddr.toNat < 2 ^ 52) (halign : paddr.toNat % (pageSizeOf flags).bytes = 0)
    (hw : w ∈ leafWrites features paddr vaddr cache flags)
    : decode portPat w.size w.entry
        =
      { asked features (paddr + (w.vaddr - vaddr)) cache flags with
        memory := some (leafType w.size cache) } := by
  unfold leafWrites at hw
  split at hw
  . next hemulated =>
    obtain ⟨i, hi, rfl⟩ := List.mem_map.mp hw
    rw [hemulated.1] at halign
    have halign : paddr.toNat % 2 ^ 30 = 0 := halign
    have hpart := toNat_part halign (List.mem_range.mp hi)
    have hi := List.mem_range.mp hi
    have hframe : part paddr i &&& pteAddress = part paddr i := by
      rw [and_pteAddress_iff, hpart]
      omega
    have halign' : (part paddr i).toNat % PageSize.mib2.bytes = 0 := by
      rw [hpart]
      change (paddr.toNat + 2 ^ 21 * i) % 2 ^ 21 = 0
      omega
    have hoffset : paddr + (part vaddr i - vaddr) = part paddr i := by
      unfold part
      rw [BitVec.add_comm vaddr, BitVec.add_sub_cancel]
    dsimp only
    rw [newEntry_partFlags, hoffset]
    exact decode_newEntry hframe halign'
  . obtain rfl := List.mem_singleton.mp hw
    have hframe : paddr &&& pteAddress = paddr := by
      rw [and_pteAddress_iff]
      refine ⟨?_, hlt⟩
      exact Nat.mod_eq_zero_of_dvd ((pageSizeOf flags).page_dvd_bytes.trans
        (Nat.dvd_of_mod_eq_zero halign))
    dsimp only
    rw [BitVec.sub_self, BitVec.add_zero]
    exact decode_newEntry hframe halign

theorem leafType_eq_iff {size : PageSize}
    : leafType size cache = cache.memType ↔ (cache = .writecombine → size = .kib4) := by
  cases size <;> cases cache <;> decide

theorem size_of_mem (hw : w ∈ leafWrites features paddr vaddr cache flags)
    : w.size = .kib4 ↔ pageSizeOf flags = .kib4 := by
  unfold leafWrites at hw
  split at hw
  . next hemulated =>
    obtain ⟨i, _, rfl⟩ := List.mem_map.mp hw
    rw [hemulated.1]
    constructor <;> intro h <;> cases h
  . obtain rfl := List.mem_singleton.mp hw
    rfl

theorem exists_mem_leafWrites : ∃ w, w ∈ leafWrites features paddr vaddr cache flags := by
  unfold leafWrites
  split
  . exact ⟨_, List.mem_map.mpr ⟨0, List.mem_range.mpr (by decide), rfl⟩⟩
  . exact ⟨_, List.mem_singleton.mpr rfl⟩

theorem mapping_encodes_iff (cfg : Config) (hflags : Accepted flags) (hlt : paddr.toNat < 2 ^ 52)
    (halign : paddr.toNat % (pageSizeOf flags).bytes = 0)
    : (∀ (σ : Type) (pmAllocateN : PmAllocate σ) (cr3 : Addr) (m : Mmu σ),
        vmPortMap pmAllocateN cfg features m cr3 paddr vaddr cache flags
          = (leafWrites features paddr vaddr cache flags).foldlM (writeLeaf pmAllocateN cr3) m)
      ∧ ((∀ w ∈ leafWrites features paddr vaddr cache flags,
            decode portPat w.size w.entry = asked features (paddr + (w.vaddr - vaddr)) cache flags)
          ↔ (cache = .writecombine → pageSizeOf flags = .kib4)) := by
  refine ⟨fun σ pmAllocateN cr3 m => vmPortMap_eq pmAllocateN cr3 cfg hflags halign m, ?_, ?_⟩
  . intro h
    obtain ⟨w, hw⟩ := @exists_mem_leafWrites features paddr vaddr cache flags
    have hmemory := congrArg Decoded.memory ((decode_of_mem hlt halign hw).symm.trans (h w hw))
    rw [← size_of_mem hw, ← leafType_eq_iff]
    exact Option.some.inj hmemory
  . intro h w hw
    rw [← size_of_mem hw, ← leafType_eq_iff] at h
    rw [decode_of_mem hlt halign hw, h]
    rfl

end

theorem mapping_encodes_iff_device
    : (leafWrites ⟨true, true, true⟩ 0x40000000 0xFFFF800040000000 .uncached
        (kVmAll ||| kVmHuge1GB)).map LeafWrite.size = [.gib1]
      ∧ ∀ w ∈ leafWrites ⟨true, true, true⟩ 0x40000000 0xFFFF800040000000 .uncached
          (kVmAll ||| kVmHuge1GB),
        decode portPat w.size w.entry = asked ⟨true, true, true⟩
          (0x40000000 + (w.vaddr - 0xFFFF800040000000)) .uncached (kVmAll ||| kVmHuge1GB) := by
  refine ⟨by decide, ?_⟩
  exact (mapping_encodes_iff ⟨false⟩ (by decide) (by decide) (by decide)).2.mpr (by decide)

theorem large_page_written_through
    : ((vmPortMap bumpPage ⟨false⟩ ⟨true, true, true⟩ ⟨fun _ _ => 0, 2⟩ 0x1000 0x40000000
          0xFFFF800040000000 .writecombine (kVmAll ||| kVmHuge2MB)).toOption.bind (fun m =>
            (hardwareWalk m.mem 0x1000 0xFFFF800040000000)))
        = some (.page2M 0x800000004000008B)
      ∧ (decode portPat .mib2 0x800000004000008B).memory = some .wt
      ∧ (asked ⟨true, true, true⟩ 0x40000000 .writecombine (kVmAll ||| kVmHuge2MB)).memory
        = some .wc := by
  refine ⟨rfl, ?_, ?_⟩ <;> decide

end Paging
end Nyy
