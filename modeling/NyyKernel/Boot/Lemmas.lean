import Mathlib.Tactic
import NyyKernel.Paging.Lemmas.Size
import NyyKernel.Boot.Impl

namespace Nyy
namespace Boot

open Paging

variable {a c x : Nat} {b : Setup} {xs : List Piece}

structure Piece where
  size : PageSize
  base : Nat
  entry : BitVec 64

structure Piece.Ok (piece : Piece) : Prop where
  aligned : piece.base % piece.size.bytes = 0
  present : present piece.entry = true
  large : piece.size ≠ .kib4 → isLarge piece.entry = true
  frame : piece.entry &&& pteAddress = BitVec.ofNat 64 piece.base

inductive Tiles : Nat → Nat → List Piece → Prop where
  | nil {stop : Nat} : Tiles stop stop []
  | cons {stop : Nat} {piece : Piece} {pieces : List Piece} : piece.Ok
      → Tiles (piece.base + piece.size.bytes) stop pieces → Tiles piece.base stop (piece :: pieces)

theorem Tiles.append {b : Nat} {ys : List Piece} (hx : Tiles a b xs) (hy : Tiles b c ys)
    : Tiles a c (xs ++ ys) := by
  induction hx with
  | nil => exact hy
  | cons hok _ ih => exact Tiles.cons hok (ih hy)

theorem Tiles.le {b : Nat} (h : Tiles a b xs) : a ≤ b := by
  induction h with
  | nil => exact Nat.le_refl _
  | cons _ _ ih => omega

def BlockIn (size : PageSize) (a c x : Nat) : Prop :=
  a ≤ x / size.bytes * size.bytes ∧ x / size.bytes * size.bytes + size.bytes ≤ c

instance (size : PageSize) (a c x : Nat) : Decidable (BlockIn size a c x) :=
  inferInstanceAs (Decidable (_ ∧ _))

def pieceSize (b : Setup) (a c x : Nat) : PageSize :=
  if b.hhdmHugepages = true ∧ b.features.gbpages = true ∧ BlockIn .gib1 a c x then
    .gib1
  else if b.hhdmHugepages = true ∧ BlockIn .mib2 a c x then
    .mib2
  else
    .kib4

theorem blockIn_mib2
    : BlockIn .mib2 a c x ↔ a ≤ x / 2 ^ 21 * 2 ^ 21 ∧ x / 2 ^ 21 * 2 ^ 21 + 2 ^ 21 ≤ c := by
  unfold BlockIn
  rw [PageSize.bytes_mib2]

theorem blockIn_gib1
    : BlockIn .gib1 a c x ↔ a ≤ x / 2 ^ 30 * 2 ^ 30 ∧ x / 2 ^ 30 * 2 ^ 30 + 2 ^ 30 ≤ c := by
  unfold BlockIn
  rw [PageSize.bytes_gib1]

theorem BlockIn.of_gib1 (h : BlockIn .gib1 a c x) : BlockIn .mib2 a c x := by
  have hdiv : x / 2 ^ 30 = x / 2 ^ 21 / 2 ^ 9 := by
    rw [Nat.div_div_eq_div_mul, ← Nat.pow_add]
  rw [blockIn_gib1, hdiv] at h
  rw [blockIn_mib2]
  generalize x / 2 ^ 21 = q at h ⊢
  have hbelow := Nat.div_mul_le_self q (2 ^ 9)
  have habove : q + 1 ≤ q / 2 ^ 9 * 2 ^ 9 + 2 ^ 9 := Nat.lt_div_mul_add (by decide)
  obtain ⟨hfirst, hlast⟩ := h
  constructor <;> linarith

theorem pieceSize_kib4 (h : b.hhdmHugepages = true → ¬ BlockIn .mib2 a c x)
    : pieceSize b a c x = .kib4 := by
  unfold pieceSize
  rw [if_neg, if_neg]
  . exact fun hin => h hin.1 hin.2
  . exact fun hin => h hin.1 hin.2.2.of_gib1

theorem pieceSize_mib2 (hhuge : b.hhdmHugepages = true) (hin : BlockIn .mib2 a c x)
    (hout : b.features.gbpages = true → ¬ BlockIn .gib1 a c x)
    : pieceSize b a c x = .mib2 := by
  unfold pieceSize
  rw [if_neg (fun h => hout h.2.1 h.2.2), if_pos ⟨hhuge, hin⟩]

theorem pieceSize_gib1 (hhuge : b.hhdmHugepages = true) (hgb : b.features.gbpages = true)
    (hin : BlockIn .gib1 a c x)
    : pieceSize b a c x = .gib1 := by
  unfold pieceSize
  rw [if_pos ⟨hhuge, hgb, hin⟩]

def mkPiece (features : Features) (cache : CacheMode) (flags : BitVec 64) (size : PageSize) (base : Nat)
    : Piece :=
  ⟨size, base, newEntry features size.bits (BitVec.ofNat 64 base) cache flags⟩

theorem mkPiece_ok (features : Features) (cache : CacheMode) (flags : BitVec 64) (size : PageSize)
    (base : Nat) (hread : flags &&& kVmRead ≠ 0) (halign : base % size.bytes = 0) (hbase : base < 2 ^ 52)
    : (mkPiece features cache flags size base).Ok := by
  have hpres := present_newEntry features size.bits (BitVec.ofNat 64 base) cache hread
  constructor
  . exact halign
  . exact hpres
  . intro hne
    unfold isLarge
    rw [Bool.and_eq_true]
    refine ⟨hpres, ?_⟩
    cases size with
    | kib4 => exact absurd rfl hne
    | mib2 => exact large_newEntry ..
    | gib1 => exact large_newEntry ..
  . have h12 : 2 ^ 12 ∣ base := size.page_dvd_bytes.trans (Nat.dvd_of_mod_eq_zero halign)
    apply newEntry_and
    . cases size <;> decide
    . rw [and_pteAddress_iff, BitVec.toNat_ofNat]
      omega

section

variable {σ : Type} (pmAllocateN : PmAllocate σ) (b : Setup) (cache : CacheMode) {base start stop n : Nat}
  {size : PageSize}

def mapPiece (m : Mmu σ) (piece : Piece) : Except Fault (Mmu σ) :=
  mapEntry pmAllocateN m b.cr3 (b.hhdmStart + BitVec.ofNat 64 piece.base) piece.size.flags
    piece.entry

def Lays (start stop a c : Nat) (run : Mmu σ → Except Fault (Mmu σ)) : Prop :=
  ∃ pieces, Tiles a c pieces ∧ (∀ piece ∈ pieces, piece.size = pieceSize b start stop piece.base)
    ∧ ∀ m, run m = pieces.foldlM (mapPiece pmAllocateN b) m

variable {pmAllocateN b} {run run' : Mmu σ → Except Fault (Mmu σ)}

theorem Lays.nil : Lays pmAllocateN b start stop a a .ok :=
  ⟨[], .nil, by simp, fun _ => rfl⟩

theorem Lays.single {piece : Piece} (hok : piece.Ok) (hsize : pieceSize b start stop piece.base = piece.size)
    : Lays pmAllocateN b start stop piece.base (piece.base + piece.size.bytes)
        (mapPiece pmAllocateN b · piece) := by
  refine ⟨[piece], .cons hok .nil, by simp [hsize], ?_⟩
  intro m
  rw [List.foldlM_cons]
  exact (bind_pure _).symm

theorem Lays.le (h : Lays pmAllocateN b start stop a c run) : a ≤ c := by
  obtain ⟨_, htiles, _⟩ := h
  exact htiles.le

theorem Lays.congr (h : Lays pmAllocateN b start stop a c run) (heq : ∀ m, run' m = run m)
    : Lays pmAllocateN b start stop a c run' := by
  rwa [funext heq]

theorem Lays.append (h : Lays pmAllocateN b start stop a n run) (h' : Lays pmAllocateN b start stop n c run')
    : Lays pmAllocateN b start stop a c (fun m => run m >>= run') := by
  obtain ⟨xs, hx, hsize, heq⟩ := h
  obtain ⟨ys, hy, hsize', heq'⟩ := h'
  refine ⟨xs ++ ys, hx.append hy, ?_, ?_⟩
  . intro piece hpiece
    exact (List.mem_append.mp hpiece).elim (hsize piece) (hsize' piece)
  . intro m
    rw [List.foldlM_append, ← heq, ← funext heq']

variable (pmAllocateN b)

theorem ofNat_mod_eq_zero_iff {a n : Nat} (ha : a < 2 ^ 64) (hn : n < 2 ^ 64)
    : BitVec.ofNat 64 a % BitVec.ofNat 64 n = 0 ↔ a % n = 0 := by
  rw [← BitVec.toNat_inj, BitVec.toNat_umod, BitVec.toNat_ofNat, BitVec.toNat_ofNat,
    Nat.mod_eq_of_lt ha, Nat.mod_eq_of_lt hn]
  rfl

theorem ofNat_lt_iff (ha : a < 2 ^ 64) (hc : c < 2 ^ 64)
    : BitVec.ofNat 64 a < BitVec.ofNat 64 c ↔ a < c := by
  rw [BitVec.lt_def, BitVec.toNat_ofNat, BitVec.toNat_ofNat, Nat.mod_eq_of_lt ha,
    Nat.mod_eq_of_lt hc]

theorem ofNat_le_iff (ha : a < 2 ^ 64) (hc : c < 2 ^ 64)
    : BitVec.ofNat 64 a ≤ BitVec.ofNat 64 c ↔ a ≤ c := by
  rw [BitVec.le_def, BitVec.toNat_ofNat, BitVec.toNat_ofNat, Nat.mod_eq_of_lt ha,
    Nat.mod_eq_of_lt hc]

def largeFlags : BitVec 64 := kVmGlobal ||| kVmAll ||| kVmHuge2MB

theorem BlockIn.of_aligned (h : base % size.bytes = 0) (hstart : start ≤ base)
    (hstop : base + size.bytes ≤ stop)
    : BlockIn size start stop base := by
  unfold BlockIn
  rw [Nat.div_mul_cancel (Nat.dvd_of_mod_eq_zero h)]
  exact ⟨hstart, hstop⟩

variable {pmAllocateN b}

theorem lays_kib4 (halign : base % 2 ^ 12 = 0) (hbase : base < 2 ^ 52)
    (hsize : b.hhdmHugepages = true → ¬ BlockIn .mib2 start stop base)
    : Lays pmAllocateN b start stop base (base + 2 ^ 12) fun m =>
        vmPortMap pmAllocateN b.cfg b.features m b.cr3 (BitVec.ofNat 64 base)
          (b.hhdmStart + BitVec.ofNat 64 base) cache (kVmGlobal ||| kVmAll) :=
  .single (mkPiece_ok b.features cache (kVmGlobal ||| kVmAll) .kib4 base (by decide) halign hbase)
    (pieceSize_kib4 hsize)

section

variable (hhuge : b.hhdmHugepages = true)

include hhuge

theorem lays_mib2 (fuel : Nat) (halign : base % 2 ^ 21 = 0) (hbase : base < 2 ^ 52)
    (hin : BlockIn .mib2 start stop base)
    (hout : b.features.gbpages = true → ¬ BlockIn .gib1 start stop base)
    : Lays pmAllocateN b start stop base (base + 2 ^ 21) fun m =>
        vmPortMapFuel pmAllocateN b.cfg b.features b.cr3 cache (fuel + 1) m (BitVec.ofNat 64 base)
          (b.hhdmStart + BitVec.ofNat 64 base) largeFlags := by
  have hmod : BitVec.ofNat 64 base % mib2 = 0 :=
    (ofNat_mod_eq_zero_iff (n := 0x200000) (by omega) (by decide)).mpr halign
  refine (Lays.single (mkPiece_ok b.features cache largeFlags .mib2 base (by decide) halign hbase)
    (pieceSize_mib2 hhuge hin hout)).congr ?_
  intro m
  unfold vmPortMapFuel
  rw [if_neg (by decide), if_pos (by decide), hmod, beq_self_eq_true, check_true, Except.ok_bind]
  rfl

theorem lays_parts (hgb : b.features.gbpages = false) (halign : base % 2 ^ 30 = 0)
    (hbase : base + 2 ^ 30 ≤ 2 ^ 52) (hin : start ≤ base ∧ base + 2 ^ 30 ≤ stop) {k : Nat} (hk : k ≤ 512)
    : Lays pmAllocateN b start stop base (base + 2 ^ 21 * k) fun m => (List.range k).foldlM (fun m i =>
        vmPortMapFuel pmAllocateN b.cfg b.features b.cr3 cache 1 m
          (BitVec.ofNat 64 base + mib2 * BitVec.ofNat 64 i)
          (b.hhdmStart + BitVec.ofNat 64 base + mib2 * BitVec.ofNat 64 i) largeFlags) m := by
  induction k with
  | zero => exact .nil
  | succ k ih =>
    have hpart : (base + 2 ^ 21 * k) % 2 ^ 21 = 0 := by omega
    have hlays := @lays_mib2 σ pmAllocateN b cache (base + 2 ^ 21 * k) start stop hhuge 0 hpart (by omega)
      (.of_aligned hpart (by omega) (by change base + 2 ^ 21 * k + 2 ^ 21 ≤ stop; omega)) (by simp [hgb])
    have haddr : BitVec.ofNat 64 (base + 2 ^ 21 * k) = BitVec.ofNat 64 base + mib2 * BitVec.ofNat 64 k := by
      rw [BitVec.ofNat_add, BitVec.ofNat_mul]
      rfl
    rw [haddr, ← BitVec.add_assoc] at hlays
    have hall := (ih (by omega)).append hlays
    rw [Nat.mul_succ, ← Nat.add_assoc]
    simpa only [List.range_succ, List.foldlM_append, List.foldlM_cons, List.foldlM_nil, bind_pure] using hall

theorem lays_gib1 (halign : base % 2 ^ 30 = 0) (hbase : base + 2 ^ 30 ≤ 2 ^ 52)
    (hin : start ≤ base ∧ base + 2 ^ 30 ≤ stop)
    : Lays pmAllocateN b start stop base (base + 2 ^ 30) fun m =>
        vmPortMap pmAllocateN b.cfg b.features m b.cr3 (BitVec.ofNat 64 base)
          (b.hhdmStart + BitVec.ofNat 64 base) cache (kVmGlobal ||| kVmAll ||| kVmHuge1GB) := by
  have hmod : BitVec.ofNat 64 base % gib1 = 0 :=
    (ofNat_mod_eq_zero_iff (n := 0x40000000) (by omega) (by decide)).mpr halign
  have hflags : ((kVmGlobal ||| kVmAll ||| kVmHuge1GB) &&& ~~~kVmHuge1GB) ||| kVmHuge2MB = largeFlags := by
    decide
  cases hgb : b.features.gbpages with
  | true =>
    refine (Lays.single (mkPiece_ok b.features cache (kVmGlobal ||| kVmAll ||| kVmHuge1GB) .gib1 base
      (by decide) halign (by omega)) (pieceSize_gib1 hhuge hgb (.of_aligned halign hin.1 hin.2))).congr ?_
    intro m
    unfold vmPortMap vmPortMapFuel
    rw [if_neg (by decide), if_neg (by decide), if_pos (by decide), hmod, beq_self_eq_true, check_true,
      Except.ok_bind, if_pos hgb]
    rfl
  | false =>
    refine (lays_parts cache hhuge hgb halign hbase hin (Nat.le_refl 512)).congr ?_
    intro m
    rw [vmPortMap, vmPortMapFuel, if_neg (by decide), if_neg (by decide), if_pos (by decide), hmod,
      beq_self_eq_true, check_true, Except.ok_bind, if_neg (by simp [hgb]), hflags]

end

theorem remapHead_eq {fuel base start stop : Nat} (hbase : base % 2 ^ 12 = 0) (hstop : stop % 2 ^ 12 = 0)
    (hle : base ≤ stop) (hmax : stop ≤ 2 ^ 52) (hfuel : stop - base < 2 ^ 12 * fuel)
    (hfirst : b.hhdmHugepages = true
      → base < start + 2 ^ 21 ∧ (base % 2 ^ 21 ≠ 0 → base / 2 ^ 21 * 2 ^ 21 < start))
    : ∃ mid run, Lays pmAllocateN b start stop base mid run ∧ mid % 2 ^ 12 = 0 ∧ mid ≤ stop
      ∧ (b.hhdmHugepages = false → mid = stop)
      ∧ (b.hhdmHugepages = true → mid < start + 2 ^ 21 ∧ (mid % 2 ^ 21 = 0 ∨ mid = stop))
      ∧ ∀ m, remapHead pmAllocateN b cache fuel m (BitVec.ofNat 64 base) (BitVec.ofNat 64 stop)
          = (run m).map (BitVec.ofNat 64 mid, ·) := by
  induction fuel generalizing base with
  | zero => omega
  | succ fuel ih =>
    by_cases hlt : base < stop
    . have hlt' : BitVec.ofNat 64 base < BitVec.ofNat 64 stop :=
        (ofNat_lt_iff (by omega) (by omega)).mpr hlt
      have hmod : (BitVec.ofNat 64 base % mib2 == 0) = decide (base % 2 ^ 21 = 0) := by
        rw [Bool.eq_iff_iff, beq_iff_eq, decide_eq_true_eq]
        exact @ofNat_mod_eq_zero_iff base 0x200000 (by omega) (by decide)
      by_cases hhuge : (b.hhdmHugepages && BitVec.ofNat 64 base % mib2 == 0) = true
      . have hcond := hhuge
        rw [hmod, Bool.and_eq_true, decide_eq_true_eq] at hcond
        refine ⟨base, _, .nil, hbase, hle, ?_, fun h => ⟨(hfirst h).1, .inl hcond.2⟩, ?_⟩
        . intro hoff
          rw [hoff] at hhuge
          cases hhuge
        . intro m
          rw [remapHead, if_pos hlt', if_pos hhuge]
          rfl
      . have hcond : b.hhdmHugepages = true → base % 2 ^ 21 ≠ 0 := by
          intro h
          rw [hmod, h, Bool.true_and, decide_eq_true_eq] at hhuge
          exact hhuge
        obtain ⟨mid, run, hlays, hmid, hmidle, hoff, hon, heq⟩ :=
          ih (show (base + 2 ^ 12) % 2 ^ 12 = 0 by omega) (by omega) (by omega)
            (by
              intro h
              have := hcond h
              have := hfirst h
              omega)
        have hsmall : b.hhdmHugepages = true → ¬ BlockIn .mib2 start stop base := by
          intro h hin
          have := (hfirst h).2 (hcond h)
          have := (blockIn_mib2.mp hin).1
          omega
        refine ⟨mid, _, (lays_kib4 cache hbase (by omega) hsmall).append hlays, hmid, hmidle, hoff, hon, ?_⟩
        intro m
        rw [remapHead, if_pos hlt', if_neg hhuge]
        refine Except.bind_eq_map ?_
        intro m'
        rw [← heq m', BitVec.ofNat_add]
        rfl
    . refine ⟨base, _, .nil, hbase, hle, fun _ => by omega, fun h => ⟨(hfirst h).1, .inr (by omega)⟩, ?_⟩
      intro m
      rw [remapHead, if_neg (by rw [ofNat_lt_iff (by omega) (by omega)]; exact hlt)]
      rfl

def Cut (size : PageSize) (start stop base : Nat) : Prop :=
  base % size.bytes ≠ 0 → ¬ BlockIn size start stop base

theorem Cut.of_aligned (h : base % size.bytes = 0) : Cut size start stop base := by
  intro hne
  exact absurd h hne

theorem Cut.not_blockIn (h : Cut size start stop base)
    (hfits : ¬ (base % size.bytes = 0 ∧ base + size.bytes ≤ stop))
    : ¬ BlockIn size start stop base := by
  by_cases hbase : base % size.bytes = 0
  . rintro ⟨_, hstop⟩
    rw [Nat.div_mul_cancel (Nat.dvd_of_mod_eq_zero hbase)] at hstop
    exact hfits ⟨hbase, hstop⟩
  . exact h hbase

theorem add_div_of_dvd {k : Nat} (hn : n ∣ k) (hx : n ∣ x) (hk : 0 < k) (h : (x + n) % k ≠ 0)
    : (x + n) / k = x / k := by
  have hlt : x % k < k := Nat.mod_lt _ hk
  have hle : x % k + n ≤ k := by
    obtain ⟨q, hq⟩ := (Nat.dvd_mod_iff hn).mpr hx
    obtain ⟨c, hc⟩ := hn
    rw [hq, hc] at hlt
    rw [hq, hc, ← Nat.mul_succ]
    exact Nat.mul_le_mul_left n (Nat.lt_of_mul_lt_mul_left hlt)
  have hsplit : x + n = x % k + n + k * (x / k) := by
    have := Nat.mod_add_div x k
    omega
  have hne : x % k + n ≠ k := by
    intro heq
    rw [hsplit, heq, Nat.add_mul_mod_self_left, Nat.mod_self] at h
    exact h rfl
  rw [hsplit, Nat.add_mul_div_left _ _ hk, Nat.div_eq_of_lt (by omega), Nat.zero_add]

theorem Cut.next (h : Cut size start stop base)
    (hfits : ¬ (base % size.bytes = 0 ∧ base + size.bytes ≤ stop)) (hn : n ∣ size.bytes) (hbase : n ∣ base)
    : Cut size start stop (base + n) := by
  intro hne
  unfold BlockIn
  rw [add_div_of_dvd hn hbase size.bytes_pos hne]
  exact h.not_blockIn hfits

theorem remapLarge_eq {fuel base start stop : Nat} (hbase : base % 2 ^ 12 = 0) (hstop : stop % 2 ^ 12 = 0)
    (hstart : start ≤ base) (hle : base ≤ stop) (hmax : stop ≤ 2 ^ 52) (hfuel : stop - base < 2 ^ 12 * fuel)
    (hhuge : b.hhdmHugepages = true) (hcutm : Cut .mib2 start stop base) (hcutg : Cut .gib1 start stop base)
    : ∃ run, Lays pmAllocateN b start stop base stop run
      ∧ ∀ m, remapLarge pmAllocateN b cache fuel m (BitVec.ofNat 64 base) (BitVec.ofNat 64 stop)
          = (run m).map (BitVec.ofNat 64 stop, ·) := by
  induction fuel generalizing base with
  | zero => omega
  | succ fuel ih =>
    by_cases hlt : base < stop
    . have hlt' : BitVec.ofNat 64 base < BitVec.ofNat 64 stop :=
        (ofNat_lt_iff (by omega) (by omega)).mpr hlt
      have hfits : ∀ n : Nat, n < 2 ^ 32 → ((BitVec.ofNat 64 base % BitVec.ofNat 64 n == 0
          && decide (BitVec.ofNat 64 base + BitVec.ofNat 64 n ≤ BitVec.ofNat 64 stop)) = true
            ↔ base % n = 0 ∧ base + n ≤ stop) := by
        intro n hn
        rw [Bool.and_eq_true, beq_iff_eq, decide_eq_true_eq, ← BitVec.ofNat_add,
          ofNat_le_iff (by omega) (by omega), ofNat_mod_eq_zero_iff (by omega) (by omega)]
      have hgib : (BitVec.ofNat 64 base % gib1 == 0
          && decide (BitVec.ofNat 64 base + gib1 ≤ BitVec.ofNat 64 stop)) = true
            ↔ base % 2 ^ 30 = 0 ∧ base + 2 ^ 30 ≤ stop :=
        hfits 0x40000000 (by decide)
      have hmib : (BitVec.ofNat 64 base % mib2 == 0
          && decide (BitVec.ofNat 64 base + mib2 ≤ BitVec.ofNat 64 stop)) = true
            ↔ base % 2 ^ 21 = 0 ∧ base + 2 ^ 21 ≤ stop :=
        hfits 0x200000 (by decide)
      -- a mapping of `n` bytes, and the loop from there on
      have hround : ∀ (n : Nat) {off : Addr} {first : Mmu σ → Except Fault (Mmu σ)}, off = BitVec.ofNat 64 n →
          Lays pmAllocateN b start stop base (base + n) first → (base + n) % 2 ^ 12 = 0 → 2 ^ 12 ≤ n →
          base + n ≤ stop → Cut .mib2 start stop (base + n) → Cut .gib1 start stop (base + n) →
          ∃ run, Lays pmAllocateN b start stop base stop run ∧ ∀ m, (first m >>= fun m =>
            remapLarge pmAllocateN b cache fuel m (BitVec.ofNat 64 base + off) (BitVec.ofNat 64 stop)) =
              (run m).map (BitVec.ofNat 64 stop, ·) := by
        rintro n _ first rfl hfirst halign hpos hle hcutm hcutg
        obtain ⟨run, hlays, heq⟩ := ih halign (by omega) hle (by omega) hcutm hcutg
        refine ⟨_, hfirst.append hlays, fun m => Except.bind_eq_map ?_⟩
        intro m'
        rw [← heq m', BitVec.ofNat_add]
      simp only [remapLarge, if_pos hlt']
      by_cases hgibfits : base % 2 ^ 30 = 0 ∧ base + 2 ^ 30 ≤ stop
      . simp only [if_pos (hgib.mpr hgibfits)]
        exact hround (2 ^ 30) (by decide)
          (lays_gib1 cache hhuge hgibfits.1 (by omega) ⟨hstart, hgibfits.2⟩) (by omega) (by omega)
          hgibfits.2 (.of_aligned (show (base + 2 ^ 30) % 2 ^ 21 = 0 by omega))
          (.of_aligned (show (base + 2 ^ 30) % 2 ^ 30 = 0 by omega))
      . have hnotgib : ¬ BlockIn .gib1 start stop base := hcutg.not_blockIn hgibfits
        have hdvd : 2 ^ 12 ∣ base := Nat.dvd_of_mod_eq_zero hbase
        simp only [if_neg (hgib.not.mpr hgibfits)]
        by_cases hmibfits : base % 2 ^ 21 = 0 ∧ base + 2 ^ 21 ≤ stop
        . simp only [if_pos (hmib.mpr hmibfits)]
          exact hround (2 ^ 21) (by decide) (lays_mib2 cache hhuge 1 hmibfits.1 (by omega)
            (.of_aligned hmibfits.1 hstart hmibfits.2) (fun _ => hnotgib)) (by omega) (by omega) hmibfits.2
            (.of_aligned (show (base + 2 ^ 21) % 2 ^ 21 = 0 by omega))
            (hcutg.next hgibfits (by decide) (Nat.dvd_of_mod_eq_zero hmibfits.1))
        . simp only [if_neg (hmib.not.mpr hmibfits)]
          exact hround (2 ^ 12) (by decide)
            (lays_kib4 cache hbase (by omega) (fun _ => hcutm.not_blockIn hmibfits)) (by omega) (by omega)
            (by omega) (hcutm.next hmibfits (by decide) hdvd)
            (hcutg.next hgibfits (by decide) hdvd)
    . have : base = stop := by omega
      subst this
      refine ⟨_, .nil, ?_⟩
      intro m
      rw [remapLarge, if_neg (by rw [ofNat_lt_iff (by omega) (by omega)]; exact hlt)]
      rfl

variable (pmAllocateN b)

theorem remapMemmapEntry_eq {base : Addr} {length : BitVec 64} (hbase : base.toNat % 2 ^ 12 = 0)
    (hlength : length.toNat % 2 ^ 12 = 0) (hmax : base.toNat + length.toNat ≤ 2 ^ 52)
    : Lays pmAllocateN b base.toNat (base.toNat + length.toNat) base.toNat (base.toNat + length.toNat)
        fun m => remapMemmapEntry pmAllocateN b cache m base length := by
  have hfuel : base.toNat + length.toNat - base.toNat < 2 ^ 12 * remapFuel length := by
    unfold remapFuel
    omega
  have hstop : base + length = BitVec.ofNat 64 (base.toNat + length.toNat) := by
    rw [BitVec.ofNat_add, BitVec.ofNat_toNat, BitVec.ofNat_toNat]
    simp
  have hfirst : base = BitVec.ofNat 64 base.toNat := by
    simp
  obtain ⟨mid, head, hhead, hmid, hmidle, hoff, hon, heqhead⟩ :=
    @remapHead_eq σ pmAllocateN b cache (remapFuel length) base.toNat base.toNat
      (base.toNat + length.toNat) hbase (by omega) (by omega) hmax hfuel (by omega)
  have hcheck : check b.cfg (decide (base + length ≤ base + length)) = .ok () := by
    apply check_of
    simp
  rw [← hstop, ← hfirst] at heqhead
  simp only [remapMemmapEntry, heqhead]
  cases hhuge : b.hhdmHugepages with
  | false =>
    rw [hoff hhuge] at hhead ⊢
    refine hhead.congr ?_
    intro m
    cases head m with
    | error f => rfl
    | ok m' =>
      simp only [Except.map, Except.ok_bind, ← hstop]
      exact congrArg (· >>= fun _ => Except.ok m') hcheck
  | true =>
    have hle := hhead.le
    have hon := hon hhuge
    obtain ⟨tail, htail, heqtail⟩ :=
      @remapLarge_eq σ pmAllocateN b cache (remapFuel length) mid base.toNat
        (base.toNat + length.toNat) hmid (by omega) hle hmidle hmax (by omega) hhuge
        (by
          intro hne hin
          rw [blockIn_mib2] at hin
          change mid % 2 ^ 21 ≠ 0 at hne
          omega)
        (by
          intro hne hin
          rw [blockIn_gib1] at hin
          change mid % 2 ^ 30 ≠ 0 at hne
          omega)
    rw [← hstop] at heqtail
    refine (hhead.append htail).congr ?_
    intro m
    cases head m with
    | error f => rfl
    | ok m' =>
      simp only [Except.map, Except.ok_bind, if_pos, heqtail]
      cases tail m' with
      | error f => rfl
      | ok m'' => exact congrArg (· >>= fun _ => Except.ok m'') hcheck

end

end Boot
end Nyy
