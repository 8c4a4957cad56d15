import NyyKernel.Boot.Lemmas
import NyyKernel.Paging.Undo

namespace Nyy
namespace Boot

open Paging
open Radix (find)

variable {σ : Type} {pmAllocateN : PmAllocate σ} {Ok : σ → Prop} {used : σ → Set Addr} {b : Setup}
  {x y a c : Nat} {size size' : PageSize} {piece p q : Piece} {pieces done : List Piece} {mem₀ : PageMem}
  {m m' : Mmu σ} {v : Addr}

def Setup.addr (b : Setup) (x : Nat) : Addr := b.hhdmStart + BitVec.ofNat 64 x

def Setup.Window (b : Setup) (x : Nat) : Prop :=
  b.hhdmStart.toNat + x < 2 ^ 64 ∧ Canonical (b.addr x)

theorem Setup.toNat_addr (h : b.hhdmStart.toNat + x < 2 ^ 64)
    : (b.addr x).toNat = b.hhdmStart.toNat + x := by
  unfold Setup.addr
  rw [BitVec.toNat_add, BitVec.toNat_ofNat]
  omega

theorem Setup.window_of_high (hhigh : 2 ^ 64 - 2 ^ 47 ≤ b.hhdmStart.toNat)
    (h : b.hhdmStart.toNat + x < 2 ^ 64)
    : b.Window x := by
  refine ⟨h, ?_⟩
  rw [canonical_iff, Setup.toNat_addr h]
  omega

theorem Setup.addr_inj (hx : b.hhdmStart.toNat + x < 2 ^ 64) (hy : b.hhdmStart.toNat + y < 2 ^ 64)
    (h : b.addr x = b.addr y)
    : x = y := by
  have := congrArg BitVec.toNat h
  rw [toNat_addr hx, toNat_addr hy] at this
  omega

def Piece.Covers (piece : Piece) (x : Nat) : Prop :=
  piece.base ≤ x ∧ x < piece.base + piece.size.bytes

def Piece.slot (b : Setup) (piece : Piece) : List (BitVec 9) :=
  Paging.slot piece.size.flags (b.addr piece.base)

def Apart (p q : Piece) : Prop := ∀ x, p.Covers x → ¬ q.Covers x

theorem Piece.covers_base (piece : Piece) : piece.Covers piece.base := by
  have := piece.size.bytes_pos
  unfold Covers
  omega

theorem Piece.Ok.covers_iff (h : piece.Ok)
    : piece.Covers x ↔ x / piece.size.bytes = piece.base / piece.size.bytes := by
  obtain ⟨n, hn⟩ := Nat.dvd_of_mod_eq_zero h.aligned
  unfold Piece.Covers
  rw [Nat.div_eq_iff piece.size.bytes_pos, hn, Nat.mul_div_cancel_left _ piece.size.bytes_pos,
    Nat.mul_comm n]
  have := piece.size.bytes_pos
  omega

structure Piece.Fits (b : Setup) (piece : Piece) : Prop extends piece.Ok where
  window : ∀ x, piece.Covers x → b.Window x

theorem Piece.Fits.slot_eq_iff (h : piece.Fits b) (hstart : b.hhdmStart.toNat % 2 ^ 30 = 0)
    (hv : Canonical v)
    : Paging.slot piece.size.flags v = piece.slot b ↔ ∃ x, piece.Covers x ∧ v = b.addr x := by
  obtain ⟨k, hk⟩ := piece.size.bytes_dvd_gib.trans (Nat.dvd_of_mod_eq_zero hstart)
  have hpos := piece.size.bytes_pos
  have hbase := h.window _ piece.covers_base
  have hdiv : ∀ x, (b.hhdmStart.toNat + x) / piece.size.bytes = k + x / piece.size.bytes := by
    intro x
    rw [hk, Nat.mul_add_div hpos]
  unfold Piece.slot
  rw [Paging.slot_eq_iff hv hbase.2, Setup.toNat_addr hbase.1, hdiv]
  constructor
  . intro heq
    have hle : b.hhdmStart.toNat ≤ v.toNat := by
      rw [hk, Nat.mul_comm, ← Nat.le_div_iff_mul_le hpos, heq]
      exact Nat.le_add_right _ _
    obtain ⟨x, hx⟩ := Nat.exists_eq_add_of_le hle
    rw [hx, hdiv] at heq
    have hcovers : piece.Covers x := h.covers_iff.mpr (by omega)
    refine ⟨x, hcovers, BitVec.eq_of_toNat_eq ?_⟩
    rw [hx, Setup.toNat_addr (h.window x hcovers).1]
  . rintro ⟨x, hx, rfl⟩
    rw [Setup.toNat_addr (h.window x hx).1, hdiv, h.covers_iff.mp hx]

theorem Tiles.ok (h : Tiles a c pieces) : ∀ piece ∈ pieces, piece.Ok := by
  induction h with
  | nil => simp
  | cons hok _ ih => simpa [hok] using ih

theorem Tiles.covers_iff (h : Tiles a c pieces) (x : Nat)
    : (∃ piece ∈ pieces, piece.Covers x) ↔ a ≤ x ∧ x < c := by
  induction h with
  | nil => simp
  | @cons stop piece pieces hok htail ih =>
    have := htail.le
    rw [List.exists_mem_cons_iff, ih]
    unfold Piece.Covers
    omega

theorem Tiles.apart (h : Tiles a c pieces) : pieces.Pairwise Apart := by
  induction h with
  | nil => exact List.Pairwise.nil
  | cons hok htail ih =>
    refine List.Pairwise.cons ?_ ih
    intro q hq x hx hx'
    have := (htail.covers_iff x).mp ⟨q, hq, hx'⟩
    have := hx.2
    omega

def Entry.Has (e : Entry) (x : Nat) : Prop :=
  e.base.toNat ≤ x ∧ x < e.base.toNat + e.length.toNat

structure Entry.Fits (b : Setup) (e : Entry) : Prop where
  base : e.base.toNat % 2 ^ 12 = 0
  length : e.length.toNat % 2 ^ 12 = 0
  physical : e.base.toNat + e.length.toNat ≤ 2 ^ 52
  window : ∀ x, e.Has x → b.Window x

def Entry.Disjoint (e e' : Entry) : Prop := ∀ x, e.Has x → ¬ e'.Has x

def Under (p q : Piece) : Prop := p.Covers q.base → p.size.bytes ≤ q.size.bytes

theorem bytes_dvd_of_le (h : size.bytes ≤ size'.bytes) : size.bytes ∣ size'.bytes := by
  unfold PageSize.bytes at h ⊢
  exact Nat.pow_dvd_pow 2 ((Nat.pow_le_pow_iff_right (by decide)).mp h)

theorem div_bytes_congr (h : size.bytes ≤ size'.bytes) (hxy : x / size.bytes = y / size.bytes)
    : x / size'.bytes = y / size'.bytes := by
  obtain ⟨k, hk⟩ := bytes_dvd_of_le h
  rw [hk, ← Nat.div_div_eq_div_mul, ← Nat.div_div_eq_div_mul, hxy]

theorem Piece.Ok.covers_of_larger (hp : p.Ok) (hq : q.Ok) (hx : p.Covers x) (hx' : q.Covers x)
    (hlt : q.size.bytes < p.size.bytes)
    : p.Covers q.base := by
  have hbase := hq.covers_iff.mp hx'
  rw [hp.covers_iff, ← div_bytes_congr (Nat.le_of_lt hlt) hbase]
  exact hp.covers_iff.mp hx

theorem Under.le (h : Under p q) (hp : p.Ok) (hq : q.Ok) (hx : p.Covers x) (hx' : q.Covers x)
    : p.size.bytes ≤ q.size.bytes := by
  by_contra hlt
  exact hlt (h (hp.covers_of_larger hq hx hx' (Nat.lt_of_not_le hlt)))

theorem pieceSize_congr {a c : Nat} (h : x / (pieceSize b a c y).bytes = y / (pieceSize b a c y).bytes)
    : pieceSize b a c x = pieceSize b a c y := by
  have hblock : ∀ size : PageSize, (pieceSize b a c y).bytes ≤ size.bytes
      → (BlockIn size a c x ↔ BlockIn size a c y) := by
    intro size hle
    unfold BlockIn
    rw [div_bytes_congr hle h]
  have hgib := hblock .gib1 (by cases pieceSize b a c y <;> decide)
  by_cases hin : b.hhdmHugepages = true ∧ b.features.gbpages = true ∧ BlockIn .gib1 a c y
  . rw [pieceSize_gib1 hin.1 hin.2.1 hin.2.2, pieceSize_gib1 hin.1 hin.2.1 (hgib.mpr hin.2.2)]
  . have hle : (pieceSize b a c y).bytes ≤ PageSize.mib2.bytes := by
      unfold pieceSize
      rw [if_neg hin]
      split <;> decide
    have hmib := hblock .mib2 hle
    unfold pieceSize
    simp only [hgib, hmib]

def Entry.pieceSize (b : Setup) (e : Entry) (x : Nat) : PageSize :=
  Boot.pieceSize b e.base.toNat (e.base.toNat + e.length.toNat) x

def Entry.Under (b : Setup) (e e' : Entry) : Prop :=
  ∀ x, e.Has x → e'.Has x → (e.pieceSize b x).bytes ≤ (e'.pieceSize b x).bytes

structure Plan (b : Setup) (entries : List Entry) (pieces : List Piece) : Prop where
  ok : ∀ piece ∈ pieces, piece.Ok
  source : ∀ piece ∈ pieces, ∃ e ∈ entries, ∀ x, piece.Covers x
    → e.Has x ∧ piece.size = e.pieceSize b x
  complete : ∀ e ∈ entries, ∀ x, e.Has x
    → ∃ piece ∈ pieces, piece.Covers x ∧ piece.size = e.pieceSize b x
  nested : pieces.Pairwise Under ↔ entries.Pairwise (Entry.Under b)

theorem plan_entry {e : Entry} {pieces : List Piece}
    (htiles : Tiles e.base.toNat (e.base.toNat + e.length.toNat) pieces)
    (hsizes : ∀ piece ∈ pieces, piece.size = e.pieceSize b piece.base)
    : Plan b [e] pieces := by
  have hok := htiles.ok
  have hsize : ∀ piece ∈ pieces, ∀ x, piece.Covers x → piece.size = e.pieceSize b x := by
    intro piece hp x hx
    have hbase := (hok piece hp).covers_iff.mp hx
    rw [hsizes piece hp] at hbase
    rw [hsizes piece hp]
    exact (pieceSize_congr hbase).symm
  constructor
  . exact hok
  . intro piece hp
    refine ⟨e, List.mem_singleton.mpr rfl, ?_⟩
    intro x hx
    exact ⟨(htiles.covers_iff x).mp ⟨piece, hp, hx⟩, hsize piece hp x hx⟩
  . intro e' he' x hx
    obtain rfl := List.mem_singleton.mp he'
    obtain ⟨piece, hp, hcovers⟩ := (htiles.covers_iff x).mpr hx
    exact ⟨piece, hp, hcovers, hsize piece hp x hcovers⟩
  . refine ⟨fun _ => List.pairwise_singleton _ _, fun _ => ?_⟩
    apply htiles.apart.imp
    intro p q hapart hcovers
    exact absurd q.covers_base (hapart _ hcovers)

theorem Plan.append {es es' : List Entry} {ps ps' : List Piece} (h : Plan b es ps) (h' : Plan b es' ps')
    : Plan b (es ++ es') (ps ++ ps') := by
  constructor
  . intro piece hp
    exact (List.mem_append.mp hp).elim (h.ok piece) (h'.ok piece)
  . intro piece hp
    cases List.mem_append.mp hp with
    | inl hp =>
      obtain ⟨e, he, hx⟩ := h.source piece hp
      exact ⟨e, List.mem_append_left _ he, hx⟩
    | inr hp =>
      obtain ⟨e, he, hx⟩ := h'.source piece hp
      exact ⟨e, List.mem_append_right _ he, hx⟩
  . intro e he x hx
    cases List.mem_append.mp he with
    | inl he =>
      obtain ⟨piece, hp, hcovers⟩ := h.complete e he x hx
      exact ⟨piece, List.mem_append_left _ hp, hcovers⟩
    | inr he =>
      obtain ⟨piece, hp, hcovers⟩ := h'.complete e he x hx
      exact ⟨piece, List.mem_append_right _ hp, hcovers⟩
  . rw [List.pairwise_append, List.pairwise_append, h.nested, h'.nested]
    refine and_congr_right' (and_congr_right' ?_)
    constructor
    . intro hunder e he e' he' x hx hx'
      obtain ⟨p, hp, hcovers, hsize⟩ := h.complete e he x hx
      obtain ⟨q, hq, hcovers', hsize'⟩ := h'.complete e' he' x hx'
      rw [← hsize, ← hsize']
      exact (hunder p hp q hq).le (h.ok p hp) (h'.ok q hq) hcovers hcovers'
    . intro hunder p hp q hq hcovers
      obtain ⟨e, he, hp⟩ := h.source p hp
      obtain ⟨e', he', hq⟩ := h'.source q hq
      obtain ⟨hx, hsize⟩ := hp q.base hcovers
      obtain ⟨hx', hsize'⟩ := hq q.base q.covers_base
      rw [hsize, hsize']
      exact hunder e he e' he' q.base hx hx'

theorem remapEntries_plan (pmAllocateN : PmAllocate σ) {entries : List Entry}
    (hbase : ∀ e ∈ entries, e.base.toNat % 2 ^ 12 = 0)
    (hlength : ∀ e ∈ entries, e.length.toNat % 2 ^ 12 = 0)
    (hmax : ∀ e ∈ entries, e.base.toNat + e.length.toNat ≤ 2 ^ 52)
    : ∃ pieces, Plan b entries pieces
      ∧ ∀ m, remapEntries pmAllocateN b m entries = pieces.foldlM (mapPiece pmAllocateN b) m := by
  induction entries with
  | nil =>
    refine ⟨[], ⟨by simp, by simp, by simp, by simp⟩, ?_⟩
    intro m
    rfl
  | cons e entries ih =>
    obtain ⟨first, htiles, hsizes, hfirst⟩ := remapMemmapEntry_eq pmAllocateN b e.cache
      (hbase e List.mem_cons_self) (hlength e List.mem_cons_self) (hmax e List.mem_cons_self)
    obtain ⟨rest, hplan, hrest⟩ := ih (fun e' he' => hbase e' (List.mem_cons_of_mem e he'))
      (fun e' he' => hlength e' (List.mem_cons_of_mem e he'))
      (fun e' he' => hmax e' (List.mem_cons_of_mem e he'))
    refine ⟨first ++ rest, (plan_entry htiles hsizes).append hplan, ?_⟩
    intro m
    unfold remapEntries
    rw [List.foldlM_cons, List.foldlM_append, ← hfirst]
    congr 1
    funext m'
    exact hrest m'

def AllClear (pmAllocateN : PmAllocate σ) (b : Setup) : List Piece → Mmu σ → Prop
  | [], _ => True
  | piece :: pieces, m =>
    Clear m.mem b.cr3 (slotPath piece.size.flags (b.addr piece.base))
      ∧ ∀ m', mapPiece pmAllocateN b m piece = .ok m' → AllClear pmAllocateN b pieces m'

theorem size_leaf (size : PageSize) (entry : BitVec 64) : (size.leaf entry).size = size := by
  cases size <;> rfl

theorem not_clear_of_larger {mem : PageMem} {cr3 v : Addr} {leaf : Leaf} {size : PageSize}
    (h : hardwareWalk mem cr3 v = some leaf) (hlt : size.bytes < leaf.size.bytes)
    : ¬ Clear mem cr3 (slotPath size.flags v) := by
  intro hclear
  rw [hardwareWalk_eq] at h
  cases hgib : find tableBelow mem cr3 isLarge [index v 3] (index v 2) with
  | some e =>
    have hpre : [index v 3] ++ [index v 2] <+: slotPath size.flags v := by
      rw [hgib] at h
      cases h
      cases size with
      | kib4 => exact List.prefix_append _ [index v 1]
      | mib2 => exact List.prefix_refl _
      | gib1 => exact absurd hlt (Nat.lt_irrefl _)
    rw [hclear _ _ hpre] at hgib
    cases hgib
  | none =>
    rw [hgib] at h
    cases hmib : find tableBelow mem cr3 isLarge [index v 3, index v 2] (index v 1) with
    | some e =>
      have hpre : [index v 3, index v 2] ++ [index v 1] <+: slotPath size.flags v := by
        rw [hmib] at h
        cases h
        cases size with
        | kib4 => exact List.prefix_refl _
        | mib2 => exact absurd hlt (Nat.lt_irrefl _)
        | gib1 => exact absurd (show PageSize.gib1.bytes < PageSize.mib2.bytes from hlt) (by decide)
      rw [hclear _ _ hpre] at hmib
      cases hmib
    | none =>
      rw [hmib] at h
      obtain ⟨e, _, rfl⟩ := Option.map_eq_some_iff.mp h
      have hlt : size.bytes < PageSize.kib4.bytes := hlt
      revert hlt
      cases size <;> decide

theorem AllClear.clear {before after : List Piece} {m₁ : Mmu σ}
    (h : AllClear pmAllocateN b (before ++ piece :: after) m)
    (hrun : before.foldlM (mapPiece pmAllocateN b) m = .ok m₁)
    : Clear m₁.mem b.cr3 (slotPath piece.size.flags (b.addr piece.base)) := by
  induction before generalizing m with
  | nil =>
    cases hrun
    exact h.1
  | cons q before ih =>
    obtain ⟨m', hm, hrun⟩ := Except.bind_eq_ok hrun
    exact ih (h.2 m' hm) hrun

-- the state after the pieces, over the memory before them
structure Direct (b : Setup) (used : σ → Set Addr) (mem₀ : PageMem) (done : List Piece) (m : Mmu σ)
    : Prop where
  sound : Sound m.mem b.cr3 (used m.pm)
  root : ∀ i, isLarge (m.mem b.cr3 i) = false
  regular : Regular mem₀ b.cr3 → Regular m.mem b.cr3
  found : ∀ x, (∃ p ∈ done, p.Covers x) → ∃ p ∈ done, p.Covers x
    ∧ hardwareWalk m.mem b.cr3 (b.addr x) = some (p.size.leaf p.entry)
    ∧ ∀ q ∈ done, q.Covers x → q.size.bytes ≤ p.size.bytes
  elsewhere : ∀ v, Canonical v → (∀ p ∈ done, ∀ x, p.Covers x → v ≠ b.addr x)
    → hardwareWalk m.mem b.cr3 v = hardwareWalk mem₀ b.cr3 v

theorem Direct.nil (hsound : Sound m.mem b.cr3 (used m.pm)) (hroot : ∀ i, isLarge (m.mem b.cr3 i) = false)
    : Direct b used m.mem [] m :=
  ⟨hsound, hroot, id, by simp, fun _ _ _ => rfl⟩

theorem Direct.missing (h : Direct b used mem₀ done m) (hdone : ∀ p ∈ done, p.Fits b) (hx : b.Window x)
    (hnone : ∀ p ∈ done, ¬ p.Covers x)
    : hardwareWalk m.mem b.cr3 (b.addr x) = hardwareWalk mem₀ b.cr3 (b.addr x) := by
  apply h.elsewhere _ hx.2
  intro p hp y hy heq
  rw [← Setup.addr_inj hx.1 ((hdone p hp).window y hy).1 heq] at hy
  exact hnone p hp hy

theorem Direct.under_of_clear (h : Direct b used mem₀ done m)
    (hclear : Clear m.mem b.cr3 (slotPath piece.size.flags (b.addr piece.base)))
    : ∀ p ∈ done, Under p piece := by
  intro p hp hcovers
  by_contra hlarger
  obtain ⟨q, hq, _, hwalk, hmax⟩ := h.found _ ⟨p, hp, hcovers⟩
  have := hmax p hp hcovers
  refine not_clear_of_larger hwalk ?_ hclear
  rw [size_leaf]
  omega

theorem Direct.clear (h : Direct b used mem₀ done m) (hdone : ∀ p ∈ done, p.Fits b) (hpiece : piece.Fits b)
    (hblank : hardwareWalk mem₀ b.cr3 (b.addr piece.base) = none) (hunder : ∀ p ∈ done, Under p piece)
    : Clear m.mem b.cr3 (slotPath piece.size.flags (b.addr piece.base)) := by
  refine NotInside.clear ?_ h.root
  intro leaf hleaf
  by_cases hcovered : ∃ p ∈ done, p.Covers piece.base
  . obtain ⟨p, hp, hcovers, hwalk, _⟩ := h.found _ hcovered
    rw [hwalk] at hleaf
    cases hleaf
    rw [size_leaf]
    exact hunder p hp hcovers
  . rw [h.missing hdone (hpiece.window _ piece.covers_base)
      (fun p hp hcovers => hcovered ⟨p, hp, hcovers⟩), hblank] at hleaf
    cases hleaf

section

variable (hsrc : PageSource pmAllocateN Ok used) (hstart : b.hhdmStart.toNat % 2 ^ 30 = 0) (hok : Ok m.pm)
  (h : Direct b used mem₀ done m) (hdone : ∀ p ∈ done, p.Fits b)

include hsrc hstart hok h hdone

theorem Direct.step (hpiece : piece.Fits b) (hunder : ∀ p ∈ done, Under p piece)
    (hclear : Clear m.mem b.cr3 (slotPath piece.size.flags (b.addr piece.base)))
    (hmap : mapPiece pmAllocateN b m piece = .ok m')
    : Ok m'.pm ∧ Direct b used mem₀ (piece :: done) m' := by
  have hentry : piece.size ≠ .kib4 → tableBelow piece.entry = none := by
    intro hne
    have := hpiece.large hne
    simp only [isLarge, Bool.and_eq_true] at this
    exact tableBelow_of_large this.2
  have hplaced := mapEntry_placed hsrc hok h.sound hclear hentry hmap
  rw [hpiece.present] at hplaced
  have hkept : ∀ v, Canonical v → (∀ x, piece.Covers x → v ≠ b.addr x)
      → hardwareWalk m'.mem b.cr3 v = hardwareWalk m.mem b.cr3 v := by
    intro v hv hnot
    apply hplaced.outside.hardwareWalk
    intro hpre
    obtain ⟨x, hx, rfl⟩ := (hpiece.slot_eq_iff hstart hv).mp (slot_eq_of_path hpre).symm
    exact hnot x hx rfl
  have hlen : 2 ≤ (Paging.slot piece.size.flags (b.addr piece.base)).length := by
    cases piece.size <;> simp [slot, slotPath, PageSize.flags]
  refine ⟨hsrc.ok_of_taken hok hplaced.taken, hplaced.sound, hplaced.outside.root hlen h.root,
    fun hr => hplaced.outside.regular hlen (h.regular hr), ?_, ?_⟩
  . intro x hcovered
    by_cases hcovers : piece.Covers x
    . refine ⟨piece, List.mem_cons_self, hcovers,
        hplaced.here _ ((hpiece.slot_eq_iff hstart (hpiece.window x hcovers).2).mpr ⟨x, hcovers, rfl⟩), ?_⟩
      intro q hq hcovers'
      cases hq with
      | head => exact Nat.le_refl _
      | tail _ hq => exact (hunder q hq).le (hdone q hq).toOk hpiece.toOk hcovers' hcovers
    . have hold : ∃ p ∈ done, p.Covers x := by
        obtain ⟨p, hp, hcov⟩ := hcovered
        cases hp with
        | head => exact absurd hcov hcovers
        | tail _ hp => exact ⟨p, hp, hcov⟩
      obtain ⟨p, hp, hcov, hwalk, hmax⟩ := h.found x hold
      have hwindow := (hdone p hp).window x hcov
      refine ⟨p, List.mem_cons_of_mem _ hp, hcov, (hkept _ hwindow.2 ?_).trans hwalk, ?_⟩
      . intro y hy heq
        rw [← Setup.addr_inj hwindow.1 (hpiece.window y hy).1 heq] at hy
        exact hcovers hy
      . intro q hq hcovers'
        cases hq with
        | head => exact absurd hcovers' hcovers
        | tail _ hq => exact hmax q hq hcovers'
  . intro v hv hnone
    rw [List.forall_mem_cons] at hnone
    rw [hkept v hv hnone.1, h.elsewhere v hv hnone.2]

theorem Direct.allClear (hpieces : ∀ p ∈ pieces, p.Fits b)
    (hblank : ∀ p ∈ pieces, hardwareWalk mem₀ b.cr3 (b.addr p.base) = none) (hpairs : pieces.Pairwise Under)
    (hcross : ∀ p ∈ done, ∀ q ∈ pieces, Under p q)
    : AllClear pmAllocateN b pieces m := by
  induction pieces generalizing m done with
  | nil => trivial
  | cons piece pieces ih =>
    rw [List.forall_mem_cons] at hpieces hblank
    rw [List.pairwise_cons] at hpairs
    have hunder : ∀ p ∈ done, Under p piece := fun p hp => hcross p hp piece List.mem_cons_self
    have hclear := h.clear hdone hpieces.1 hblank.1 hunder
    refine ⟨hclear, ?_⟩
    intro m₁ hmap
    obtain ⟨hok₁, h₁⟩ := h.step hsrc hstart hok hdone hpieces.1 hunder hclear hmap
    refine ih hok₁ h₁ (List.forall_mem_cons.mpr ⟨hpieces.1, hdone⟩) hpieces.2 hblank.2 hpairs.2 ?_
    exact List.forall_mem_cons.mpr ⟨hpairs.1, fun p hp q hq => hcross p hp q (List.mem_cons_of_mem _ hq)⟩

theorem Direct.run (hpieces : ∀ p ∈ pieces, p.Fits b)
    (hrun : pieces.foldlM (mapPiece pmAllocateN b) m = .ok m') (hall : AllClear pmAllocateN b pieces m)
    : (pieces.Pairwise Under ∧ ∀ p ∈ done, ∀ q ∈ pieces, Under p q)
      ∧ Direct b used mem₀ (pieces.reverse ++ done) m' := by
  induction pieces generalizing m done with
  | nil =>
    cases hrun
    exact ⟨by simp, h⟩
  | cons piece pieces ih =>
    obtain ⟨m₁, hmap, hrun⟩ := Except.bind_eq_ok hrun
    rw [List.forall_mem_cons] at hpieces
    have hunder := h.under_of_clear hall.1
    obtain ⟨hok₁, h₁⟩ := h.step hsrc hstart hok hdone hpieces.1 hunder hall.1 hmap
    obtain ⟨⟨hpairs, hcross⟩, hend⟩ := ih hok₁ h₁ (List.forall_mem_cons.mpr ⟨hpieces.1, hdone⟩)
      hpieces.2 hrun (hall.2 m₁ hmap)
    rw [List.forall_mem_cons] at hcross
    rw [List.reverse_cons, List.append_assoc]
    refine ⟨⟨List.pairwise_cons.mpr ⟨hcross.1, hpairs⟩, ?_⟩, hend⟩
    exact fun p hp => List.forall_mem_cons.mpr ⟨hunder p hp, hcross.2 p hp⟩

end

def Found (b : Setup) (m : Mmu σ) (x : Nat) : Prop :=
  ∃ leaf, hardwareWalk m.mem b.cr3 (b.addr x) = some leaf
    ∧ leaf.address (b.addr x) = BitVec.ofNat 64 x

theorem Piece.Ok.found (hpiece : piece.Ok) (hstart : b.hhdmStart.toNat % 2 ^ 30 = 0) (hx : piece.Covers x)
    (hwindow : b.Window x)
    (hwalk : hardwareWalk m.mem b.cr3 (b.addr x) = some (piece.size.leaf piece.entry))
    : Found b m x := by
  refine ⟨_, hwalk, ?_⟩
  apply leaf_address hpiece.frame hpiece.aligned (hpiece.covers_iff.mp hx)
  obtain ⟨k, hk⟩ := piece.size.bytes_dvd_gib.trans (Nat.dvd_of_mod_eq_zero hstart)
  rw [Setup.toNat_addr hwindow.1, hk, Nat.mul_add_mod]

theorem Direct.found_iff (h : Direct b used mem₀ done m) (hdone : ∀ p ∈ done, p.Fits b)
    (hstart : b.hhdmStart.toNat % 2 ^ 30 = 0) (hx : b.Window x)
    (hblank : hardwareWalk mem₀ b.cr3 (b.addr x) = none)
    : Found b m x ↔ ∃ p ∈ done, p.Covers x := by
  constructor
  . rintro ⟨leaf, hwalk, _⟩
    by_contra hnone
    rw [h.missing hdone hx (fun p hp hcovers => hnone ⟨p, hp, hcovers⟩), hblank] at hwalk
    cases hwalk
  . intro hcovered
    obtain ⟨p, hp, hcovers, hwalk, _⟩ := h.found x hcovered
    exact (hdone p hp).toOk.found hstart hcovers hx hwalk

theorem mapPiece_error {f : Fault} (h : mapPiece pmAllocateN b m piece = .error f)
    : ∃ a, pmAllocateN a = .error f := by
  refine mapEntry_error ?_ h
  cases piece.size <;> rfl

theorem foldlM_mapPiece_error {f : Fault} (h : pieces.foldlM (mapPiece pmAllocateN b) m = .error f)
    : ∃ a, pmAllocateN a = .error f := by
  by_contra hnone
  exact Except.foldlM_ne_error (fun m piece _ h => hnone (mapPiece_error h)) m h

theorem remap_exact (hsrc : PageSource pmAllocateN Ok used) {m₀ m : Mmu σ} (hok : Ok m₀.pm)
    (hinit : vmPortInitMap pmAllocateN m₀ = .ok (b.cr3, m)) (hstart : b.hhdmStart.toNat % 2 ^ 30 = 0)
    {entries : List Entry} (hfits : ∀ e ∈ entries, e.Fits b) (hdisjoint : entries.Pairwise Entry.Disjoint)
    : (∀ f, remapEntries pmAllocateN b m entries = .error f → ∃ a, pmAllocateN a = .error f)
      ∧ (∀ m', remapEntries pmAllocateN b m entries = .ok m'
        → (∀ e ∈ entries, ∀ x, e.Has x → ∃ leaf,
            hardwareWalk m'.mem b.cr3 (b.addr x) = some leaf
              ∧ leaf.address (b.addr x) = BitVec.ofNat 64 x)
          ∧ (∀ v, Canonical v → (∀ e ∈ entries, ∀ x, e.Has x → v ≠ b.addr x)
            → hardwareWalk m'.mem b.cr3 v = none))
      ∧ (∃ pieces, remapEntries pmAllocateN b m entries
            = pieces.foldlM (mapPiece pmAllocateN b) m
          ∧ ∀ before piece after m₁, pieces = before ++ piece :: after
            → before.foldlM (mapPiece pmAllocateN b) m = .ok m₁
            → Clear m₁.mem b.cr3 (slotPath piece.size.flags (b.addr piece.base))) := by
  obtain ⟨pieces, hplan, heq⟩ := remapEntries_plan (b := b) pmAllocateN
    (fun e he => (hfits e he).base) (fun e he => (hfits e he).length) (fun e he => (hfits e he).physical)
  obtain ⟨hpm, href⟩ := Refines.init hsrc hok hinit
  have hroot : ∀ i, isLarge (m.mem b.cr3 i) = false := by
    obtain ⟨⟨page, pm⟩, _, hm⟩ := Except.bind_eq_ok hinit
    cases hm
    intro i
    simp only [Radix.clear, if_true]
    exact isLarge_zero
  have hsource : ∀ p ∈ pieces, ∀ x, p.Covers x → ∃ e ∈ entries, e.Has x := by
    intro p hp x hx
    obtain ⟨e, he, hsource⟩ := hplan.source p hp
    exact ⟨e, he, (hsource x hx).1⟩
  have hpieces : ∀ p ∈ pieces, p.Fits b := by
    refine fun p hp => ⟨hplan.ok p hp, ?_⟩
    intro x hx
    obtain ⟨e, he, hhas⟩ := hsource p hp x hx
    exact (hfits e he).window x hhas
  have hunder : pieces.Pairwise Under := by
    refine hplan.nested.mpr (hdisjoint.imp ?_)
    intro e e' hapart x hx hx'
    exact absurd hx' (hapart x hx)
  have hnone : Direct b used m.mem [] m := .nil href.sound hroot
  have hblank : ∀ p ∈ pieces, hardwareWalk m.mem b.cr3 (b.addr p.base) = none :=
    fun p hp => href.walk _ ((hpieces p hp).window _ p.covers_base).2
  have hall := hnone.allClear hsrc hstart hpm (by simp) hpieces hblank hunder (by simp)
  rw [heq m]
  refine ⟨fun f hf => foldlM_mapPiece_error hf, ?_, pieces, rfl, ?_⟩
  . intro m' hm'
    have hend := (hnone.run hsrc hstart hpm (by simp) hpieces hm' hall).2
    rw [List.append_nil] at hend
    constructor
    . intro e he x hx
      obtain ⟨p, hp, hcovers, _⟩ := hplan.complete e he x hx
      have hwindow := (hpieces p hp).window x hcovers
      exact (hend.found_iff (fun p hp => hpieces p (List.mem_reverse.mp hp)) hstart hwindow
        (href.walk _ hwindow.2)).mpr ⟨p, List.mem_reverse.mpr hp, hcovers⟩
    . intro v hv hout
      rw [hend.elsewhere v hv, href.walk v hv]
      intro p hp x hx
      obtain ⟨e, he, hhas⟩ := hsource p (List.mem_reverse.mp hp) x hx
      exact hout e he x hhas
  . rintro before piece after m₁ rfl hbefore
    exact hall.clear hbefore

def sampleSetup : Setup :=
  ⟨⟨false⟩, ⟨true, true, true⟩, true, 0xFFFF800000000000, 0x1000⟩

def sampleEntry : Entry := ⟨0x1FF000, 0x202000, .writeback⟩

theorem sampleEntry_fits : sampleEntry.Fits sampleSetup := by
  constructor
  . decide
  . decide
  . decide
  . intro x hx
    have hlt : x < 0x1FF000 + 0x202000 := hx.2
    apply Setup.window_of_high
    . decide
    . change 0xFFFF800000000000 + x < 2 ^ 64
      omega

theorem remap_exact_sample
    : ∃ m m', vmPortInitMap bumpPage ⟨fun _ _ => 0, 1⟩ = .ok (0x1000, m)
      ∧ remapEntries bumpPage sampleSetup m [sampleEntry] = .ok m'
      ∧ (∃ leaf, hardwareWalk m'.mem 0x1000 (sampleSetup.addr 0x234567) = some leaf
        ∧ leaf.address (sampleSetup.addr 0x234567) = 0x234567) := by
  obtain ⟨m', hrun⟩ : ∃ m', remapEntries bumpPage sampleSetup firstMap [sampleEntry] = .ok m' := ⟨_, rfl⟩
  have hstart : (1 : Nat) ≤ 2 ^ 40 := by decide
  have hspec := remap_exact pageSource_bumpPage hstart firstMap_init (by decide)
    (List.forall_mem_singleton.mpr sampleEntry_fits) (List.pairwise_singleton _ _)
  refine ⟨firstMap, m', firstMap_init, hrun, ?_⟩
  exact (hspec.2.1 m' hrun).1 sampleEntry List.mem_cons_self 0x234567 ⟨by decide, by decide⟩

end Boot
end Nyy
