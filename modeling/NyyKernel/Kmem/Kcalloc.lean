import NyyKernel.Kmem.Impl
import NyyKernel.Kmem.Kmalloc

/-!
This module contains `kcalloc` of `kernel/vm/kmem.c`, and the pairs of a count and a size for which its block
is as long as their product.
-/

namespace Nyy
namespace Kmalloc

open Slab (Kmem KmemEnv pageSize)
open Nyy.Kmem (memKernelSize)

variable {n size : Nat} {st : State}

def memset (mem : Bytes) (ptr n : Nat) : Bytes := fun a => if ptr ≤ a ∧ a < ptr + n then 0 else mem a

def kcalloc (cfg : Config) (env : KmemEnv) (s : Kmem Bytes) (caches : List Nat) (count size : Nat)
    : Except Fault (Block × Kmem Bytes) :=
  if size = 0 ∨ count = 0 then
    kmalloc cfg env s caches 0
  else do
    let (b, s) ← kmalloc cfg env s caches (Word.mul count size)
    if b.bytes s < Word.mul count size then
      -- memset writes behind the end of the block
      .error .undefined
    else
      return (b, { s with mem := memset s.mem b.ptr (Word.mul count size) })

structure Limited (env : KmemEnv) : Prop extends Slab.Fresh env where
  total : ∀ ranges n a, env ranges n = some a →
    (n + (ranges.map Prod.snd).sum) * pageSize ≤ memKernelSize

inductive Whole (count size : Nat) : Except Fault (Block × Kmem Bytes) → Prop where
  | noMemory : Whole count size (.error .noMemory)
  | block (b : Block) (s : Kmem Bytes) (hbytes : count * size ≤ b.bytes s)
      (hzero : ∀ i < count * size, s.mem (b.ptr + i) = 0) : Whole count size (.ok (b, s))

def NeverShort (count size : Nat) : Prop :=
  ∀ cfg env, Limited env → ∀ st, Reach (Init cfg env) (Slab.Served (Step cfg)) st →
    Whole count size (kcalloc cfg env st.kmem st.caches count size)

def pagesFor (count size : Nat) : Nat := pageCount (Word.alignUp (Word.mul count size) pageSize)

section

variable {cfg : Config} {env : KmemEnv} {st : State} {n count size : Nat}

theorem dvd_alignUp (n : Nat) : pageSize ∣ Word.alignUp n pageSize := by
  have hmask : Word.sub pageSize 1 = 2 ^ 12 - 1 := by decide
  unfold Word.alignUp
  rw [hmask, Word.and_not_low (Word.sub_lt ..) (by decide)]
  exact Nat.dvd_mul_right ..

theorem kmalloc_of_max (h : Inv kmallocSizes st) (hmax : kmallocMax < n)
    : kmalloc cfg env st.kmem st.caches n = vmKalloc env st.kmem (Word.alignUp n pageSize) := by
  unfold kmalloc
  rw [(cacheFor_eq_none_iff h.length).mpr hmax]

theorem vmKalloc_cases (env : KmemEnv) (s : Kmem Bytes) (count : Nat) (hne : pageCount count ≠ 0)
    : (env s.ranges (pageCount count) = none ∧ vmKalloc env s count = .error .noMemory) ∨
        ∃ a, env s.ranges (pageCount count) = some a ∧ vmKalloc env s count =
          .ok (.pages a (pageCount count), { s with ranges := (a, pageCount count) :: s.ranges }) := by
  unfold vmKalloc Slab.vmKalloc
  rw [if_neg hne]
  cases env s.ranges (pageCount count) with
  | none => exact .inl ⟨rfl, rfl⟩
  | some a => exact .inr ⟨a, rfl, rfl⟩

theorem kmalloc_bytes (hf : Slab.Fresh env) (h : Inv kmallocSizes st) (hn : n ≤ 2 ^ 52 - pageSize)
    : kmalloc cfg env st.kmem st.caches n = .error .noMemory ∨
        ∃ b s, kmalloc cfg env st.kmem st.caches n = .ok (b, s) ∧ n ≤ b.bytes s := by
  by_cases hmax : n ≤ kmallocMax
  . rcases classServed cfg hf h hmax with ⟨m, cp, hmem, hle, _, _, herr | ⟨ptr, s, hok, _⟩⟩
    . exact .inl herr
    . right
      refine ⟨_, _, hok, Nat.le_trans hle ?_⟩
      exact ((h.kmalloc hf hok).class hmem).size
  . have hpage : pageSize = 4096 := rfl
    have hpos : kmallocMax = 2048 := rfl
    have halign := alignUp_page n (by omega)
    have hcount : pageCount (Word.alignUp n pageSize) = Word.alignUp n pageSize := by
      rw [pageCount_eq, halign, hpage]
      omega
    rw [kmalloc_of_max h (by omega)]
    rcases vmKalloc_cases env st.kmem (Word.alignUp n pageSize)
      (by rw [hcount, halign, hpage]; omega) with ⟨_, herr⟩ | ⟨a, _, hok⟩
    . exact .inl herr
    . right
      refine ⟨_, _, hok, ?_⟩
      unfold Block.bytes
      dsimp only
      rw [hcount, halign, hpage]
      omega

theorem sum_ranges_pos (h : Inv kmallocSizes st) : 1 ≤ (st.kmem.ranges.map Prod.snd).sum := by
  rcases h.slab with ⟨used, hinv⟩
  have hmem := hinv.core.descr _ hinv.core.metaCaches.slabCache
  exact List.le_sum_of_mem (List.mem_map_of_mem hmem)

theorem kmalloc_unservable (hl : Limited env) (h : Inv kmallocSizes st)
    (hn : 2 ^ 28 ≤ pageCount (Word.alignUp n pageSize))
    : kmalloc cfg env st.kmem st.caches n = .error .noMemory := by
  have hpage : pageSize = 4096 := rfl
  have hpos : kmallocMax = 2048 := rfl
  have hmax : kmallocMax < n := by
    by_contra hle
    rw [pageCount_eq, alignUp_page n (by omega), hpage] at hn
    omega
  rw [kmalloc_of_max h hmax]
  rcases vmKalloc_cases env st.kmem (Word.alignUp n pageSize) (by omega)
    with ⟨_, herr⟩ | ⟨a, henv, _⟩
  . exact herr
  . have htotal := hl.total _ _ _ henv
    have hsum := sum_ranges_pos h
    have hsize : memKernelSize = 2 ^ 40 := rfl
    rw [hsize] at htotal
    rw [hpage] at hn htotal
    omega

theorem Inv.bytes_lt (h : Inv kmallocSizes st) {b : Block} (hb : st.Holds b)
    : b.bytes st.kmem < 2 ^ 64 := by
  rcases h.slab with ⟨used, hinv⟩
  cases b with
  | object cp ptr =>
    have hcp := hinv.heldCreated cp ptr hb
    rcases hinv.allocated hb with ⟨sp, hsp, y, hy, _⟩
    have hinside := hinv.core.inside hcp hsp (List.mem_append_right _ hy)
    have haddr := hinv.core.ranges.addr _ (hinv.core.slabOk hcp hsp).range
    unfold Block.bytes
    dsimp only at haddr ⊢
    omega
  | pages ptr count =>
    have haddr := hinv.core.ranges.addr _ (h.ledger.perm.mem_iff.mpr (List.mem_append_right _ hb))
    unfold Block.bytes
    dsimp only at haddr ⊢
    omega

theorem Whole.of_kmalloc (hne : ¬ (size = 0 ∨ count = 0)) (hexact : Word.mul count size = count * size)
    (h : kmalloc cfg env st.kmem st.caches (Word.mul count size) = .error .noMemory ∨
      ∃ b s, kmalloc cfg env st.kmem st.caches (Word.mul count size) = .ok (b, s) ∧
        count * size ≤ b.bytes s)
    : Whole count size (kcalloc cfg env st.kmem st.caches count size) := by
  unfold kcalloc
  rw [if_neg hne]
  rcases h with herr | ⟨b, s, hok, hle⟩
  . rw [herr]
    exact .noMemory
  . rw [hok, Except.ok_bind]
    dsimp only
    rw [if_neg (by omega), hexact]
    refine .block b _ ?_ ?_
    . cases b with
      | object cp ptr => exact hle
      | pages ptr n => exact hle
    . intro i hi
      unfold memset
      dsimp only
      rw [if_pos (by omega)]

theorem whole_of_le (hf : Slab.Fresh env) (h : Inv kmallocSizes st) (hle : count * size ≤ 2 ^ 52 - pageSize)
    : Whole count size (kcalloc cfg env st.kmem st.caches count size) := by
  by_cases hzero : size = 0 ∨ count = 0
  . have hprod : count * size = 0 := by
      rcases hzero with rfl | rfl
      . exact Nat.mul_zero _
      . exact Nat.zero_mul _
    unfold kcalloc
    rw [if_pos hzero]
    rcases kmalloc_bytes (n := 0) hf h (Nat.zero_le _) with herr | ⟨b, s, hok, _⟩
    . rw [herr]
      exact .noMemory
    . rw [hok]
      exact .block b s (by omega) (by omega)
  . have hexact : Word.mul count size = count * size := Word.mul_eq (by omega)
    apply Whole.of_kmalloc hzero hexact
    rw [hexact]
    exact kmalloc_bytes hf h hle

theorem whole_of_unservable (hl : Limited env) (h : Inv kmallocSizes st)
    (hpages : 2 ^ 28 ≤ pagesFor count size)
    : Whole count size (kcalloc cfg env st.kmem st.caches count size) := by
  have hzero : ¬ (size = 0 ∨ count = 0) := by
    have hnone : pageCount (Word.alignUp 0 pageSize) = 0 := by decide
    unfold pagesFor Word.mul at hpages
    rintro (rfl | rfl)
    . rw [Nat.mul_zero, Nat.zero_mod, hnone] at hpages
      omega
    . rw [Nat.zero_mul, Nat.zero_mod, hnone] at hpages
      omega
  unfold kcalloc
  rw [if_neg hzero, kmalloc_unservable hl h hpages]
  exact .noMemory

theorem not_whole_of_short {s0 : Kmem Bytes} {caches : List Nat} (hlt : 0 < count * size)
    (h : kmalloc cfg env s0 caches (Word.mul count size) = .error .undefined ∨
      ∃ b s, kmalloc cfg env s0 caches (Word.mul count size) = .ok (b, s) ∧
        b.bytes s < count * size)
    : ¬ Whole count size (kcalloc cfg env s0 caches count size) := by
  have hzero : ¬ (size = 0 ∨ count = 0) := by
    rintro (rfl | rfl)
    . rw [Nat.mul_zero] at hlt
      omega
    . rw [Nat.zero_mul] at hlt
      omega
  unfold kcalloc
  rw [if_neg hzero]
  rcases h with herr | ⟨b, s, hok, hshort⟩
  . rw [herr]
    rintro ⟨⟩
  . rw [hok, Except.ok_bind]
    dsimp only
    split
    . rintro ⟨⟩
    . intro hwhole
      cases hwhole with
      | block _ _ hbytes _ =>
        have hsame : b.bytes { s with mem := memset s.mem b.ptr (Word.mul count size) } = b.bytes s := by
          cases b with
          | object cp ptr => rfl
          | pages ptr n => rfl
        omega

end

def capped : KmemEnv := fun ranges n =>
  if (n + (ranges.map Prod.snd).sum) * pageSize ≤ memKernelSize then Slab.bump ranges n else none

theorem limited_capped : Limited capped := by
  have hbump : ∀ ranges n a, capped ranges n = some a →
      (n + (ranges.map Prod.snd).sum) * pageSize ≤ memKernelSize ∧ Slab.bump ranges n = some a := by
    intro ranges n a ha
    unfold capped at ha
    split at ha
    . next hle => exact ⟨hle, ha⟩
    . cases ha
  refine ⟨⟨?_, ?_⟩, ?_⟩
  . exact fun ranges n a ha => Slab.fresh_bump.addr ranges n a (hbump ranges n a ha).2
  . exact fun ranges n a ha => Slab.fresh_bump.apart ranges n a (hbump ranges n a ha).2
  . exact fun ranges n a ha => (hbump ranges n a ha).1

theorem kmemInit_capped
    : ((kmemInit ⟨false⟩ capped blank).map fun r => (top r.2.ranges, (r.2.ranges.map Prod.snd).sum,
        kmallocSizes.all fun size => (kmalloc ⟨false⟩ capped r.2 r.1 size).isOk)) =
        .ok (114688, 14, true) := by
  decide +kernel

theorem exists_init_capped
    : ∃ st, Init ⟨false⟩ capped st ∧ top st.kmem.ranges ≤ 2 ^ 20 ∧
        (st.kmem.ranges.map Prod.snd).sum = 14 ∧
        ∀ size ∈ kmallocSizes, ∃ r, kmalloc ⟨false⟩ capped st.kmem st.caches size = .ok r := by
  rcases Except.map_eq_ok kmemInit_capped with ⟨⟨caches, s⟩, hok, hfacts⟩
  simp only [Prod.mk.injEq, List.all_eq_true] at hfacts
  refine ⟨during caches s, ⟨blank, rfl, hok, rfl, rfl, rfl⟩, ?_, hfacts.2.1, ?_⟩
  . change top s.ranges ≤ 2 ^ 20
    omega
  . intro size hsize
    have hisOk := hfacts.2.2 size hsize
    change ∃ r, kmalloc ⟨false⟩ capped s caches size = .ok r
    cases hr : kmalloc ⟨false⟩ capped s caches size with
    | error f =>
      rw [hr] at hisOk
      cases hisOk
    | ok r => exact ⟨r, rfl⟩

theorem cacheFor_class {caches : List Nat} {cp : Nat} (h : cacheFor caches size = some (n, cp))
    : cacheFor caches n = some (n, cp) := by
  unfold cacheFor at h ⊢
  rw [List.find?_eq_some_iff_append] at h ⊢
  rcases h with ⟨hle, before, after, hzip, hbefore⟩
  refine ⟨by simp, before, after, hzip, ?_⟩
  intro c hc
  have := hbefore c hc
  simp at this hle ⊢
  omega

theorem kmalloc_first (h : Inv kmallocSizes st) (hn : n ≤ kmallocMax)
    (hok : ∀ size ∈ kmallocSizes, ∃ r, kmalloc ⟨false⟩ capped st.kmem st.caches size = .ok r)
    : ∃ r, kmalloc ⟨false⟩ capped st.kmem st.caches n = .ok r := by
  cases hfor : cacheFor st.caches n with
  | none =>
    rw [cacheFor_eq_none_iff h.length] at hfor
    omega
  | some c =>
    rcases c with ⟨m, cp⟩
    rcases hok m (List.of_mem_zip (cacheFor_mem hfor).1).1 with ⟨r, hr⟩
    refine ⟨r, ?_⟩
    rw [← hr]
    unfold kmalloc
    rw [hfor, cacheFor_class hfor]

theorem kmalloc_bytes_lt {cfg : Config} {env : KmemEnv} {b : Block} {s : Kmem Bytes} (hf : Slab.Fresh env)
    (h : Inv kmallocSizes st) (hok : kmalloc cfg env st.kmem st.caches n = .ok (b, s))
    : b.bytes s < 2 ^ 64 := by
  have h1 := h.kmalloc hf hok
  cases b with
  | object cp ptr => exact h1.bytes_lt (b := .object cp ptr) (Set.mem_insert ..)
  | pages ptr count => exact h1.bytes_lt (b := .pages ptr count) List.mem_cons_self

theorem capped_eq_some {ranges : List (Nat × Nat)} (htop : top ranges ≤ 2 ^ 20)
    (hsum : (ranges.map Prod.snd).sum = 14) (hn : n + 14 ≤ 2 ^ 28)
    : ∃ a, capped ranges n = some a := by
  rcases bump_eq_some (n := n) htop (by omega) with ⟨a, ha⟩
  have hpage : pageSize = 4096 := rfl
  have hsize : memKernelSize = 2 ^ 40 := rfl
  refine ⟨a, ?_⟩
  unfold capped
  rw [hsum, hpage, hsize, if_pos (by omega)]
  exact ha

theorem kmalloc_short {count : Nat} (h : Inv kmallocSizes st) (htop : top st.kmem.ranges ≤ 2 ^ 20)
    (hsum : (st.kmem.ranges.map Prod.snd).sum = 14)
    (hok : ∀ size ∈ kmallocSizes, ∃ r, kmalloc ⟨false⟩ capped st.kmem st.caches size = .ok r)
    (hprod : 2 ^ 52 - pageSize < count * size) (hpages : pagesFor count size < 2 ^ 28)
    : kmalloc ⟨false⟩ capped st.kmem st.caches (Word.mul count size) = .error .undefined ∨
        ∃ b s, kmalloc ⟨false⟩ capped st.kmem st.caches (Word.mul count size) = .ok (b, s) ∧
          b.bytes s < count * size := by
  have hpage : pageSize = 4096 := rfl
  have hpos : kmallocMax = 2048 := rfl
  by_cases hmax : Word.mul count size ≤ kmallocMax
  . right
    rcases kmalloc_first h hmax hok with ⟨⟨b, s⟩, hr⟩
    have hbytes := kmalloc_bytes_lt limited_capped.toFresh h hr
    refine ⟨b, s, hr, ?_⟩
    -- the product is not what it was computed as
    unfold Word.mul at hmax
    omega
  . rw [kmalloc_of_max h (by omega)]
    unfold pagesFor at hpages
    by_cases hzero : pageCount (Word.alignUp (Word.mul count size) pageSize) = 0
    . left
      unfold vmKalloc
      rw [if_pos hzero]
    . right
      have hdvd : 4096 ∣ pageCount (Word.alignUp (Word.mul count size) pageSize) := by
        rw [pageCount_eq]
        exact (Nat.dvd_mod_iff (by decide)).mpr (dvd_alignUp _)
      rcases capped_eq_some htop hsum (n := pageCount (Word.alignUp (Word.mul count size) pageSize))
        (by omega) with ⟨a, ha⟩
      rcases vmKalloc_cases capped st.kmem _ hzero with ⟨hnone, _⟩ | ⟨a', _, hr⟩
      . rw [ha] at hnone
        cases hnone
      . refine ⟨_, _, hr, ?_⟩
        unfold Block.bytes
        dsimp only
        rw [hpage] at hpages hprod ⊢
        omega

theorem kcalloc_never_short_iff (count size : Nat)
    : NeverShort count size ↔
        count * size ≤ 2 ^ 52 - pageSize ∨ 2 ^ 28 ≤ pagesFor count size := by
  constructor
  . intro h
    by_contra hnot
    rw [not_or, Nat.not_le, Nat.not_le] at hnot
    rcases hnot with ⟨hprod, hpages⟩
    rcases exists_init_capped with ⟨st, hinit, htop, hsum, hok⟩
    have hinv := Inv.init limited_capped.toFresh hinit
    apply not_whole_of_short (by omega) (kmalloc_short hinv htop hsum hok hprod hpages)
    exact h ⟨false⟩ capped limited_capped st (.start hinit)
  . rintro (hle | hpages) cfg env hl st hreach
    . exact whole_of_le hl.toFresh (Inv.reach hl.toFresh hreach) hle
    . exact whole_of_unservable hl (Inv.reach hl.toFresh hreach) hpages

theorem kcalloc_wraps
    : ∃ st, Init ⟨false⟩ capped st ∧ ∃ b s,
        kcalloc ⟨false⟩ capped st.kmem st.caches (2 ^ 32) (2 ^ 32) = .ok (b, s) ∧ b.bytes s = 8 := by
  have hrun : ((kmemInit ⟨false⟩ capped blank).bind fun r =>
      (kcalloc ⟨false⟩ capped r.2 r.1 (2 ^ 32) (2 ^ 32)).map fun r => r.1.bytes r.2) = .ok 8 := by
    decide +kernel
  rcases Except.bind_eq_ok hrun with ⟨⟨caches, s⟩, hinit, hrun⟩
  rcases Except.map_eq_ok hrun with ⟨⟨b, s'⟩, hok, hbytes⟩
  exact ⟨during caches s, ⟨blank, rfl, hinit, rfl, rfl, rfl⟩, b, s', hok, hbytes⟩

end Kmalloc
end Nyy
