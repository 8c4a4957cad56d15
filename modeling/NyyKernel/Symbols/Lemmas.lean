import Mathlib.Data.Nat.Digits.Defs
import NyyKernel.Lib.Lines
import NyyKernel.Symbols.Impl

namespace Nyy
namespace Symbols

variable {buf dest str : Block} {src len i j addr : Nat} {c : UInt8}

theorem load_eq_ok (h : buf[i]? = some c) : load buf i = .ok c := by
  unfold load
  rw [h]
  rfl

section Copies

theorem store_ok (h : i < dest.length) (c : UInt8) : store dest i c = .ok (dest.set i c) := by
  unfold store
  rw [if_pos h]
  rfl

theorem load_word (hbuf : buf.length < 2 ^ 64) (h : src + i < buf.length)
    : load buf (Word.add src i) = .ok (buf.get ⟨src + i, h⟩) := by
  rw [Word.add_eq (by omega)]
  apply load_eq_ok
  simp [h]

theorem strncpy_ok (hbuf : buf.length < 2 ^ 64) (h : src + i + len < buf.length)
    (hdest : i + len ≤ dest.length)
    : ∃ d, strncpy buf src len i dest = .ok d ∧ d.length = dest.length ∧
        (0 ∉ (buf.drop (src + i)).take len →
          d = dest.take i ++ (buf.drop (src + i)).take len ++ dest.drop (i + len)) := by
  induction len generalizing i dest with
  | zero =>
    unfold strncpy
    rw [load_word hbuf (by omega)]
    exact ⟨dest, rfl, rfl, by simp⟩
  | succ len ih =>
    have hi : src + i < buf.length := by omega
    unfold strncpy
    rw [load_word hbuf hi, Except.ok_bind]
    rw [List.drop_eq_getElem_cons hi, List.take_succ_cons]
    split
    . next hzero => exact ⟨dest, rfl, rfl, fun h0 => absurd (by simp [← hzero]) h0⟩
    . rw [store_ok (by omega), Except.ok_bind]
      rcases @ih (dest.set i (buf.get ⟨src + i, hi⟩)) (i + 1) (by omega) (by simp; omega) with
        ⟨d, hok, hlength, heq⟩
      refine ⟨d, hok, by simpa using hlength, ?_⟩
      intro h0
      rw [List.mem_cons, not_or] at h0
      rw [heq h0.2, List.take_succ_eq_append_getElem (by simp; omega),
        List.take_set_of_le (Nat.le_refl i), List.drop_set_of_lt (by omega)]
      simp [Nat.add_assoc, Nat.add_comm 1]

theorem copySlice_ok (env : KmallocEnv) (st : Parser) (pos : Nat) (hbuf : buf.length < 2 ^ 64)
    (h : src + len < buf.length)
    : ∃ str, copySlice env buf st pos src len = .ok (str, { st with
          allocs := st.allocs + 1
          copied := st.copied ++ [⟨st.lineStart, pos, src, len, len + 1⟩] }) ∧
        str.length = len + 1 ∧
        (0 ∉ (buf.drop src).take len → str = (buf.drop src).take len ++ [0]) := by
  have hlength := env.length_block st.allocs (len + 1)
  rcases @strncpy_ok buf ((env.block st.allocs (len + 1)).set len 0) src len 0 hbuf (by omega)
    (by simp; omega) with ⟨str, hok, hstr, heq⟩
  unfold copySlice
  dsimp only
  rw [Word.add_eq (by omega), store_ok (by omega), Except.ok_bind, hok, Except.ok_bind]
  refine ⟨str, rfl, by simpa [hlength] using hstr, ?_⟩
  intro h0
  have hlast : ((env.block st.allocs (len + 1)).set len 0).drop len = [0] := by
    rw [List.drop_eq_getElem_cons (by simp; omega), List.drop_of_length_le (by simp; omega)]
    simp
  rw [heq h0, Nat.zero_add, hlast]
  simp

end Copies

section Address

theorem hex2int_lt (c : UInt8) : hex2int c < 16 := by
  unfold hex2int
  split
  . next h =>
    have := UInt8.le_iff_toNat_le.mp h.2
    have h57 : (57 : UInt8).toNat = 57 := rfl
    omega
  . split
    . next h =>
      have := UInt8.le_iff_toNat_le.mp h.2
      have h102 : (102 : UInt8).toNat = 102 := rfl
      omega
    . omega

def hexValue (s : List UInt8) : Nat := Nat.ofDigits 16 (s.reverse.map hex2int)

theorem hexValue_append (s : List UInt8) (c : UInt8)
    : hexValue (s ++ [c]) = hex2int c + 16 * hexValue s := by
  simp [hexValue, Nat.ofDigits_cons]

theorem hexValue_lt (s : List UInt8) : hexValue s < 16 ^ s.length := by
  induction s using List.reverseRecOn with
  | nil => simp [hexValue]
  | append_singleton s c ih =>
    have := hex2int_lt c
    rw [hexValue_append, List.length_append, List.length_singleton, Nat.pow_succ]
    omega

theorem strtoaddrLoop_eq {s rest : List UInt8} (hlen : s.length + j ≤ 16)
    (hlt : addr + 16 ^ j * hexValue s < 2 ^ 64)
    : strtoaddrLoop (s ++ rest) s.length j addr = .ok (addr + 16 ^ j * hexValue s) := by
  -- on the characters from the last one to the first one
  induction s using List.reverseRecOn generalizing rest j addr with
  | nil => simp [strtoaddrLoop, hexValue, pure, Except.pure]
  | append_singleton s c ih =>
    rw [List.length_append, List.length_singleton] at hlen ⊢
    rw [hexValue_append, Nat.mul_add] at hlt ⊢
    have hpow : 2 ^ (4 * j) = 16 ^ j := by rw [Nat.pow_mul]
    have hmul : hex2int c * 16 ^ j = 16 ^ j * hex2int c := Nat.mul_comm _ _
    have hnext : 16 ^ (j + 1) * hexValue s = 16 ^ j * (16 * hexValue s) := by
      rw [Nat.pow_succ, Nat.mul_assoc]
    unfold strtoaddrLoop
    rw [load_eq_ok (c := c) (by simp), Except.ok_bind, if_neg (by omega), hpow,
      Word.mul_eq (by omega), Word.add_eq (by omega), List.append_assoc, ih (by omega) (by omega)]
    congr 1
    omega

theorem strtoaddr_eq (hlen : len ≤ 16) (h : len ≤ str.length)
    : strtoaddr str len = .ok (hexValue (str.take len)) := by
  have hs : (str.take len).length = len := List.length_take_of_le h
  have hlt : hexValue (str.take len) < 2 ^ 64 := by
    apply Nat.lt_of_lt_of_le (hexValue_lt _)
    rw [hs]
    have : (16 : Nat) ^ len ≤ 16 ^ 16 := Nat.pow_le_pow_right (by decide) hlen
    simpa using this
  have heq := @strtoaddrLoop_eq 0 0 (str.take len) (str.drop len) (by omega) (by simpa using hlt)
  rw [List.take_append_drop, hs] at heq
  unfold strtoaddr
  rw [heq]
  simp

theorem strtoaddrLoop_ne_ok (h : 16 < i + j) (hj : j ≤ 16) (r : Nat)
    : strtoaddrLoop str i j addr ≠ .ok r := by
  induction i generalizing j addr with
  | zero => omega
  | succ i ih =>
    unfold strtoaddrLoop
    intro heq
    rcases Except.bind_eq_ok heq with ⟨c, _, heq⟩
    split at heq
    . cases heq
    . exact ih (by omega) (by omega) heq

end Address

section Scan

variable {s : LineScan} {l first mid last : List UInt8}

theorem next_of_ne (h : c ≠ charSpace) (hlt : s.linePos + 1 < 2 ^ 64)
    : s.next c = { s with linePos := s.linePos + 1 } := by
  unfold LineScan.next
  dsimp only
  rw [if_neg h, Word.add_eq hlt]

theorem next_first_space (hs : s.typeStart = notSeen) (hlt : s.linePos + 1 < 2 ^ 64)
    : s.next charSpace = ⟨s.linePos + 1, s.linePos + 1, s.nameStart⟩ := by
  unfold LineScan.next
  dsimp only
  rw [if_pos rfl, if_pos hs, Word.add_eq hlt]

theorem next_later_space (hs : s.typeStart ≠ notSeen) (hlt : s.linePos + 1 < 2 ^ 64)
    : s.next charSpace = ⟨s.linePos + 1, s.typeStart, s.linePos + 1⟩ := by
  unfold LineScan.next
  dsimp only
  rw [if_pos rfl, if_neg hs, Word.add_eq hlt]

theorem foldl_next_of_not_mem (h : charSpace ∉ l) (hlt : s.linePos + l.length < 2 ^ 64)
    : l.foldl LineScan.next s = { s with linePos := s.linePos + l.length } := by
  induction l generalizing s with
  | nil => rfl
  | cons c l ih =>
    rw [List.mem_cons, not_or] at h
    rw [List.length_cons] at hlt
    rw [List.foldl_cons, next_of_ne (fun heq => h.1 heq.symm) (by omega),
      ih h.2 (by dsimp only; omega)]
    simp only [List.length_cons, LineScan.mk.injEq, and_self, and_true]
    omega

theorem foldl_next_linePos (l : List UInt8) (hlt : s.linePos + l.length < 2 ^ 64)
    : (l.foldl LineScan.next s).linePos = s.linePos + l.length := by
  induction l generalizing s with
  | nil => rfl
  | cons c l ih =>
    rw [List.length_cons] at hlt
    have hnext : (s.next c).linePos = s.linePos + 1 := by
      unfold LineScan.next
      dsimp only
      split_ifs <;> exact Word.add_eq (show s.linePos + 1 < 2 ^ 64 by omega)
    rw [List.foldl_cons, ih (by omega), hnext, List.length_cons]
    omega

theorem foldl_next_of_seen (hs : s.typeStart ≠ notSeen) (hlt : s.linePos + l.length < 2 ^ 64)
    : ∃ nameStart, l.foldl LineScan.next s = ⟨s.linePos + l.length, s.typeStart, nameStart⟩ := by
  induction l generalizing s with
  | nil => exact ⟨s.nameStart, rfl⟩
  | cons c l ih =>
    rw [List.length_cons] at hlt
    have hnext : ∃ n, s.next c = ⟨s.linePos + 1, s.typeStart, n⟩ := by
      by_cases hc : c = charSpace
      . subst hc
        exact ⟨_, next_later_space hs (by omega)⟩
      . exact ⟨_, next_of_ne hc (by omega)⟩
    rcases hnext with ⟨n, hnext⟩
    rw [List.foldl_cons, hnext]
    rcases @ih ⟨s.linePos + 1, s.typeStart, n⟩ hs (by dsimp only; omega) with ⟨nameStart, heq⟩
    refine ⟨nameStart, ?_⟩
    rw [heq]
    simp only [List.length_cons, LineScan.mk.injEq, and_true]
    omega

theorem scan_split (hfirst : charSpace ∉ first) (hlast : charSpace ∉ last)
    (hlt : (first ++ charSpace :: mid ++ charSpace :: last).length + 1 < 2 ^ 64)
    : (first ++ charSpace :: mid ++ charSpace :: last).foldl LineScan.next .start =
        ⟨(first ++ charSpace :: mid ++ charSpace :: last).length, first.length + 1,
          first.length + mid.length + 2⟩ := by
  simp only [List.length_append, List.length_cons] at hlt ⊢
  have hseen : first.length + 1 ≠ notSeen := by
    unfold notSeen
    omega
  have h1 : first.foldl LineScan.next .start = ⟨first.length, notSeen, notSeen⟩ := by
    rw [foldl_next_of_not_mem hfirst (by simp only [LineScan.start]; omega)]
    simp [LineScan.start]
  rcases @foldl_next_of_seen ⟨first.length + 1, first.length + 1, notSeen⟩ mid hseen
    (by dsimp only; omega) with ⟨n, h2⟩
  rw [List.append_assoc, List.cons_append, List.foldl_append, h1, List.foldl_cons,
    next_first_space rfl (by dsimp only; omega), List.foldl_append, h2, List.foldl_cons,
    next_later_space hseen (by dsimp only; omega),
    foldl_next_of_not_mem hlast (by dsimp only; omega)]
  simp only [LineScan.mk.injEq, true_and]
  omega

theorem scan_of_count_lt (h : l.count charSpace < 2) (hlt : l.length + 1 < 2 ^ 64)
    : (l.foldl LineScan.next .start).nameStart = notSeen := by
  by_cases hmem : charSpace ∈ l
  . rcases List.eq_append_cons_of_mem hmem with ⟨first, rest, rfl, hfirst⟩
    rw [List.count_append, List.count_cons_self] at h
    have hrest : charSpace ∉ rest := by
      rw [← List.count_eq_zero]
      omega
    rw [List.length_append, List.length_cons] at hlt
    rw [List.foldl_append, foldl_next_of_not_mem hfirst (by simp only [LineScan.start]; omega),
      List.foldl_cons, next_first_space rfl (by simp only [LineScan.start]; omega),
      foldl_next_of_not_mem hrest (by simp only [LineScan.start]; omega)]
    rfl
  . rw [foldl_next_of_not_mem hmem (by simp only [LineScan.start]; omega)]
    rfl

end Scan

end Symbols
end Nyy
