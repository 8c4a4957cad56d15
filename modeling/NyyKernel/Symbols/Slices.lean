import NyyKernel.Symbols.Lemmas

namespace Nyy
namespace Symbols

variable {env : KmallocEnv} {buf done line rest : Block} {st st' : Parser} {pos : Nat}

structure Copy.Inside (buf : Block) (c : Copy) : Prop where
  start : c.lineStart ≤ c.src
  stop : c.src + c.len ≤ c.lineEnd
  line : c.lineEnd < buf.length
  size : c.size = c.len + 1

def ParsesSafely (env : KmallocEnv) (symbolList : List Symbol) (buf : Block) : Prop :=
  ∃ st, symbolsParseMap env symbolList buf = .ok st ∧ ∀ c ∈ st.copied, c.Inside buf

def LineOk (line : List UInt8) : Prop :=
  2 ≤ line.count charSpace ∧ line.idxOf charSpace ≤ 16

def Decodes (line : List UInt8) (symbol : Symbol) : Prop :=
  ∀ first mid last, line = first ++ charSpace :: mid ++ charSpace :: last → charSpace ∉ first →
    charSpace ∉ last → (0 ∉ last → symbol.symname = last ++ [0]) ∧
      (0 ∉ first → symbol.base = hexValue first)

structure AtLine (buf done line rest : Block) (st : Parser) : Prop where
  buf : buf = done ++ line ++ rest
  lineStart : st.lineStart = done.length
  scan : st.scan = line.foldl LineScan.next .start

section Line

theorem split_unique {first mid last first' mid' last' : List UInt8}
    (h : first ++ charSpace :: mid ++ charSpace :: last =
      first' ++ charSpace :: mid' ++ charSpace :: last') (hfirst : charSpace ∉ first)
    (hlast : charSpace ∉ last) (hfirst' : charSpace ∉ first') (hlast' : charSpace ∉ last')
    : first = first' ∧ last = last' := by
  have hidx : ∀ a r : List UInt8, charSpace ∉ a → (a ++ charSpace :: r).idxOf charSpace = a.length := by
    intro a r ha
    rw [List.idxOf_append_of_notMem ha, List.idxOf_cons_self, Nat.add_zero]
  have hone : ∀ a m b a' m' b' : List UInt8, a ++ charSpace :: m ++ charSpace :: b =
      a' ++ charSpace :: m' ++ charSpace :: b' → charSpace ∉ a → charSpace ∉ a' → a = a' := by
    intro a m b a' m' b' heq ha ha'
    rw [List.append_assoc, List.append_assoc, List.cons_append, List.cons_append] at heq
    have hlength := congrArg (List.idxOf charSpace) heq
    rw [hidx _ _ ha, hidx _ _ ha'] at hlength
    exact (List.append_inj heq hlength).1
  refine ⟨hone _ _ _ _ _ _ h hfirst hfirst', ?_⟩
  -- backwards the last part is the first one
  have hrev := congrArg List.reverse h
  simp only [List.reverse_append, List.reverse_cons, List.append_assoc, List.cons_append,
    List.nil_append] at hrev
  have := hone last.reverse mid.reverse first.reverse last'.reverse mid'.reverse first'.reverse
    (by simpa using hrev) (by simpa using hlast) (by simpa using hlast')
  simpa using this

theorem parseLine_ok (env : KmallocEnv) (hbuf : buf.length < 2 ^ 64)
    (h : AtLine buf done line (charNewline :: rest) st) (hline : LineOk line)
    : ∃ symbol st', parseLine env buf st (done.length + line.length) = .ok st' ∧
        AtLine buf (done ++ line ++ [charNewline]) [] rest st' ∧
        st'.symbolList = st.symbolList ++ [symbol] ∧ Decodes line symbol ∧
        ∃ c1 c2, st'.copied = st.copied ++ [c1, c2] ∧ c1.Inside buf ∧ c2.Inside buf := by
  rcases Lines.split_of_two_le_count hline.1 with ⟨first, mid, last, hsplit, hfirst, hlast⟩
  have hlength : line.length = first.length + mid.length + 2 + last.length := by
    rw [hsplit]
    simp only [List.length_append, List.length_cons]
    omega
  have hbuflen : buf.length = done.length + line.length + 1 + rest.length := by
    rw [h.buf]
    simp only [List.length_append, List.length_cons]
    omega
  have haddr : first.length ≤ 16 := by
    have := hline.2
    rw [hsplit, List.append_assoc, List.idxOf_append_of_notMem hfirst, List.cons_append,
      List.idxOf_cons_self] at this
    omega
  have hscan : st.scan = ⟨line.length, first.length + 1, first.length + mid.length + 2⟩ := by
    rw [h.scan, hsplit]
    apply scan_split hfirst hlast
    rw [← hsplit]
    omega
  -- the two slices are the parts in front of the first and behind the last space
  have hname : (buf.drop (done.length + (first.length + mid.length + 2))).take last.length = last := by
    have : buf = (done ++ (first ++ charSpace :: mid ++ [charSpace])) ++ (last ++ charNewline :: rest) := by
      rw [h.buf, hsplit]
      simp
    rw [this, List.drop_left' (by simp; omega), List.take_left]
  have hnum : (buf.drop done.length).take first.length = first := by
    have : buf = done ++ (first ++ (charSpace :: mid ++ charSpace :: last ++ charNewline :: rest)) := by
      rw [h.buf, hsplit]
      simp
    rw [this, List.drop_left, List.take_left]
  have hname64 : Word.sub line.length (first.length + mid.length + 2) = last.length := by
    rw [Word.sub_eq (by omega) (by omega)]
    omega
  have hsrc : Word.add st.lineStart (first.length + mid.length + 2) =
      done.length + (first.length + mid.length + 2) := by
    rw [h.lineStart]
    exact Word.add_eq (by omega)
  have hnum64 : Word.sub (first.length + 1) 1 = first.length := by
    rw [Word.sub_eq (by omega) (by omega)]
    omega
  rcases copySlice_ok env st (done.length + line.length) hbuf
    (show done.length + (first.length + mid.length + 2) + last.length < buf.length by omega) with
    ⟨name, hok1, _, hcopy1⟩
  unfold parseLine
  dsimp only
  rw [hscan]
  dsimp only
  rw [hname64, hsrc, hok1, Except.ok_bind]
  dsimp only
  rw [hscan, h.lineStart]
  dsimp only
  rw [hnum64]
  rcases copySlice_ok env _ (done.length + line.length) hbuf
    (show done.length + first.length < buf.length by omega) with ⟨addrStr, hok2, hlen2, hcopy2⟩
  rw [hok2, Except.ok_bind]
  dsimp only
  rw [strtoaddr_eq haddr (by omega), Except.ok_bind]
  refine ⟨⟨name, hexValue (addrStr.take first.length)⟩, _, rfl, ⟨?_, ?_, rfl⟩, rfl, ?_, _, _,
    List.append_assoc .., ⟨?_, ?_, ?_, rfl⟩, ⟨?_, ?_, ?_, rfl⟩⟩
  . rw [h.buf]
    simp
  . dsimp only [symbolsInsert]
    rw [Word.add_eq (by omega)]
    simp
    omega
  . intro first' mid' last' heq hfirst' hlast'
    rw [hsplit] at heq
    rcases split_unique heq hfirst hlast hfirst' hlast' with ⟨rfl, rfl⟩
    rw [hname] at hcopy1
    rw [hnum] at hcopy2
    refine ⟨hcopy1, ?_⟩
    intro h0
    rw [hcopy2 h0, List.take_left]
  all_goals dsimp only
  all_goals omega

theorem copySlice_copied {str : Block} {src len : Nat}
    (h : copySlice env buf st pos src len = .ok (str, st'))
    : st' = { st with
        allocs := st.allocs + 1
        copied := st.copied ++ [⟨st.lineStart, pos, src, len, Word.add len 1⟩] } := by
  unfold copySlice at h
  rcases Except.bind_eq_ok h with ⟨_, _, h⟩
  rcases Except.bind_eq_ok h with ⟨_, _, h⟩
  cases h
  rfl

theorem parseLine_eq_ok (h : parseLine env buf st pos = .ok st')
    : (∃ c2, st'.copied = st.copied ++
        [⟨st.lineStart, pos, Word.add st.lineStart st.scan.nameStart,
          Word.sub st.scan.linePos st.scan.nameStart,
          Word.add (Word.sub st.scan.linePos st.scan.nameStart) 1⟩, c2]) ∧
      Word.sub st.scan.typeStart 1 ≤ 16 := by
  unfold parseLine at h
  rcases Except.bind_eq_ok h with ⟨⟨name, st1⟩, h1, h⟩
  rcases Except.bind_eq_ok h with ⟨⟨addrStr, st2⟩, h2, h⟩
  rcases Except.bind_eq_ok h with ⟨addr, haddr, h⟩
  have hst1 := copySlice_copied h1
  have hst2 := copySlice_copied h2
  cases h
  subst hst1 hst2
  refine ⟨⟨_, List.append_assoc ..⟩, ?_⟩
  by_contra hlong
  exact strtoaddrLoop_ne_ok (by dsimp only at hlong ⊢; omega) (Nat.zero_le _) _ haddr

theorem parseLine_bad (hbuf : buf.length < 2 ^ 64) (h : AtLine buf done line (charNewline :: rest) st)
    (hline : ¬ LineOk line) (hok : parseLine env buf st (done.length + line.length) = .ok st')
    : ∃ c ∈ st'.copied, ¬ c.Inside buf := by
  have hbuflen : buf.length = done.length + line.length + 1 + rest.length := by
    rw [h.buf]
    simp only [List.length_append, List.length_cons]
    omega
  rcases parseLine_eq_ok hok with ⟨⟨c2, hcopied⟩, haddr⟩
  have hcount : line.count charSpace < 2 := by
    by_contra hcount
    rcases Lines.split_of_two_le_count (Nat.le_of_not_lt hcount) with
      ⟨first, mid, last, hsplit, hfirst, hlast⟩
    rw [h.scan, hsplit, scan_split hfirst hlast (by rw [← hsplit]; omega)] at haddr
    dsimp only at haddr
    have hlength : first.length + 1 < 2 ^ 64 := by
      rw [hsplit] at hbuflen
      simp only [List.length_append, List.length_cons] at hbuflen
      omega
    rw [Word.sub_eq hlength (by omega)] at haddr
    apply hline
    refine ⟨Nat.le_of_not_lt hcount, ?_⟩
    rw [hsplit, List.append_assoc, List.idxOf_append_of_notMem hfirst, List.cons_append,
      List.idxOf_cons_self]
    omega
  have hname : st.scan.nameStart = notSeen := by
    rw [h.scan]
    exact scan_of_count_lt hcount (by omega)
  refine ⟨_, by rw [hcopied]; exact List.mem_append_right _ List.mem_cons_self, ?_⟩
  intro hin
  have hstart := hin.start
  have hstop := hin.stop
  dsimp only at hstart hstop
  -- the name would start in front of the line
  rw [hname, h.lineStart] at hstart hstop
  unfold Word.add notSeen at hstart hstop
  omega

end Line

section Run

variable {c : UInt8}

theorem parseByte_newline (h : AtLine buf done line (charNewline :: rest) st)
    : parseByte env buf st (done.length + line.length) =
        parseLine env buf st (done.length + line.length) := by
  unfold parseByte
  rw [load_eq_ok (c := charNewline) (by rw [h.buf, ← List.length_append]; simp), Except.ok_bind,
    if_pos rfl]

theorem parseByte_other (hbuf : buf.length < 2 ^ 64) (h : AtLine buf done line (c :: rest) st)
    (hc : c ≠ charNewline) (hpos : (line.foldl LineScan.next .start).linePos = line.length)
    : parseByte env buf st (done.length + line.length) = .ok { st with scan := st.scan.next c } := by
  have hbuflen : buf.length = done.length + line.length + 1 + rest.length := by
    rw [h.buf]
    simp only [List.length_append, List.length_cons]
    omega
  have hload : load buf (done.length + line.length) = .ok c := by
    apply load_eq_ok
    rw [h.buf, ← List.length_append]
    simp
  unfold parseByte
  rw [hload, Except.ok_bind, if_neg hc, h.scan, hpos, h.lineStart, Word.add_eq (by omega), hload]
  rfl

theorem AtLine.other (h : AtLine buf done line (c :: rest) st)
    : AtLine buf done (line ++ [c]) rest { st with scan := st.scan.next c } := by
  refine ⟨?_, h.lineStart, ?_⟩
  . rw [h.buf]
    simp
  . rw [List.foldl_append, ← h.scan]
    rfl

theorem parseByte_copied (h : parseByte env buf st pos = .ok st') : st.copied ⊆ st'.copied := by
  unfold parseByte at h
  rcases Except.bind_eq_ok h with ⟨c, _, h⟩
  split at h
  . rcases parseLine_eq_ok h with ⟨⟨c2, hcopied⟩, _⟩
    rw [hcopied]
    exact List.subset_append_left _ _
  . rcases Except.bind_eq_ok h with ⟨c', _, h⟩
    cases h
    exact List.Subset.refl _

theorem foldlM_copied {ps : List Nat} (h : ps.foldlM (parseByte env buf) st = .ok st')
    : st.copied ⊆ st'.copied := by
  induction ps generalizing st with
  | nil =>
    cases h
    exact List.Subset.refl _
  | cons p ps ih =>
    rw [List.foldlM_cons] at h
    rcases Except.bind_eq_ok h with ⟨st1, h1, h⟩
    exact List.Subset.trans (parseByte_copied h1) (ih h)

def parseRest (env : KmallocEnv) (buf done line rest : Block) (st : Parser) : Except Fault Parser :=
  (List.range' (done.length + line.length) rest.length).foldlM (parseByte env buf) st

theorem parseRest_newline (h : AtLine buf done line (charNewline :: rest) st)
    : parseRest env buf done line (charNewline :: rest) st = (do
        let st ← parseLine env buf st (done.length + line.length)
        parseRest env buf (done ++ line ++ [charNewline]) [] rest st) := by
  unfold parseRest
  rw [List.length_cons, List.range'_succ, List.foldlM_cons, parseByte_newline h]
  simp [Nat.add_assoc]

theorem parseRest_other (hbuf : buf.length < 2 ^ 64) (h : AtLine buf done line (c :: rest) st)
    (hc : c ≠ charNewline)
    : parseRest env buf done line (c :: rest) st =
        parseRest env buf done (line ++ [c]) rest { st with scan := st.scan.next c } := by
  have hlength : line.length < 2 ^ 64 := by
    have := congrArg List.length h.buf
    simp only [List.length_append, List.length_cons] at this
    omega
  unfold parseRest
  rw [List.length_cons, List.range'_succ, List.foldlM_cons, parseByte_other hbuf h hc
    (by rw [foldl_next_linePos _ (by simp only [LineScan.start]; omega)]; simp [LineScan.start]),
    Except.ok_bind]
  simp [Nat.add_assoc]

theorem parseRest_ok (env : KmallocEnv) (hbuf : buf.length < 2 ^ 64) (h : AtLine buf done line rest st)
    (hlines : ∀ l ∈ Lines.terminatedFrom charNewline line rest, LineOk l)
    : ∃ symbols st', parseRest env buf done line rest st = .ok st' ∧
        st'.symbolList = st.symbolList ++ symbols ∧
        List.Forall₂ Decodes (Lines.terminatedFrom charNewline line rest) symbols ∧
        ∀ c ∈ st'.copied, c ∈ st.copied ∨ c.Inside buf := by
  induction rest generalizing done line st with
  | nil => exact ⟨[], st, rfl, by simp, .nil, fun c hc => .inl hc⟩
  | cons c rest ih =>
    unfold Lines.terminatedFrom at hlines ⊢
    by_cases hc : c = charNewline
    . subst hc
      rw [if_pos rfl] at hlines ⊢
      rw [List.forall_mem_cons] at hlines
      rcases parseLine_ok env hbuf h hlines.1 with
        ⟨symbol, st1, hok, hat, hsymbols, hdecodes, c1, c2, hcopied, hin1, hin2⟩
      rcases ih hat hlines.2 with ⟨symbols, st', hok', hsymbols', hdecodes', hcopied'⟩
      rw [parseRest_newline h, hok, Except.ok_bind]
      refine ⟨symbol :: symbols, st', hok', ?_, .cons hdecodes hdecodes', ?_⟩
      . rw [hsymbols', hsymbols, List.append_assoc, List.singleton_append]
      . intro c hc
        rcases hcopied' c hc with hc | hc
        . rw [hcopied, List.mem_append, List.mem_pair] at hc
          rcases hc with hc | rfl | rfl
          . exact .inl hc
          . exact .inr hin1
          . exact .inr hin2
        . exact .inr hc
    . rw [if_neg hc] at hlines ⊢
      rw [parseRest_other hbuf h hc]
      exact ih h.other hlines

theorem parseRest_bad (hbuf : buf.length < 2 ^ 64) (h : AtLine buf done line rest st)
    (hline : ∃ l ∈ Lines.terminatedFrom charNewline line rest, ¬ LineOk l)
    (hok : parseRest env buf done line rest st = .ok st')
    : ∃ c ∈ st'.copied, ¬ c.Inside buf := by
  induction rest generalizing done line st with
  | nil =>
    rcases hline with ⟨l, hl, _⟩
    cases hl
  | cons c rest ih =>
    unfold Lines.terminatedFrom at hline
    by_cases hc : c = charNewline
    . subst hc
      rw [if_pos rfl] at hline
      rw [parseRest_newline h] at hok
      rcases Except.bind_eq_ok hok with ⟨st1, hok1, hok⟩
      by_cases hfirst : LineOk line
      . rcases parseLine_ok env hbuf h hfirst with ⟨_, st2, hok2, hat, _⟩
        rw [hok1] at hok2
        cases hok2
        refine ih hat ?_ hok
        rcases hline with ⟨l, hl, hbad⟩
        rcases List.mem_cons.mp hl with rfl | hl
        . exact absurd hfirst hbad
        . exact ⟨l, hl, hbad⟩
      . rcases parseLine_bad hbuf h hfirst hok1 with ⟨c, hc, hbad⟩
        exact ⟨c, foldlM_copied hok hc, hbad⟩
    . rw [if_neg hc] at hline
      rw [parseRest_other hbuf h hc] at hok
      exact ih h.other hline hok

theorem atLine_start (symbolList : List Symbol) (buf : Block)
    : AtLine buf [] [] buf ⟨symbolList, 0, 0, .start, 0, []⟩ :=
  ⟨rfl, rfl, rfl⟩

theorem symbolsParseMap_eq (env : KmallocEnv) (symbolList : List Symbol) (buf : Block)
    : symbolsParseMap env symbolList buf =
        parseRest env buf [] [] buf ⟨symbolList, 0, 0, .start, 0, []⟩ :=
  rfl

end Run

/--
The parser is safe exactly if every line has at least two spaces, the first one after no more than 16
characters.
-/
theorem parse_map_safe_iff (env : KmallocEnv) (symbolList : List Symbol) (buf : Block)
    (hsize : buf.length < 2 ^ 64)
    : ParsesSafely env symbolList buf ↔ ∀ l ∈ Lines.terminated charNewline buf,
        2 ≤ l.count charSpace ∧ l.idxOf charSpace ≤ 16 := by
  have hat := atLine_start symbolList buf
  unfold ParsesSafely
  rw [symbolsParseMap_eq]
  constructor
  . rintro ⟨st, hok, hin⟩ l hl
    by_contra hbad
    rcases parseRest_bad hsize hat ⟨l, hl, hbad⟩ hok with ⟨c, hc, hout⟩
    exact hout (hin c hc)
  . intro hlines
    rcases parseRest_ok env hsize hat hlines with ⟨_, st', hok, _, _, hcopied⟩
    refine ⟨st', hok, ?_⟩
    intro c hc
    exact (hcopied c hc).resolve_left (List.not_mem_nil)

def zeroEnv : KmallocEnv := ⟨fun _ size => List.replicate size 0, fun _ _ => List.length_replicate⟩

def shortMap : Block := [56, 32, 116, 32, 102, 10, 57]

theorem parse_map_safe_iff_short : ParsesSafely zeroEnv [] shortMap := by
  rw [parse_map_safe_iff zeroEnv [] shortMap (by decide)]
  decide

theorem blank_line_unsafe
    : ¬ ParsesSafely zeroEnv [] [10] ∧
        strncpy [10] (Word.add 0 notSeen) (Word.sub 0 notSeen) 0 [0, 0] = .error .undefined := by
  constructor
  . rw [parse_map_safe_iff zeroEnv [] [10] (by decide)]
    decide
  . rfl

end Symbols
end Nyy
