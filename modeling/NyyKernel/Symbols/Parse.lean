import NyyKernel.Symbols.Slices

namespace Nyy
namespace Symbols

def hexDigit (d : Fin 16) : UInt8 := if d.val < 10 then 48 + .ofNat d.val else 87 + .ofNat d.val

structure MapRecord where
  digits : List (Fin 16)
  type : UInt8
  name : List UInt8
  digitsNe : digits ≠ []
  digitsLe : digits.length ≤ 16
  typeNe : type ≠ charNewline
  nameSpace : charSpace ∉ name
  nameNewline : charNewline ∉ name
  nameNul : 0 ∉ name

namespace MapRecord

def address (r : MapRecord) : Nat := Nat.ofDigits 16 (r.digits.reverse.map Fin.val)

def line (r : MapRecord) : List UInt8 :=
  r.digits.map hexDigit ++ charSpace :: [r.type] ++ charSpace :: r.name

def symbol (r : MapRecord) : Symbol := ⟨r.name ++ [0], r.address⟩

end MapRecord

def mapText (records : List MapRecord) : Block :=
  records.flatMap fun r => r.line ++ [charNewline]

def cstring (s : Block) : List UInt8 := s.takeWhile (· ≠ 0)

section Lemmas

variable {symbolList : List Symbol} {s1 s2 : Block}

theorem hexDigit_facts (d : Fin 16)
    : hex2int (hexDigit d) = d.val ∧ hexDigit d ≠ charSpace ∧ hexDigit d ≠ charNewline ∧
        hexDigit d ≠ 0 := by
  revert d
  decide

theorem hexValue_digits (r : MapRecord) : hexValue (r.digits.map hexDigit) = r.address := by
  unfold hexValue MapRecord.address
  rw [← List.map_reverse, List.map_map]
  congr 2
  funext d
  exact (hexDigit_facts d).1

theorem not_mem_digits {c : UInt8} (h : ∀ d, hexDigit d ≠ c) (ds : List (Fin 16))
    : c ∉ ds.map hexDigit := by
  rw [List.mem_map]
  rintro ⟨d, _, hd⟩
  exact h d hd

theorem lineOk_line (r : MapRecord) : LineOk r.line := by
  have hspace := not_mem_digits (fun d => (hexDigit_facts d).2.1) r.digits
  unfold LineOk MapRecord.line
  constructor
  . rw [List.count_append, List.count_append, List.count_cons_self, List.count_cons_self]
    omega
  . rw [List.append_assoc, List.idxOf_append_of_notMem hspace, List.cons_append,
      List.idxOf_cons_self, List.length_map]
    exact r.digitsLe

theorem newline_not_mem_line (r : MapRecord) : charNewline ∉ r.line := by
  have hdigits := not_mem_digits (fun d => (hexDigit_facts d).2.2.1) r.digits
  have hspace : charNewline ≠ charSpace := by decide
  unfold MapRecord.line
  simp only [List.mem_append, List.mem_cons, List.not_mem_nil, or_false]
  simp [hdigits, hspace, r.typeNe.symm, r.nameNewline]

theorem eq_symbol_of_decodes {r : MapRecord} {symbol : Symbol} (h : Decodes r.line symbol)
    : symbol = r.symbol := by
  rcases h _ _ _ rfl (not_mem_digits (fun d => (hexDigit_facts d).2.1) r.digits) r.nameSpace with
    ⟨hname, hbase⟩
  have h1 := hname r.nameNul
  have h2 := hbase (not_mem_digits (fun d => (hexDigit_facts d).2.2.2) r.digits)
  rw [hexValue_digits] at h2
  cases symbol
  cases h1
  cases h2
  rfl

theorem terminated_mapText (records : List MapRecord)
    : Lines.terminated charNewline (mapText records) = records.map MapRecord.line := by
  have h : mapText records = (records.map MapRecord.line).flatMap fun l => l ++ [charNewline] := by
    rw [List.flatMap_map]
    rfl
  rw [h]
  apply Lines.terminated_flatMap
  intro l hl
  rcases List.mem_map.mp hl with ⟨r, _, rfl⟩
  exact newline_not_mem_line r

theorem eq_symbols_of_forall₂ {records : List MapRecord} {symbols : List Symbol}
    (h : List.Forall₂ Decodes (records.map MapRecord.line) symbols)
    : symbols = records.map MapRecord.symbol := by
  induction records generalizing symbols with
  | nil =>
    cases h
    rfl
  | cons r records ih =>
    cases h with
    | cons hfirst hrest => rw [List.map_cons, eq_symbol_of_decodes hfirst, ih hrest]

theorem strcmpZero_eq (h1 : 0 ∈ s1) (h2 : 0 ∈ s2)
    : strcmpZero s1 s2 = .ok (decide (cstring s1 = cstring s2)) := by
  induction s1 generalizing s2 with
  | nil => cases h1
  | cons c1 s1 ih =>
    cases s2 with
    | nil => cases h2
    | cons c2 s2 =>
      unfold strcmpZero
      by_cases hc : c1 ≠ 0 ∧ c1 = c2
      . rcases hc with ⟨hne, rfl⟩
        rw [if_pos ⟨hne, rfl⟩, ih (List.mem_of_ne_of_mem hne.symm h1)
          (List.mem_of_ne_of_mem hne.symm h2)]
        simp [cstring, hne]
      . rw [if_neg hc]
        simp only [pure, Except.pure, Except.ok.injEq]
        by_cases hzero : c1 = 0
        . subst hzero
          by_cases hzero2 : c2 = 0
          . simp [cstring, hzero2]
          . simp [cstring, hzero2, Ne.symm hzero2]
        . have hne : c1 ≠ c2 := fun heq => hc ⟨hzero, heq⟩
          by_cases hzero2 : c2 = 0
          . simp [cstring, hzero, hzero2]
          . simp [cstring, hzero, hzero2, hne]

theorem symbolsLookupName_eq (name : Block) (hname : 0 ∈ name)
    (h : ∀ s ∈ symbolList, (0 : UInt8) ∈ s.symname)
    : symbolsLookupName name symbolList =
        .ok (symbolList.find? fun s => cstring name = cstring s.symname) := by
  induction symbolList with
  | nil => rfl
  | cons s symbols ih =>
    rw [List.forall_mem_cons] at h
    unfold symbolsLookupName
    rw [strcmpZero_eq hname h.1, Except.ok_bind, List.find?_cons]
    by_cases heq : cstring name = cstring s.symname
    . simp [heq, pure, Except.pure]
    . simp only [heq, decide_false, Bool.false_eq_true, if_false]
      exact ih h.2

theorem cstring_name (r : MapRecord) : cstring (r.name ++ [0]) = r.name := by
  unfold cstring
  rw [List.takeWhile_append_of_pos]
  . simp
  . intro c hc
    have : c ≠ 0 := by
      rintro rfl
      exact r.nameNul hc
    simpa using this

end Lemmas

theorem parse_map_inverts (env : KmallocEnv) (symbolList : List Symbol) (records : List MapRecord)
    (hsize : (mapText records).length < 2 ^ 64) (hlist : ∀ s ∈ symbolList, (0 : UInt8) ∈ s.symname)
    : ∃ st, symbolsParseMap env symbolList (mapText records) = .ok st ∧
        st.symbolList = symbolList ++ records.map MapRecord.symbol ∧
        ∀ r ∈ records, ∃ symbol, symbolsLookupName (r.name ++ [0]) st.symbolList = .ok (some symbol) ∧
          st.symbolList.find? (fun s => r.name = cstring s.symname) = some symbol := by
  have hat := atLine_start symbolList (mapText records)
  have hterminated := terminated_mapText records
  unfold Lines.terminated at hterminated
  have hlines : ∀ l ∈ Lines.terminatedFrom charNewline [] (mapText records), LineOk l := by
    intro l hl
    rw [hterminated, List.mem_map] at hl
    rcases hl with ⟨r, _, rfl⟩
    exact lineOk_line r
  rcases parseRest_ok env hsize hat hlines with ⟨symbols, st, hok, hsymbols, hdecodes, _⟩
  rw [hterminated] at hdecodes
  rw [eq_symbols_of_forall₂ hdecodes] at hsymbols
  refine ⟨st, hok, hsymbols, ?_⟩
  intro r hr
  have hnul : ∀ s ∈ st.symbolList, (0 : UInt8) ∈ s.symname := by
    intro s hs
    rw [hsymbols, List.mem_append] at hs
    rcases hs with hs | hs
    . exact hlist s hs
    . rcases List.mem_map.mp hs with ⟨r', _, rfl⟩
      simp [MapRecord.symbol]
  have hlookup := symbolsLookupName_eq (r.name ++ [0]) (by simp) hnul
  rw [cstring_name] at hlookup
  cases hfind : st.symbolList.find? fun s => r.name = cstring s.symname with
  | none =>
    -- the symbol of the record itself would be found
    rw [List.find?_eq_none] at hfind
    refine absurd ?_ (hfind r.symbol ?_)
    . simp [MapRecord.symbol, cstring_name]
    . rw [hsymbols]
      exact List.mem_append_right _ (List.mem_map_of_mem hr)
  | some symbol =>
    rw [hfind] at hlookup
    exact ⟨symbol, hlookup, rfl⟩

def oneRecord : MapRecord where
  digits := [(1#4).toFin, (0#4).toFin]
  type := 116
  name := [102]
  digitsNe := by decide
  digitsLe := by decide
  typeNe := by decide
  nameSpace := by decide
  nameNewline := by decide
  nameNul := by decide

def otherRecord : MapRecord :=
  { oneRecord with
    digits := [(2#4).toFin, (0#4).toFin, (8#4).toFin]
    name := [112, 114]
    digitsNe := by decide
    digitsLe := by decide
    nameSpace := by decide
    nameNewline := by decide
    nameNul := by decide }

theorem parse_map_inverts_two
    : ∃ st, symbolsParseMap zeroEnv [⟨[112, 0], 1⟩] (mapText [oneRecord, otherRecord]) = .ok st ∧
        st.symbolList = [⟨[112, 0], 1⟩, ⟨[102, 0], 0x10⟩, ⟨[112, 114, 0], 0x208⟩] ∧
        symbolsLookupName [112, 114, 0] st.symbolList = .ok (some ⟨[112, 114, 0], 0x208⟩) := by
  rcases parse_map_inverts zeroEnv [⟨[112, 0], 1⟩] [oneRecord, otherRecord] (by decide) (by decide) with
    ⟨st, hok, hlist, hlookup⟩
  rcases hlookup otherRecord (by simp) with ⟨symbol, hsymbol, hfind⟩
  rw [hlist] at hfind
  cases hfind
  exact ⟨st, hok, hlist, hsymbol⟩

end Symbols
end Nyy
