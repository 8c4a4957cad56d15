import NyyKernel.Symbols.Impl

namespace Nyy
namespace Symbols

variable {symbolList : List Symbol} {address : Nat}

def Sorted (symbolList : List Symbol) : Prop :=
  symbolList.Pairwise fun s s' => s.base ≤ s'.base

def enclosing (symbolList : List Symbol) (address : Nat) : Option Symbol :=
  (symbolList.filter fun s => s.base ≤ address).getLast?

theorem enclosing_eq_none_iff
    : enclosing symbolList address = none ↔ ∀ s ∈ symbolList, address < s.base := by
  unfold enclosing
  rw [List.getLast?_eq_none_iff, List.filter_eq_nil_iff]
  simp

theorem lookupLoop_eq (h : Sorted symbolList) (bestMatch : Option Symbol)
    : lookupLoop address symbolList bestMatch =
        (symbolList.filter fun s => s.base < address).getLast?.or bestMatch := by
  induction symbolList generalizing bestMatch with
  | nil => simp [lookupLoop]
  | cons symbol symbols ih =>
    rcases List.pairwise_cons.mp h with ⟨hfirst, hrest⟩
    unfold lookupLoop
    split
    . next hlt =>
      rw [ih hrest, List.filter_cons_of_pos (by simpa using hlt), List.getLast?_cons]
      cases (symbols.filter fun s => s.base < address).getLast? <;> rfl
    . next hge =>
      rw [List.filter_cons_of_neg (by simpa using hge)]
      split
      . next hgt =>
        -- the loop ends here, and behind this symbol there is none below the address
        have hnone : symbols.filter (fun s => s.base < address) = [] := by
          rw [List.filter_eq_nil_iff]
          intro s hs
          have := hfirst s hs
          simp
          omega
        simp [hnone]
      . exact ih hrest bestMatch

theorem lookup_address_iff (symbolOffset : Nat) (address : Nat) (h : Sorted symbolList)
    : (symbolsLookupAddress symbolOffset symbolList address =
            enclosing symbolList (Word.sub address symbolOffset) ∧
          (symbolsLookupAddress symbolOffset symbolList address = none ↔
            ∀ s ∈ symbolList, Word.sub address symbolOffset < s.base)) ↔
        ∀ s ∈ symbolList, s.base ≠ Word.sub address symbolOffset := by
  unfold symbolsLookupAddress
  generalize Word.sub address symbolOffset = a
  rw [← enclosing_eq_none_iff, lookupLoop_eq h, Option.or_none]
  unfold enclosing
  constructor
  . rintro ⟨heq, _⟩ s hs hbase
    -- the symbol is among those that should be found, so the last of them is not below the address
    have hmem : s ∈ symbolList.filter fun s => s.base ≤ a := by simp [hs, hbase]
    have hne := List.ne_nil_of_mem hmem
    rw [List.getLast?_eq_some_getLast hne] at heq
    have hlast := List.mem_of_getLast? heq
    rw [List.mem_filter] at hlast
    have hsorted : (symbolList.filter fun s => s.base ≤ a).Pairwise fun s s' => s.base ≤ s'.base :=
      h.filter _
    have hle := hsorted.rel_getLast hmem
    have hlt : ((symbolList.filter fun s => s.base ≤ a).getLast hne).base < a := by simpa using hlast.2
    omega
  . intro hnone
    have hfilter : (symbolList.filter fun s => s.base < a) =
        symbolList.filter fun s => s.base ≤ a := by
      apply List.filter_congr
      intro s hs
      have := hnone s hs
      simp
      omega
    rw [hfilter]
    exact ⟨rfl, Iff.rfl⟩

def twoSymbols : List Symbol := [⟨[97, 0], 16⟩, ⟨[98, 0], 32⟩]

theorem lookup_address_iff_between
    : Sorted twoSymbols ∧ symbolsLookupAddress 8 twoSymbols 48 = enclosing twoSymbols 40 := by
  have hsorted : Sorted twoSymbols := by
    unfold Sorted twoSymbols
    simp
  refine ⟨hsorted, ?_⟩
  exact ((lookup_address_iff 8 48 hsorted).mpr (by decide)).1

theorem lookup_address_base
    : symbolsLookupAddress 0 twoSymbols 32 = some ⟨[97, 0], 16⟩ ∧
        enclosing twoSymbols 32 = some ⟨[98, 0], 32⟩ ∧
        symbolsLookupAddress 0 twoSymbols 16 = none := by
  decide

end Symbols
end Nyy
