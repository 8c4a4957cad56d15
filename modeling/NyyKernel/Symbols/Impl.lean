import NyyKernel.Lib.Fault
import NyyKernel.Lib.Word

/-!
This module contains the symbols of the kernel from `kernel/lib/symbols.c`.
-/

namespace Nyy
namespace Symbols

abbrev Block := List UInt8

def load (block : Block) (i : Nat) : Except Fault UInt8 :=
  match block[i]? with
  | some c => return c
  | none => .error .undefined

def store (block : Block) (i : Nat) (c : UInt8) : Except Fault Block :=
  if i < block.length then return block.set i c else .error .undefined

structure Symbol where
  symname : Block
  base : Nat
  deriving DecidableEq, Repr

def charNewline : UInt8 := 10

def charSpace : UInt8 := 32

def strcmpZero : Block → Block → Except Fault Bool
  | c1 :: s1, c2 :: s2 => if c1 ≠ 0 ∧ c1 = c2 then strcmpZero s1 s2 else return c1 == c2
  | _, _ => .error .undefined

def lookupLoop (address : Nat) : List Symbol → Option Symbol → Option Symbol
  | [], bestMatch => bestMatch
  | symbol :: symbols, bestMatch =>
    if symbol.base < address then
      lookupLoop address symbols (some symbol)
    else if address < symbol.base then
      bestMatch
    else
      lookupLoop address symbols bestMatch

def symbolsLookupAddress (symbolOffset : Nat) (symbolList : List Symbol) (address : Nat)
    : Option Symbol :=
  lookupLoop (Word.sub address symbolOffset) symbolList none

def symbolsLookupName (name : Block) : List Symbol → Except Fault (Option Symbol)
  | [] => return none
  | symbol :: symbols => do
    if ← strcmpZero name symbol.symname then
      return some symbol
    else
      symbolsLookupName name symbols

def hex2int (c : UInt8) : Nat :=
  if 48 ≤ c ∧ c ≤ 57 then c.toNat - 48
  else if 97 ≤ c ∧ c ≤ 102 then c.toNat - 97 + 10
  else 0

-- The loop of `strtoaddr`, with `i` characters left. A shift by 64 or more bits is undefined.
def strtoaddrLoop (str : Block) : Nat → Nat → Nat → Except Fault Nat
  | 0, _, addr => return addr
  | i + 1, j, addr => do
    let c ← load str i
    if 64 ≤ 4 * j then
      .error .undefined
    else
      strtoaddrLoop str i (j + 1) (Word.add addr (Word.mul (hex2int c) (2 ^ (4 * j))))

def strtoaddr (str : Block) (len : Nat) : Except Fault Nat := strtoaddrLoop str len 0 0

/--
`strncpy` from the buffer at `src`. It ends at a NUL byte, and looks at the byte behind the last one that
it copies.
-/
def strncpy (buf : Block) (src : Nat) : Nat → Nat → Block → Except Fault Block
  | 0, i, dest => do
    let _ ← load buf (Word.add src i)
    return dest
  | len + 1, i, dest => do
    let c ← load buf (Word.add src i)
    if c = 0 then
      return dest
    else
      strncpy buf src len (i + 1) (← store dest i c)

structure KmallocEnv where
  block : Nat → Nat → Block
  length_block : ∀ n size, (block n size).length = size

structure Copy where
  lineStart : Nat
  lineEnd : Nat
  src : Nat
  len : Nat
  -- what `kmalloc` was asked for
  size : Nat
  deriving DecidableEq, Repr

structure LineScan where
  linePos : Nat
  typeStart : Nat
  nameStart : Nat
  deriving DecidableEq, Repr

def notSeen : Nat := 2 ^ 64 - 1

def LineScan.start : LineScan := ⟨0, notSeen, notSeen⟩

structure Parser where
  symbolList : List Symbol
  allocs : Nat
  lineStart : Nat
  scan : LineScan
  symbolCnt : Nat
  copied : List Copy

-- A slice of the line is copied to a block from `kmalloc` and gets a terminator.
def copySlice (env : KmallocEnv) (buf : Block) (st : Parser) (pos src len : Nat)
    : Except Fault (Block × Parser) := do
  let size := Word.add len 1
  let str := env.block st.allocs size
  let str ← store str len 0
  let str ← strncpy buf src len 0 str
  return (str, { st with
    allocs := st.allocs + 1
    copied := st.copied ++ [⟨st.lineStart, pos, src, len, size⟩] })

def symbolsInsert (st : Parser) (name : Block) (address : Nat) : Parser :=
  { st with allocs := st.allocs + 1, symbolList := st.symbolList ++ [⟨name, address⟩] }

def parseLine (env : KmallocEnv) (buf : Block) (st : Parser) (pos : Nat) : Except Fault Parser := do
  let nameLen := Word.sub st.scan.linePos st.scan.nameStart
  let (name, st) ← copySlice env buf st pos (Word.add st.lineStart st.scan.nameStart) nameLen
  let addrLen := Word.sub st.scan.typeStart 1
  let (addrStr, st) ← copySlice env buf st pos st.lineStart addrLen
  let addr ← strtoaddr addrStr addrLen
  let st := symbolsInsert st name addr
  return { st with
    symbolCnt := Word.add st.symbolCnt 1
    lineStart := Word.add pos 1
    scan := .start }

def LineScan.next (scan : LineScan) (c : UInt8) : LineScan :=
  let scan :=
    if c = charSpace then
      if scan.typeStart = notSeen then
        { scan with typeStart := Word.add scan.linePos 1 }
      else
        { scan with nameStart := Word.add scan.linePos 1 }
    else
      scan
  { scan with linePos := Word.add scan.linePos 1 }

def parseByte (env : KmallocEnv) (buf : Block) (st : Parser) (pos : Nat) : Except Fault Parser := do
  let c ← load buf pos
  if c = charNewline then
    parseLine env buf st pos
  else
    let c ← load buf (Word.add st.lineStart st.scan.linePos)
    return { st with scan := st.scan.next c }

def symbolsParseMap (env : KmallocEnv) (symbolList : List Symbol) (buf : Block)
    : Except Fault Parser :=
  (List.range' 0 buf.length).foldlM (parseByte env buf) ⟨symbolList, 0, 0, .start, 0, []⟩

end Symbols
end Nyy
