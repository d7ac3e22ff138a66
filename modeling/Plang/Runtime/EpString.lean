import Mathlib.Tactic.Positivity
import Plang.Basic.Text

/-!
# Strings of Extended Pascal

A `string(cap)` is a length of 64 bits and `cap` characters behind it, of which the first ones are
the string.  The routines for comparisons and for substrings, with the error reports they can end
in, and what is generated for `substr(s, i, n)` and for an assignment to `s[i..j]`.
-/

namespace Plang.Runtime

/-- The memory that a string's address leads to. -/
structure StrMem where
  len : Int64
  data : Text
deriving DecidableEq

/-- A variable of a string type: the length is within the capacity. -/
structure EpString extends StrMem where
  nonneg : 0 ≤ len.toInt
  within : len.toInt ≤ data.length
  room : data.length < 2 ^ 63

namespace EpString

variable (s : EpString)

/-- How many characters the string has. -/
def length : Nat := s.len.toInt.toNat

/-- The characters of the string. -/
def chars : Text := s.data.take s.length

/-- The capacity, as the routines are told it. -/
def cap : Int64 := Int64.ofInt s.data.length

end EpString

/-! ### Comparisons -/

/-- The character that is compared at a position: behind the string, a space. -/
def StrMem.charAt (s : StrMem) (i : Nat) : Char :=
  if (i : Int) < s.len.toInt then s.data.getD i '\x00' else ' '

/-- The loop of `strCmp`, from a position on. -/
def strCmpFrom (a b : StrMem) (i : Nat) : Nat → Int
  | 0 => 0
  | left + 1 =>
      if a.charAt i ≠ b.charAt i then if a.charAt i < b.charAt i then -1 else 1
      else strCmpFrom a b (i + 1) left

def strCmp (a b : StrMem) : Int :=
  let lm := max a.len.toInt b.len.toInt
  strCmpFrom a b 0 lm.toNat

def plangStrEq (a b : StrMem) : Bool := strCmp a b = 0

def plangStrNe (a b : StrMem) : Bool := strCmp a b ≠ 0

def plangStrLt (a b : StrMem) : Bool := strCmp a b < 0

def plangStrLe (a b : StrMem) : Bool := strCmp a b ≤ 0

def plangStrGt (a b : StrMem) : Bool := strCmp a b > 0

def plangStrGe (a b : StrMem) : Bool := strCmp a b ≥ 0

/-! ### Substrings -/

/-- How a routine ends that does not return. -/
inductive StrFault
  | substr (i n len : Int64)
  | substrAssign (len n : Int64)
  | capacity (len cap : Int64)
  /-- Memory outside of the strings is read or written. -/
  | stray
deriving DecidableEq

/-- The text of the report. -/
def StrFault.text : StrFault → String
  | .substr i n len =>
      "plang runtime: substr(s, " ++ toString i ++ ", " ++ toString n ++
        ") is outside a string of length " ++ toString len
  | .substrAssign len n =>
      "plang runtime: a string of length " ++ toString len ++
        " was assigned to a substring of length " ++ toString n
  | .capacity len cap =>
      "plang runtime: string of length " ++ toString len ++
        " assigned to a string(" ++ toString cap ++ ")"
  | .stray => ""

/-- `memcpy` of some characters, from an offset to an offset. -/
def memcpy (dst : Text) (dstOff : Int) (src : Text) (srcOff : Int) (n : Nat) :
    Except StrFault Text :=
  if n = 0 then .ok dst
  else if 0 ≤ dstOff ∧ dstOff + n ≤ dst.length ∧ 0 ≤ srcOff ∧ srcOff + n ≤ src.length then
    .ok (dst.take dstOff.toNat ++ (src.drop srcOff.toNat).take n ++ dst.drop (dstOff.toNat + n))
  else .error .stray

/-- The number of bytes that an argument of type `size_t` is. -/
def sizeT (n : Int64) : Nat := n.toUInt64.toNat

def plangStrAssign (dst : StrMem) (capDst : Int64) (src : StrMem) : Except StrFault StrMem :=
  let len := src.len
  if len > capDst then .error (.capacity len capDst)
  else do
    let data ← memcpy dst.data 0 src.data 0 (sizeT len)
    .ok { len, data }

def plangStrSubstr (dst : StrMem) (capDst : Int64) (src : StrMem) (i n : Int64) :
    Except StrFault StrMem :=
  let ls := src.len
  if n < 0 ∨ i < 1 ∨ n > 0 ∧ (i > ls ∨ n > ls - i + 1) then .error (.substr i n ls)
  else do
    let len := min n capDst
    let data ← memcpy dst.data 0 src.data (i - 1).toInt (sizeT len)
    .ok { len, data }

def plangStrSubstrAssign (dst : StrMem) (i n : Int64) (src : StrMem) : Except StrFault StrMem :=
  let ld := dst.len
  if n ≤ 0 ∨ i < 1 ∨ i > ld ∨ n > ld - i + 1 then .error (.substr i n ld)
  else
    let ls := src.len
    if ls ≠ n then .error (.substrAssign ls n)
    else do
      let data ← memcpy dst.data (i - 1).toInt src.data 0 (sizeT n)
      .ok { dst with data }

/-- `substr(s, i, n)`: the result is as wide as the string. -/
def substr (s : EpString) (result : Text) (i n : Int64) : Except StrFault StrMem :=
  plangStrSubstr { len := 0, data := result } s.cap s.toStrMem i n

/-- `s[low..high] := t`: the value goes through a temporary of some width first. -/
def substringAssign (s : EpString) (low high : Int64) (temporary : Text) (t : EpString) :
    Except StrFault StrMem := do
  let src ← plangStrAssign { len := 0, data := temporary } (Int64.ofInt temporary.length) t.toStrMem
  plangStrSubstrAssign s.toStrMem low (high - low + 1) src

end Plang.Runtime
