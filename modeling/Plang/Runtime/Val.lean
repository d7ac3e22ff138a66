import Mathlib.Tactic.Positivity
import Plang.Library.Numerals
import Plang.Library.ViablePrefix
import Plang.Runtime.Numbers

/-!
# `Val` of an integer

Turbo's parser that does not stop the program: the value of a text, and zero or the position of the
error.  A text is blanks, a sign, the prefix of a radix and digits, with nothing behind them.
-/

namespace Plang.Runtime

open Numerals ViablePrefix

/-! ### The parser -/

def isValSpace (c : Char) : Bool := c == ' ' || c == '\t' || c == '\r' || c == '\n'

/-- The value of a digit of a radix. -/
def valDigit (c : Char) (radix : Nat) : Option Nat :=
  let d :=
    if '0' ≤ c ∧ c ≤ '9' then some (c.toNat - '0'.toNat)
    else if 'a' ≤ c ∧ c ≤ 'z' then some (c.toNat - 'a'.toNat + 10)
    else if 'A' ≤ c ∧ c ≤ 'Z' then some (c.toNat - 'A'.toNat + 10)
    else none
  d.filter (· < radix)

/-- The sign, and what is behind it. -/
def valSign : Text → Bool × Text
  | '+' :: rest => (false, rest)
  | '-' :: rest => (true, rest)
  | text => (false, text)

/-- The radix that a prefix announces, and what is behind it. -/
def valRadix : Text → Nat × Text
  | '$' :: rest => (16, rest)
  | 'x' :: rest => (16, rest)
  | 'X' :: rest => (16, rest)
  | '0' :: 'x' :: rest => (16, rest)
  | '0' :: 'X' :: rest => (16, rest)
  | '&' :: rest => (8, rest)
  | '%' :: rest => (2, rest)
  | text => (10, text)

def maxInt64 : Nat := 9223372036854775807

/-- The result of the loop over the digits: the position behind them, the magnitude, and where it
would have overflowed. -/
structure ValDigits where
  pos : Nat
  mag : Nat
  overflowAt : Option Nat
deriving DecidableEq

def valDigits (radix : Nat) : Text → ValDigits → ValDigits
  | [], state => state
  | c :: rest, state =>
      match valDigit c radix with
      | none => state
      | some d =>
          if state.overflowAt.isSome then valDigits radix rest { state with pos := state.pos + 1 }
          else if state.mag > (maxInt64 - d) / radix then
            valDigits radix rest { state with pos := state.pos + 1, overflowAt := some state.pos }
          else
            valDigits radix rest
              { state with pos := state.pos + 1, mag := (state.mag * radix + d) % 2 ^ 64 }

/-- The result of a call: the value, and zero or the position of the error, counted from one. -/
structure ValResult where
  outVal : Int
  outCode : Nat
deriving DecidableEq

def plangValParseInt (data : Text) (isUnsigned : Bool) : ValResult :=
  let unblanked := data.dropWhile isValSpace
  let (negative, unsigned) := valSign unblanked
  if negative ∧ isUnsigned then
    { outVal := 0, outCode := data.length - unblanked.length + 2 }
  else
    let (radix, digits) := valRadix unsigned
    let digitsStart := data.length - digits.length
    let { pos, mag, overflowAt } := valDigits radix digits ⟨digitsStart, 0, none⟩
    match overflowAt with
    | some overflow => { outVal := 0, outCode := overflow + 1 }
    | none =>
        if pos = digitsStart then { outVal := 0, outCode := pos + 1 }
        else if pos ≠ data.length then { outVal := 0, outCode := pos + 1 }
        else { outVal := if negative then -mag else mag, outCode := 0 }

attribute [grind =] valSign valRadix valDigits

/-! ### The language -/

/-- The signs, with whether they negate. -/
def signs : List (Text × Bool) := [([], false), (['+'], false), (['-'], true)]

/-- The prefixes, with the radix that they announce. -/
def radixPrefixes : List (Text × Nat) :=
  [([], 10), (['$'], 16), (['x'], 16), (['X'], 16), (['0', 'x'], 16), (['0', 'X'], 16), (['&'], 8),
    (['%'], 2)]

/-- The integer of a sign and a magnitude. -/
def applySign (negative : Bool) (magnitude : Nat) : Int := if negative then -magnitude else magnitude

/-- The blanks, the sign and the radix prefix that may stand in front of digits. -/
structure Header where
  blanks : Text
  sign : Text
  negative : Bool
  announced : Text
  radix : Nat
  all_blank : ∀ c ∈ blanks, isValSpace c
  sign_mem : (sign, negative) ∈ signs
  announced_mem : (announced, radix) ∈ radixPrefixes

def Header.text (h : Header) : Text := h.blanks ++ h.sign ++ h.announced

/-- The text is that of an integer, of any size. -/
def Denotes (text : Text) (v : Int) : Prop :=
  ∃ (h : Header) (digits : Text), text = h.text ++ digits ∧ digits ≠ [] ∧
    (∀ c ∈ digits, isDigitOf h.radix c) ∧
    v = applySign h.negative (value digitValue h.radix 0 digits)

/-- The text is that of an integer of 64 bits. -/
def Represents (text : Text) (v : Int) : Prop := Denotes text v ∧ -2 ^ 63 ≤ v ∧ v < 2 ^ 63

/-- The texts of the integers of 64 bits. -/
def IntegerText (text : Text) : Prop := ∃ v, Represents text v

example : plangValParseInt " -0x1f".toList false = ⟨-31, 0⟩ := by decide +kernel

end Plang.Runtime
