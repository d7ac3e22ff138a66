import Plang.Basic.Text

/-!
# Numbers as text

What the writers of numbers print and the readers accept.  The formats of real numbers are a
parameter.
-/

namespace Plang

namespace Runtime

/-- How real numbers, given by their bits, are printed and read. -/
structure RealText where
  /-- `plangFormatReal`: value, width, Turbo Pascal's profile, capped at single precision. -/
  format : UInt64 → Int → Bool → Bool → Text
  /-- A value in a field with a number of decimals. -/
  fixed : UInt64 → Int → Int → Text
  /-- The value of a whole token. -/
  parse : Text → Option UInt64

/-- The width of a real that is written without one. -/
def PlangRealWidth : Int := 24

/-- A number in decimal. -/
def decimal (value : Int) : Text := (toString value).toList

/-- A text at the right of a field. -/
def padLeft (width : Nat) (text : Text) : Text := List.replicate (width - text.length) ' ' ++ text

def INT32_MAX : Int := 2147483647
def INT32_MIN : Int := -2147483648

/-- Narrow a field width as Turbo Pascal does. -/
def wrapWidthTP (width : Int) : Int :=
  if INT32_MAX < width ∨ width < INT32_MIN then width.bmod 4294967296 else width

/-- A negative width is no width. -/
def noPadIfNegative (width : Int) : Int := if width < 0 then 0 else width

/-- The width as the C library takes it.  A width above the largest of 32 bits ends the program,
which no narrowed width does. -/
def checkedWidth (width : Int) : Nat := (noPadIfNegative width).toNat

/-- A C string ends before its first zero. -/
def cString (text : Text) : Text := text.takeWhile (· != '\x00')

/-- The result of a number parser. -/
structure Parsed where
  /-- The value. -/
  value : Int := 0
  /-- The text it left. -/
  rest : Text
  /-- The value did not fit. -/
  outOfRange : Bool := false

/-- A digit of a radix. -/
def isDigitOf (radix : Nat) (c : Char) : Bool := c.isAlphanum && decide (digitValue c < radix)

/-- Skip `0x` in front of a hexadecimal digit. -/
def skipHexPrefix (radix : Nat) : Text → Text
  | '0' :: x :: digit :: rest =>
      if radix = 16 ∧ (x = 'x' ∨ x = 'X') ∧ isDigitOf 16 digit then digit :: rest
      else '0' :: x :: digit :: rest
  | text => text

/-- The sign in front of a number. -/
def splitSign : Text → Bool × Text
  | '-' :: rest => (true, rest)
  | '+' :: rest => (false, rest)
  | text => (false, text)

/-- The sign and the size of the number a text begins with, and the text behind it. -/
def leadingNumber (radix : Nat) (text : Text) : Option (Bool × Nat × Text) :=
  let (negative, unsigned) := splitSign (text.dropWhile isspace)
  let body := skipHexPrefix radix unsigned
  let digits := body.takeWhile (isDigitOf radix)
  if digits.isEmpty then none
  else
    some (negative, digits.foldl (fun value c => value * radix + digitValue c) 0,
      body.drop digits.length)

/-- `strtoll`. -/
def strtoll (radix : Nat) (text : Text) : Parsed :=
  match leadingNumber radix text with
  | none => { rest := text }
  | some (negative, size, rest) =>
      let value : Int := if negative then -size else size
      { value := max (-9223372036854775808) (min 9223372036854775807 value)
        rest
        outOfRange := decide (value < -9223372036854775808 ∨ 9223372036854775807 < value) }

/-- `strtoull`, where a minus sign negates the unsigned value. -/
def strtoull (radix : Nat) (text : Text) : Parsed :=
  match leadingNumber radix text with
  | none => { rest := text }
  | some (negative, size, rest) =>
      if 18446744073709551615 < size then
        { value := 18446744073709551615, rest, outOfRange := true }
      else
        { value := (if negative then -(size : Int) else size) % 18446744073709551616, rest }

/-- The radix a token announces, and the token behind the announcement. -/
def turboRadixPrefix : Text → Nat × Text
  | '$' :: rest => (16, rest)
  | '0' :: 'x' :: rest => (16, rest)
  | '0' :: 'X' :: rest => (16, rest)
  | '&' :: rest => (8, rest)
  | '%' :: rest => (2, rest)
  | token => (10, token)

/-- Whether a token has a sign in front of such an announcement, and which. -/
def turboSignedRadixPrefix (token : Text) : Option Bool :=
  match token with
  | sign :: rest =>
      if (sign = '-' ∨ sign = '+') ∧ (turboRadixPrefix rest).1 ≠ 10 then some (sign == '-')
      else none
  | [] => none

/-- The integer a whole token stands for. -/
def turboInteger (token : Text) : Option Int :=
  let signed := turboSignedRadixPrefix token
  let (radix, digits) := turboRadixPrefix (if signed.isSome then token.drop 1 else token)
  let parsed := strtoll radix digits
  if digits.isEmpty ∨ ¬parsed.rest.isEmpty ∨ parsed.outOfRange then none
  else some (if signed = some true then -parsed.value else parsed.value)

/-- The unsigned integer a whole token stands for. -/
def turboUnsigned (token : Text) : Option Int :=
  if token.head? = some '-' then none
  else
    let (radix, digits) := turboRadixPrefix token
    let parsed := strtoull radix digits
    if digits.isEmpty ∨ ¬parsed.rest.isEmpty ∨ parsed.outOfRange then none
    else some parsed.value

example : turboInteger "-$1F".toList = some (-31) := by decide +kernel

end Runtime

end Plang
