import Mathlib.Data.List.TakeWhile
import Plang.Runtime.Numbers

/-!
# Real numbers as text

The floating-point representation is cut out of what `%e` prints.  The fixed-point one is what `%f`
prints, except that Turbo Pascal shows no more than seventeen significant digits.  The conversions of
the C library are a parameter.
-/

namespace Plang

namespace Runtime

/-- A real, given by its bits, that is neither infinite nor a NaN. -/
def isfinite (value : UInt64) : Bool := (value >>> 52) &&& 0x7ff != 0x7ff

def signbit (value : UInt64) : Bool := value >>> 63 == 1

def fabs (value : UInt64) : UInt64 := value &&& 0x7fffffffffffffff

/-- The parts that `%.ne` prints of a finite value. -/
structure Scientific (n : Nat) where
  negative : Bool
  lead : Char
  frac : Text
  expNegative : Bool
  exp : Text
  lead_digit : lead.isDigit = true
  frac_digits : ∀ c ∈ frac, c.isDigit = true
  frac_length : frac.length = n
  exp_digits : ∀ c ∈ exp, c.isDigit = true
  exp_length : 2 ≤ exp.length ∧ exp.length ≤ 3

namespace Scientific

variable {n : Nat} (parts : Scientific n)

/-- The digits, with a point between them where there are several. -/
def mantissa : Text := parts.lead :: if parts.frac = [] then [] else '.' :: parts.frac

def text : Text :=
  (if parts.negative then ['-'] else []) ++ parts.mantissa ++
    'e' :: (if parts.expNegative then '-' else '+') :: parts.exp

end Scientific

/-- How the C library prints real numbers and reads them back. -/
structure CReals where
  /-- `%.ne`. -/
  e : Nat → UInt64 → Text
  /-- `%.nf`. -/
  f : Nat → UInt64 → Text
  /-- `strtod` on a whole token. -/
  strtod : Text → Option UInt64
  e_finite : ∀ n value, isfinite value = true →
    ∃ parts : Scientific n, parts.negative = signbit value ∧ e n value = parts.text
  f_finite : ∀ n value, isfinite value = true →
    ∀ c ∈ f n value, c = '-' ∨ c = '.' ∨ c.isDigit = true
  /-- Infinities and NaNs are printed alike whatever is asked for. -/
  special : ∀ n m value, isfinite value = false → e n value = f m value
  special_plain : ∀ n value, isfinite value = false → 'e' ∉ e n value
  special_short : ∀ n value, isfinite value = false → (e n value).length < 511

/-- The width and the exponent of reals, which differ between the dialects. -/
structure PlangRealProfile where
  width : Int
  expDigits : Nat
  expChar : Char

def PlangRealProfileISO : PlangRealProfile := ⟨PlangRealWidth, 3, 'e'⟩

def PlangRealProfileTurbo : PlangRealProfile := ⟨PlangRealWidth, 3, 'E'⟩

/-- The size of the buffers. -/
def PlangRealMaxChars : Nat := 512

/-- The decimals that a single has. -/
def PlangSingleMaxDecPlaces : Int := 8

/-- Strip zeros in front, up to the last digit. -/
def stripZeros : Text → Text
  | '0' :: digit :: digits => stripZeros (digit :: digits)
  | digits => digits

/-- The sign in front of a number, if it has one. -/
def signed : Text → Bool × Text
  | '-' :: rest => (true, rest)
  | '+' :: rest => (false, rest)
  | text => (false, text)

/-- The width a representation is laid out in. -/
def actWidth (profile : PlangRealProfile) (totalWidth : Int) : Nat :=
  (min (max totalWidth (profile.expDigits + 6)) (PlangRealMaxChars - 2)).toNat

/-- The width decides the decimals, unless they are capped. -/
def decPlaces (profile : PlangRealProfile) (totalWidth maxDecPlaces : Int) : Nat :=
  let places := actWidth profile totalWidth - profile.expDigits - 5
  if 0 ≤ maxDecPlaces ∧ maxDecPlaces < places then maxDecPlaces.toNat else places

namespace CReals

variable (reals : CReals)

/-- A real in the floating-point representation. -/
def plangFormatReal (value : UInt64) (totalWidth : Int) (profile : PlangRealProfile)
    (maxDecPlaces : Int) : Text :=
  let tmp := (reals.e (decPlaces profile totalWidth maxDecPlaces) value).take
    (PlangRealMaxChars - 1)
  let (negative, digits) := signed tmp
  match digits.dropWhile (· != 'e') with
  | [] => tmp
  | _ :: behind =>
      let (expNegative, padded) := signed behind
      let exp := stripZeros padded
      let field := (if negative then '-' else ' ') :: digits.takeWhile (· != 'e') ++
        profile.expChar :: (if expNegative then '-' else '+') ::
          List.replicate (profile.expDigits - exp.length) '0' ++ exp
      if 0 ≤ maxDecPlaces then padLeft (actWidth profile totalWidth) field else field

/-- Seventeen significant digits of a real. -/
structure FixedShape where
  negative : Bool
  exp : Int
  digits : Text

/-- The exponent that `%e` has printed. -/
def printedExponent (text : Text) : Int :=
  (strtoll 10 ((text.dropWhile (· != 'e')).drop 1)).value

/-- The digits to show in the place of more than seventeen. -/
def plangRealFixedNeedsCap (value : UInt64) (fracDigits : Nat) : Option FixedShape :=
  if printedExponent (reals.e 0 (fabs value)) + fracDigits + 1 ≤ 17 then none
  else
    let tmp := reals.e 16 (fabs value)
    if 'e' ∉ tmp then none
    else some ⟨signbit value, printedExponent tmp, tmp.take 1 ++ (tmp.drop 2).take 16⟩

end CReals

namespace CReals.FixedShape

variable (shape : FixedShape)

/-- The digit of a weight. -/
def plangRealFixedDigitAt (weight : Int) : Char :=
  let place := shape.exp - weight
  if 0 ≤ place ∧ place ≤ 16 then shape.digits.getD place.toNat '0' else '0'

def plangRealFixedIntDigits : Nat := if 0 ≤ shape.exp then shape.exp.toNat + 1 else 1

/-- How many characters the digits take. -/
def length (decimals : Nat) : Nat :=
  (if shape.negative then 1 else 0) + shape.plangRealFixedIntDigits +
    (if 0 < decimals then 1 + decimals else 0)

/-- The digits in front of the point, and those behind it. -/
def text (decimals : Nat) : Text :=
  (if shape.negative then ['-'] else []) ++
    (List.range shape.plangRealFixedIntDigits).reverse.map
      (fun weight : Nat => shape.plangRealFixedDigitAt weight) ++
    if 0 < decimals then
      '.' :: (List.range decimals).map fun place : Nat => shape.plangRealFixedDigitAt (-1 - (place : Int))
    else []

/-- Beside the sign and the point only digits of the shape are shown, and zeros. -/
theorem mem_text {decimals : Nat} {c : Char} (mem : c ∈ shape.text decimals) :
    c = '-' ∨ c = '.' ∨ c = '0' ∨ c ∈ shape.digits := by
  have shown (weight : Int) :
      shape.plangRealFixedDigitAt weight = '0' ∨
        shape.plangRealFixedDigitAt weight ∈ shape.digits := by
    rw [plangRealFixedDigitAt]
    split
    · rw [List.getD_eq_getElem?_getD]
      cases digit : shape.digits[(shape.exp - weight).toNat]? with
      | none => exact .inl rfl
      | some digit => exact .inr (List.mem_of_getElem? ‹_›)
    · exact .inl rfl
  rw [text, List.mem_append, List.mem_append, List.mem_map] at mem
  obtain (sign | ⟨weight, -, rfl⟩) | places := mem
  · split at sign
    · exact .inl (List.mem_singleton.mp sign)
    · cases sign
  · exact .inr (.inr (shown weight))
  · split at places
    · obtain rfl | mem := List.mem_cons.mp places
      · exact .inr (.inl rfl)
      · obtain ⟨place, -, rfl⟩ := List.mem_map.mp mem
        exact .inr (.inr (shown _))
    · cases places

theorem length_text (decimals : Nat) : (shape.text decimals).length = shape.length decimals := by
  rw [text, length]
  by_cases some_decimals : 0 < decimals
  · cases shape.negative <;> simp [some_decimals] <;> omega
  · cases shape.negative <;> simp [some_decimals, Nat.add_comm]

end CReals.FixedShape

/-! ### Shapes of the representations -/

namespace Scientific

variable {n : Nat} (parts : Scientific n)

theorem length_mantissa (some_digits : n ≠ 0) : parts.mantissa.length = n + 2 := by
  have length := parts.frac_length
  have digits : parts.frac ≠ [] := by
    rintro none
    rw [none] at length
    exact some_digits length.symm
  simp [mantissa, digits, length]

theorem mantissa_plain : ∀ c ∈ parts.mantissa, c = '.' ∨ c.isDigit = true := by
  intro c mem
  rw [mantissa, List.mem_cons] at mem
  obtain rfl | mem := mem
  · exact .inr parts.lead_digit
  · split at mem
    · cases mem
    · obtain rfl | mem := List.mem_cons.mp mem
      · exact .inl rfl
      · exact .inr (parts.frac_digits c mem)

theorem mantissa_ne_e : ∀ c ∈ parts.mantissa, (c != 'e') = true := by
  intro c mem
  obtain rfl | digit := parts.mantissa_plain c mem
  · rfl
  · have other : c ≠ 'e' := by
      rintro rfl
      exact absurd digit (by decide)
    simpa using other

/-- Behind the sign stand the mantissa and the exponent. -/
theorem signed_text : ∃ negative, signed parts.text =
    (negative, parts.mantissa ++ 'e' :: (if parts.expNegative then '-' else '+') :: parts.exp) := by
  rw [text]
  cases parts.negative with
  | true => exact ⟨true, rfl⟩
  | false =>
      refine ⟨false, ?_⟩
      have minus : parts.lead ≠ '-' := by
        intro same
        have digit := parts.lead_digit
        rw [same] at digit
        exact absurd digit (by decide)
      have plus : parts.lead ≠ '+' := by
        intro same
        have digit := parts.lead_digit
        rw [same] at digit
        exact absurd digit (by decide)
      simp only [Bool.false_eq_true, if_false, List.nil_append, mantissa, List.cons_append]
      unfold signed
      split
      · rename_i same
        exact absurd (List.cons.inj same).1 minus
      · rename_i same
        exact absurd (List.cons.inj same).1 plus
      · rfl

/-- There is no capital letter in it. -/
theorem ne_expChar : ∀ c ∈ parts.text, c ≠ 'E' := by
  rintro c mem rfl
  simp only [text, List.mem_append, List.mem_cons, List.mem_ite_nil_right, List.not_mem_nil,
    or_false] at mem
  obtain (⟨-, sign⟩ | mantissa) | letter | sign | exp := mem
  · exact absurd sign (by decide)
  · obtain point | digit := parts.mantissa_plain _ mantissa
    · exact absurd point (by decide)
    · exact absurd digit (by decide)
  · exact absurd letter (by decide)
  · revert sign
    cases parts.expNegative <;> decide
  · exact absurd (parts.exp_digits _ exp) (by decide)

end Scientific

theorem isfinite_fabs (value : UInt64) : isfinite (fabs value) = isfinite value := by
  have field : (value &&& 0x7fffffffffffffff) >>> (52 : UInt64) &&& (0x7ff : UInt64) =
      value >>> (52 : UInt64) &&& (0x7ff : UInt64) := by
    rw [UInt64.shiftRight_and, UInt64.and_assoc]
    rfl
  exact congrArg (· != (0x7ff : UInt64)) field

theorem length_stripZeros : ∀ digits : Text, (stripZeros digits).length ≤ digits.length
  | [] => Nat.le_refl _
  | [c] => by
      unfold stripZeros
      split <;> simp_all
  | c :: digit :: digits => by
      unfold stripZeros
      split
      · rename_i same
        obtain ⟨rfl, rfl⟩ := List.cons.inj (List.cons.inj same).2
        exact Nat.le_succ_of_le (length_stripZeros (_ :: _))
      · exact Nat.le_refl _

theorem actWidth_bounds (profile : PlangRealProfile) (three : profile.expDigits = 3)
    (totalWidth : Int) : 9 ≤ actWidth profile totalWidth ∧ actWidth profile totalWidth ≤ 510 := by
  rw [actWidth, PlangRealMaxChars, three]
  omega

namespace CReals

variable {reals : CReals} {value : UInt64}

theorem mem_plangRealFixedNeedsCap {fracDigits : Nat} {shape : FixedShape}
    (cap : reals.plangRealFixedNeedsCap value fracDigits = some shape) :
    ∀ c ∈ shape.digits, c ∈ reals.e 16 (fabs value) := by
  rw [plangRealFixedNeedsCap] at cap
  split at cap
  · cases cap
  · dsimp only at cap
    split at cap
    · cases cap
    · obtain rfl := Option.some.inj cap
      intro c mem
      obtain lead | rest := List.mem_append.mp mem
      · exact List.mem_of_mem_take lead
      · exact List.mem_of_mem_drop (List.mem_of_mem_take rest)

/-- An infinity or a NaN is passed on as it is printed. -/
theorem plangFormatReal_special (special : isfinite value = false) (totalWidth : Int)
    (profile : PlangRealProfile) (maxDecPlaces : Int) (n : Nat) :
    reals.plangFormatReal value totalWidth profile maxDecPlaces = reals.f n value := by
  rw [plangFormatReal]
  generalize decPlaces profile totalWidth maxDecPlaces = places
  have short := reals.special_short places value special
  have whole : (reals.e places value).take (PlangRealMaxChars - 1) = reals.e places value :=
    List.take_of_length_le (Nat.le_of_lt short)
  have plain := reals.special_plain places value special
  have digits_plain : (signed (reals.e places value)).2.dropWhile (· != 'e') = [] := by
    rw [List.dropWhile_eq_nil_iff]
    intro c mem
    have inside : c ∈ reals.e places value := by
      unfold signed at mem
      split at mem
      · rename_i starts
        rw [starts]
        exact List.mem_cons_of_mem _ mem
      · rename_i starts
        rw [starts]
        exact List.mem_cons_of_mem _ mem
      · exact mem
    have other : c ≠ 'e' := fun same => plain (same ▸ inside)
    simpa using other
  rw [whole, ← reals.special places n value special]
  simp only [digits_plain]

/-- The representation of a finite value has an exponent, and fills its width. -/
theorem plangFormatReal_finite (finite : isfinite value = true) (totalWidth : Int)
    (profile : PlangRealProfile) (three : profile.expDigits = 3) :
    profile.expChar ∈ reals.plangFormatReal value totalWidth profile (-1) ∧
      (reals.plangFormatReal value totalWidth profile (-1)).length =
        actWidth profile totalWidth := by
  obtain ⟨least, most⟩ := actWidth_bounds profile three totalWidth
  have places : decPlaces profile totalWidth (-1) = actWidth profile totalWidth - 8 := by
    rw [decPlaces, three, if_neg (by omega)]
    rfl
  rw [plangFormatReal, places]
  obtain ⟨parts, -, printed⟩ := reals.e_finite (actWidth profile totalWidth - 8) value finite
  have mantissa := parts.length_mantissa (by omega)
  have exp := parts.exp_length
  have whole : (reals.e (actWidth profile totalWidth - 8) value).take (PlangRealMaxChars - 1) =
      parts.text := by
    rw [printed]
    apply List.take_of_length_le
    rw [Scientific.text, PlangRealMaxChars]
    cases parts.negative <;> simp [mantissa] <;> omega
  obtain ⟨negative, signed_eq⟩ := parts.signed_text
  have head : (parts.mantissa ++
      'e' :: (if parts.expNegative then '-' else '+') :: parts.exp).takeWhile (· != 'e') =
        parts.mantissa := by
    rw [List.takeWhile_append_of_pos parts.mantissa_ne_e]
    simp
  have tail : (parts.mantissa ++
      'e' :: (if parts.expNegative then '-' else '+') :: parts.exp).dropWhile (· != 'e') =
        'e' :: (if parts.expNegative then '-' else '+') :: parts.exp := by
    rw [List.dropWhile_append_of_pos parts.mantissa_ne_e]
    simp
  have sign : signed ((if parts.expNegative then '-' else '+') :: parts.exp) =
      (parts.expNegative, parts.exp) := by
    cases parts.expNegative <;> rfl
  have stripped := length_stripZeros parts.exp
  simp only [whole, signed_eq, head, tail, sign, three]
  rw [if_neg (by decide)]
  refine ⟨by simp, ?_⟩
  simp [mantissa]
  omega

end CReals

/-- The C library's conversions as far as zeros, infinities and NaNs go: every finite value is
printed as a zero of its sign. -/
def CReals.zeros : CReals where
  e n value :=
    (if signbit value then ['-'] else []) ++
      if isfinite value then
        ('0' :: if List.replicate n '0' = [] then [] else '.' :: List.replicate n '0') ++
          ['e', '+', '0', '0']
      else if value &&& 0xfffffffffffff = 0 then "inf".toList else "nan".toList
  f n value :=
    (if signbit value then ['-'] else []) ++
      if isfinite value then
        '0' :: if n = 0 then [] else '.' :: List.replicate n '0'
      else if value &&& 0xfffffffffffff = 0 then "inf".toList else "nan".toList
  strtod token := if token = ['0'] then some 0 else none
  e_finite := by
    intro n value finite
    refine ⟨⟨signbit value, '0', List.replicate n '0', false, ['0', '0'], rfl, ?_, by simp, ?_,
      ⟨by decide, by decide⟩⟩, rfl, ?_⟩
    · intro c mem
      rw [(List.mem_replicate.mp mem).2]
      rfl
    · intro c mem
      rw [List.mem_replicate.mp (show c ∈ List.replicate 2 '0' from mem) |>.2]
      rfl
    · rw [if_pos finite]
      simp [Scientific.text, Scientific.mantissa]
  f_finite := by
    intro n value finite c mem
    rw [if_pos finite, List.mem_append, List.mem_cons] at mem
    obtain sign | rfl | places := mem
    · split at sign
      · exact .inl (List.mem_singleton.mp sign)
      · cases sign
    · exact .inr (.inr rfl)
    · split at places
      · cases places
      · obtain rfl | mem := List.mem_cons.mp places
        · exact .inr (.inl rfl)
        · rw [(List.mem_replicate.mp mem).2]
          exact .inr (.inr rfl)
  special := by
    intro n m value special
    simp only [special, Bool.false_eq_true, if_false]
  special_plain := by
    intro n value special
    simp only [special, Bool.false_eq_true, if_false]
    split <;> split <;> decide
  special_short := by
    intro n value special
    simp only [special, Bool.false_eq_true, if_false]
    split <;> split <;> decide

end Runtime

end Plang
