import Mathlib.Data.List.TakeWhile
import Mathlib.Tactic.Positivity
import Plang.Lex.TokenScan
import Plang.Library.Numerals

/-!
# Integer literals

The scanner decides how far a literal goes and whether its digits are digits of its radix; a literal
of another radix than ten is handed on in decimal.  The parser makes the value of the lexeme.
-/

namespace Plang.IntLiterals

/-! ### The parser's part -/

/-- The largest unsigned 64-bit integer. -/
def UINT64_MAX : Nat := 18446744073709551615

/-- The error codes of a conversion. -/
inductive errc where
  | ok | invalid_argument | result_out_of_range
  deriving DecidableEq

/-- `std::from_chars_result`, and the number that is stored. -/
structure FromCharsResult where
  /-- The number of characters that match. -/
  ptr : Nat
  /-- The error. -/
  ec : errc
  /-- The integer that is stored where there is no error. -/
  stored : Int := 0
  deriving DecidableEq

/-- `std::from_chars` into an integer of 64 bits, with or without a sign. -/
def fromChars (signed : Bool) (text : Text) : FromCharsResult :=
  let sign := if signed && text.head? == some '-' then 1 else 0
  let digits := (text.drop sign).takeWhile Char.isDigit
  let magnitude := Numerals.value digitValue 10 0 digits
  let limit := if signed then INT64_MAX + sign else UINT64_MAX
  if digits.isEmpty then { ptr := 0, ec := .invalid_argument }
  else if limit < magnitude then { ptr := sign + digits.length, ec := .result_out_of_range }
  else
    { ptr := sign + digits.length
      ec := .ok
      stored := if sign = 1 then -(magnitude : Int) else magnitude }

/-- The node of an integer literal. -/
structure IntLitExpr where
  /-- The bits of `Value`. -/
  Value : BitVec 64 := 0
  /-- The bits are those of an unsigned integer. -/
  ExceedsInt64 : Bool := false
  deriving DecidableEq

/-- The integer that a node stands for. -/
def IntLitExpr.denoted (node : IntLitExpr) : Int :=
  if node.ExceedsInt64 then node.Value.toNat else node.Value.toInt

/-- The errors reported about a literal. -/
inductive LiteralError where
  /-- By the scanner. -/
  | scanner (complaint : Complaint)
  /-- `err_int_literal_out_of_range` with its argument, by the parser. -/
  | err_int_literal_out_of_range (lexeme : Text)
  deriving DecidableEq

/-- An integer literal as a factor: a second attempt is made where the first is out of range. -/
def parseIntLit (S : Text) : IntLitExpr × List LiteralError :=
  let first := fromChars true S
  if first.ec = .result_out_of_range then
    let U := fromChars false S
    if U.ec = .ok ∧ U.ptr = S.length then
      ({ Value := BitVec.ofInt 64 U.stored, ExceedsInt64 := true }, [])
    else
      ({}, [.err_int_literal_out_of_range S])
  else
    ({ Value := BitVec.ofInt 64 first.stored }, [])

/-- The result of reading the literal that a text begins with. -/
structure Reading where
  /-- The number of characters that are taken. -/
  width : Nat
  /-- The node of an integer literal. -/
  node : Option IntLitExpr
  /-- The errors on the way. -/
  errors : List LiteralError
  deriving DecidableEq

/-- Scan a token and, when it is an integer literal, make its node. -/
def readLiteral (opts : LangOptions) (exprStart : Bool) (text : Text) : Reading :=
  let scanned := scanToken opts exprStart text
  let errors := scanned.complaints.map .scanner
  if scanned.kind = .IntLit then
    let (node, parsed) := parseIntLit scanned.lexeme
    { width := scanned.width, node := some node, errors := errors ++ parsed }
  else
    { width := scanned.width, node := none, errors }

/-! ### Literals and what they denote -/

/-- An integer literal, by the way it is written. -/
inductive IntLiteral where
  | decimal (digits : Text)
  | nondecimal (base digits : Text)
  | hexadecimal (digits : Text)
  deriving DecidableEq

/-- The value of digits. -/
def valueOf (radix : Nat) (digits : Text) : Nat := Numerals.value digitValue radix 0 digits

/-- The text goes on with what would belong to a decimal number in front of it. -/
inductive Continues : Text → Prop where
  | digit {c : Char} {after : Text} (digit : c.isDigit) : Continues (c :: after)
  | fraction {c : Char} {after : Text} (digit : c.isDigit) : Continues ('.' :: c :: after)
  | scale {e c : Char} {sign after : Text} (letter : e ∈ ['e', 'E'])
      (signed : sign ∈ [[], ['+'], ['-']]) (digit : c.isDigit) :
      Continues (e :: (sign ++ c :: after))

namespace IntLiteral

/-- How a literal is written. -/
def spelling : IntLiteral → Text
  | decimal digits => digits
  | nondecimal base digits => base ++ '#' :: digits
  | hexadecimal digits => '$' :: digits

/-- The integer it denotes. -/
def value : IntLiteral → Nat
  | decimal digits => valueOf 10 digits
  | nondecimal base digits => valueOf (valueOf 10 base) digits
  | hexadecimal digits => valueOf 16 digits

/-- The literals that a dialect has. -/
def Admitted (opts : LangOptions) : IntLiteral → Prop
  | decimal digits => digits ≠ [] ∧ ∀ c ∈ digits, c.isDigit
  | nondecimal base digits =>
      opts.extendedPascal ∧ base ≠ [] ∧ (∀ c ∈ base, c.isDigit) ∧
        2 ≤ valueOf 10 base ∧ valueOf 10 base ≤ 36 ∧
        digits ≠ [] ∧ ∀ c ∈ digits, c.isAlphanum ∧ digitValue c < valueOf 10 base
  | hexadecimal digits => opts.turbo ∧ digits ≠ [] ∧ ∀ c ∈ digits, isxdigit c

/-- The literals that end in front of a text. -/
def EndsBefore (opts : LangOptions) (rest : Text) : IntLiteral → Prop
  | decimal _ => ¬Continues rest ∧ (opts.extendedPascal → rest.head? ≠ some '#')
  | nondecimal _ _ => ∀ c ∈ rest.head?, ¬c.isAlphanum
  | hexadecimal _ => ∀ c ∈ rest.head?, ¬isxdigit c

/-- The largest value that is represented: an unsigned one in decimal, a signed one in every other
radix. -/
def largest : IntLiteral → Nat
  | decimal _ => UINT64_MAX
  | nondecimal _ _ => INT64_MAX
  | hexadecimal _ => INT64_MAX

/-- The error for a value that is out of range. -/
def outOfRange : IntLiteral → LiteralError
  | decimal digits => .err_int_literal_out_of_range digits
  | nondecimal _ _ => .scanner ⟨0, .err_nondecimal_literal_out_of_range, []⟩
  | hexadecimal _ => .scanner ⟨0, .err_hex_literal_out_of_range, []⟩

end IntLiteral

/-! ### Values of digits -/

theorem digitValue_le (c : Char) : digitValue c ≤ INT64_MAX := by
  have bound (d : Char) : d.toNat < 1114112 := by
    rcases d.valid with small | ⟨_, small⟩
    · exact lt_trans small (by decide)
    · exact small
  have raw := bound c
  have lowered := bound c.toLower
  unfold digitValue INT64_MAX
  split <;> omega

theorem digitsValue_eq (radix start : Nat) (digits : Text) :
    digitsValue radix start digits = Numerals.guarded digitValue radix INT64_MAX start digits := by
  induction digits generalizing start with
  | nil => rfl
  | cons c digits induction => rw [digitsValue, Numerals.guarded, induction]

theorem digitsValue_zero {radix : Nat} (pos : 0 < radix) (digits : Text) :
    digitsValue radix 0 digits =
      if valueOf radix digits ≤ INT64_MAX then some (valueOf radix digits) else none := by
  rw [digitsValue_eq]
  exact Numerals.guarded_eq pos (Nat.zero_le _) fun c _ => digitValue_le c

/-- Digits of the radix are refused only because of their value. -/
theorem nondecimalValue_eq {base : Nat} {digits : Text} (start : Nat)
    (small : ∀ c ∈ digits, digitValue c < base) :
    nondecimalValue base start digits =
      ((digitsValue base start digits).elim
        (.error ⟨0, .err_nondecimal_literal_out_of_range, []⟩) .ok) := by
  induction digits generalizing start with
  | nil => rfl
  | cons c digits induction =>
      have digit := small c List.mem_cons_self
      rw [nondecimalValue, digitsValue, if_neg (not_le.mpr digit)]
      split
      · rfl
      · exact induction _ fun d listed => small d (List.mem_cons_of_mem c listed)

theorem digitValue_of_isDigit {c : Char} (digit : c.isDigit) : digitValue c = c.toNat - '0'.toNat :=
  if_pos digit

theorem value_eq_ofDigitChars {text : Text} (start : Nat) (all : ∀ c ∈ text, c.isDigit) :
    Numerals.value digitValue 10 start text = Nat.ofDigitChars 10 text start := by
  induction text generalizing start with
  | nil => exact Nat.ofDigitChars_nil.symm
  | cons c text induction =>
      rw [Numerals.value_cons, Nat.ofDigitChars_cons,
        induction _ fun d listed => all d (List.mem_cons_of_mem c listed),
        digitValue_of_isDigit (all c List.mem_cons_self), Nat.mul_comm]

theorem isDigit_toDigits (n : Nat) : ∀ c ∈ Nat.toDigits 10 n, c.isDigit :=
  fun _ listed => Nat.isDigit_of_mem_toDigits (by decide) (by decide) listed

/-- The decimal spelling of a number has its value. -/
theorem valueOf_toDigits (n : Nat) : valueOf 10 (Nat.toDigits 10 n) = n := by
  rw [valueOf, value_eq_ofDigitChars 0 (isDigit_toDigits n), Nat.ofDigitChars_ten_toDigits]

/-! ### The parser's conversion -/

section Conversion

variable {digits : Text} (digits_ne : digits ≠ []) (all_digits : ∀ c ∈ digits, c.isDigit)

include digits_ne all_digits

theorem fromChars_digits (signed : Bool) :
    fromChars signed digits =
      if (if signed then INT64_MAX else UINT64_MAX) < valueOf 10 digits then
        { ptr := digits.length, ec := .result_out_of_range }
      else
        { ptr := digits.length, ec := .ok, stored := valueOf 10 digits } := by
  obtain ⟨c, rest, rfl⟩ := List.exists_cons_of_ne_nil digits_ne
  have digit := all_digits c List.mem_cons_self
  have unsigned : (signed && (c :: rest).head? == some '-') = false := by
    have other : c ≠ '-' := by
      rintro rfl
      exact absurd digit (by decide)
    simp [other]
  have taken : (c :: rest).takeWhile Char.isDigit = c :: rest :=
    List.takeWhile_eq_self_iff.mpr all_digits
  simp only [fromChars, unsigned, Bool.false_eq_true, if_false, List.drop_zero, taken,
    List.isEmpty_cons, Nat.add_zero, Nat.zero_add]
  rfl

/-- Digits have their value as long as it is one of 64 bits, and are reported beyond it. -/
theorem parseIntLit_digits :
    (valueOf 10 digits ≤ UINT64_MAX → ∃ node, parseIntLit digits = (node, []) ∧
      node.denoted = valueOf 10 digits ∧
      (node.ExceedsInt64 = true ↔ INT64_MAX < valueOf 10 digits)) ∧
    (UINT64_MAX < valueOf 10 digits →
      parseIntLit digits = ({}, [.err_int_literal_out_of_range digits])) := by
  have signed := fromChars_digits digits_ne all_digits true
  have unsigned := fromChars_digits digits_ne all_digits false
  simp only [if_true, Bool.false_eq_true, if_false] at signed unsigned
  have INT64_MAX_lt : INT64_MAX < UINT64_MAX := by decide
  constructor
  · intro represented
    rw [if_neg (not_lt.mpr represented)] at unsigned
    by_cases beyond : INT64_MAX < valueOf 10 digits
    · rw [if_pos beyond] at signed
      refine ⟨⟨BitVec.ofInt 64 (valueOf 10 digits), true⟩, ?_, ?_, iff_of_true rfl beyond⟩
      · rw [parseIntLit, signed, unsigned]
        simp
      · have bits : (BitVec.ofInt 64 (valueOf 10 digits)).toNat = valueOf 10 digits := by
          rw [BitVec.ofInt_natCast, BitVec.toNat_ofNat]
          exact Nat.mod_eq_of_lt (Nat.lt_succ_of_le represented)
        exact congrArg Nat.cast bits
    · rw [if_neg beyond] at signed
      refine ⟨⟨BitVec.ofInt 64 (valueOf 10 digits), false⟩, ?_, ?_,
        iff_of_false Bool.false_ne_true beyond⟩
      · rw [parseIntLit, signed]
        simp
      · change (BitVec.ofInt 64 (valueOf 10 digits)).toInt = _
        rw [INT64_MAX, not_lt] at beyond
        apply BitVec.toInt_ofInt_eq_self (by decide) <;> omega
  · intro beyond
    rw [if_pos (INT64_MAX_lt.trans beyond)] at signed
    rw [if_pos beyond] at unsigned
    rw [parseIntLit, signed, unsigned]
    simp

end Conversion

/-! ### The scanner's part -/

theorem exists_of_takeWhile_ne_nil {p : Char → Bool} {text : Text}
    (found : text.takeWhile p ≠ []) : ∃ c rest, text = c :: rest ∧ p c := by
  cases text with
  | nil => exact absurd rfl found
  | cons c rest =>
      refine ⟨c, rest, rfl, ?_⟩
      by_contra other
      exact found (List.takeWhile_cons_of_neg other)

theorem fractionPart_eq_nil {rest : Text} (ends : ¬Continues rest) : fractionPart rest = [] := by
  cases rest with
  | nil => rfl
  | cons c rest =>
      apply if_neg
      rintro ⟨rfl, digits⟩
      obtain ⟨d, after, rfl, digit⟩ :=
        exists_of_takeWhile_ne_nil (mt List.isEmpty_iff.mpr digits)
      exact ends (.fraction digit)

theorem signPart_cases (rest : Text) :
    signPart rest ∈ [[], ['+'], ['-']] ∧
      rest = signPart rest ++ rest.drop (signPart rest).length := by
  cases rest with
  | nil => exact ⟨List.mem_cons_self, rfl⟩
  | cons c rest =>
      rw [signPart]
      split
      case isTrue signed => rcases signed with rfl | rfl <;> simp
      case isFalse => simp

theorem exponentPart_eq_nil {rest : Text} (ends : ¬Continues rest) : exponentPart rest = [] := by
  cases rest with
  | nil => rfl
  | cons e rest =>
      apply if_neg
      rintro ⟨letter, digits⟩
      obtain ⟨signed, split_eq⟩ := signPart_cases rest
      obtain ⟨d, after, behind, digit⟩ :=
        exists_of_takeWhile_ne_nil (mt List.isEmpty_iff.mpr digits)
      rw [behind] at split_eq
      rw [split_eq] at ends
      exact ends (.scale (by simpa using letter) signed digit)

theorem not_isDigit_of_ends {rest : Text} (ends : ¬Continues rest) :
    ∀ c ∈ rest.head?, ¬c.isDigit := by
  intro c first digit
  obtain ⟨after, rfl⟩ := List.head?_eq_some_iff.mp first
  exact ends (.digit digit)

/-- A token that begins with a digit is a number. -/
theorem scanToken_digits {opts : LangOptions} {exprStart : Bool} {run : Text} (rest : Text)
    (run_ne : run ≠ []) (all_digits : ∀ c ∈ run, c.isDigit) :
    scanToken opts exprStart (run ++ rest) = scanNumber opts (run ++ rest) := by
  obtain ⟨c, others, rfl⟩ := List.exists_cons_of_ne_nil run_ne
  have digit := all_digits c List.mem_cons_self
  have below : c.toNat ≤ '9'.toNat := of_decide_eq_true (Bool.and_eq_true_iff.mp digit).2
  have not_letter : ¬(c.isAlpha || c == '_') := by
    intro letter
    rw [Bool.or_eq_true, beq_iff_eq] at letter
    rcases letter with letter | rfl
    · rcases Bool.or_eq_true_iff.mp letter with upper | lower
      · have above : 'A'.toNat ≤ c.toNat := (of_decide_eq_true upper).1
        exact absurd (above.trans below) (by decide)
      · have above : 'a'.toNat ≤ c.toNat := of_decide_eq_true (Bool.and_eq_true_iff.mp lower).1
        exact absurd (above.trans below) (by decide)
    · exact absurd digit (by decide)
  rw [List.cons_append, scanToken, if_neg not_letter, if_pos digit]

theorem scanToken_dollar {opts : LangOptions} {exprStart : Bool} (rest : Text)
    (turbo : opts.turbo) :
    scanToken opts exprStart ('$' :: rest) = scanHexLiteral ('$' :: rest) := by
  have other (c : Char) (differs : ('$' == c) = false) : ¬(opts.turbo && '$' == c) := by
    rw [differs, Bool.and_false]
    exact Bool.false_ne_true
  rw [scanToken, if_neg (by decide), if_neg (by decide), if_neg (by decide),
    if_neg (other '#' (by decide)), if_pos (by rw [turbo]; rfl)]

theorem scanNumber_decimal {opts : LangOptions} {digits rest : Text}
    (all_digits : ∀ c ∈ digits, c.isDigit) (ends : ¬Continues rest)
    (no_radix : opts.extendedPascal → rest.head? ≠ some '#') :
    scanNumber opts (digits ++ rest) = ⟨.IntLit, digits, digits.length, []⟩ := by
  have taken := takeWhile_run all_digits (not_isDigit_of_ends ends)
  have not_radix : (opts.extendedPascal && rest.head? == some '#') = false := by
    rw [Bool.and_eq_false_imp]
    exact fun extended => beq_eq_false_iff_ne.mpr (no_radix extended)
  simp only [scanNumber, taken, List.drop_left, not_radix, Bool.false_eq_true, if_false,
    fractionPart_eq_nil ends, List.length_nil, List.drop_zero, exponentPart_eq_nil ends,
    List.append_nil, List.isEmpty_nil, Bool.and_self, if_true]

theorem scanNumber_nondecimal {opts : LangOptions} {base digits rest : Text}
    (extended : opts.extendedPascal) (base_digits : ∀ c ∈ base, c.isDigit)
    (two_le : 2 ≤ valueOf 10 base) (le_36 : valueOf 10 base ≤ 36) (digits_ne : digits ≠ [])
    (all_digits : ∀ c ∈ digits, c.isAlphanum ∧ digitValue c < valueOf 10 base)
    (ends : ∀ c ∈ rest.head?, ¬c.isAlphanum) :
    scanNumber opts (base ++ '#' :: digits ++ rest) =
      if valueOf (valueOf 10 base) digits ≤ INT64_MAX then
        ⟨.IntLit, Nat.toDigits 10 (valueOf (valueOf 10 base) digits),
          base.length + 1 + digits.length, []⟩
      else
        ⟨.Error, digits, base.length + 1 + digits.length,
          [⟨0, .err_nondecimal_literal_out_of_range, []⟩]⟩ := by
  have base_taken : (base ++ '#' :: (digits ++ rest)).takeWhile Char.isDigit = base :=
    takeWhile_run base_digits fun c first => by
      obtain rfl := Option.some.inj first
      decide
  have taken : (digits ++ rest).takeWhile Char.isAlphanum = digits :=
    takeWhile_run (fun c listed => (all_digits c listed).1) ends
  have base_value : digitsValue 10 0 base = some (valueOf 10 base) := by
    rw [digitsValue_zero (by decide), if_pos (le_36.trans (by decide))]
  have in_range : (decide (valueOf 10 base < 2) || decide (36 < valueOf 10 base)) = false := by
    rw [decide_eq_false (not_lt.mpr two_le), decide_eq_false (not_lt.mpr le_36), Bool.or_self]
  have not_empty : digits.isEmpty = false := List.isEmpty_eq_false_iff.mpr digits_ne
  rw [List.append_assoc, List.cons_append, scanNumber]
  simp only [base_taken, List.drop_left, extended, List.head?_cons, beq_self_eq_true, Bool.and_self,
    if_true, List.drop_one, List.tail_cons]
  simp only [scanNondecimal, base_value, in_range, taken, not_empty, Bool.false_eq_true, if_false,
    nondecimalValue_eq 0 fun c listed => (all_digits c listed).2,
    digitsValue_zero (Nat.zero_lt_of_lt two_le)]
  by_cases within : valueOf (valueOf 10 base) digits ≤ INT64_MAX
  · simp only [within, if_true, Option.elim_some]
  · simp only [within, if_false, Option.elim_none]

theorem scanHexLiteral_spelled {digits rest : Text} (digits_ne : digits ≠ [])
    (all_digits : ∀ c ∈ digits, isxdigit c) (ends : ∀ c ∈ rest.head?, ¬isxdigit c) :
    scanHexLiteral ('$' :: digits ++ rest) =
      if valueOf 16 digits ≤ INT64_MAX then
        ⟨.IntLit, Nat.toDigits 10 (valueOf 16 digits), digits.length + 1, []⟩
      else
        ⟨.Error, digits, digits.length + 1, [⟨0, .err_hex_literal_out_of_range, []⟩]⟩ := by
  have taken : (digits ++ rest).takeWhile isxdigit = digits := takeWhile_run all_digits ends
  have not_empty : digits.isEmpty = false := List.isEmpty_eq_false_iff.mpr digits_ne
  simp only [scanHexLiteral, List.cons_append, List.drop_one, List.tail_cons, taken, not_empty,
    Bool.false_eq_true, if_false, digitsValue_zero (by decide : 0 < 16)]
  by_cases within : valueOf 16 digits ≤ INT64_MAX
  · simp only [within, if_true]
  · simp only [within, if_false]

/-! ### Literals denote their values -/

namespace IntLiteral

/-- The token that a literal of another radix becomes. -/
def converted (literal : IntLiteral) (digits : Text) (complaint : Complaint) : Scanned :=
  if literal.value ≤ INT64_MAX then
    ⟨.IntLit, Nat.toDigits 10 literal.value, literal.spelling.length, []⟩
  else
    ⟨.Error, digits, literal.spelling.length, [complaint]⟩

/-- The token that a literal becomes. -/
def token : IntLiteral → Scanned
  | decimal digits => ⟨.IntLit, digits, digits.length, []⟩
  | nondecimal base digits =>
      (nondecimal base digits).converted digits ⟨0, .err_nondecimal_literal_out_of_range, []⟩
  | hexadecimal digits =>
      (hexadecimal digits).converted digits ⟨0, .err_hex_literal_out_of_range, []⟩

/-- A literal is read as its own value, or as the error that it is out of range. -/
def Reads (literal : IntLiteral) (reading : Reading) : Prop :=
  reading.width = literal.spelling.length ∧
  (literal.value ≤ literal.largest →
    ∃ node, reading.node = some node ∧ reading.errors = [] ∧ node.denoted = literal.value ∧
      (node.ExceedsInt64 = true ↔ INT64_MAX < literal.value)) ∧
  (literal.largest < literal.value → literal.outOfRange ∈ reading.errors)

variable {opts : LangOptions} {exprStart : Bool} {literal : IntLiteral} {rest text : Text}

/-- The scanner takes a literal to its end, and nothing behind it. -/
theorem scanToken_eq (admitted : literal.Admitted opts) (ends : literal.EndsBefore opts rest) :
    scanToken opts exprStart (literal.spelling ++ rest) = literal.token := by
  cases literal with
  | decimal digits =>
      obtain ⟨digits_ne, all_digits⟩ := admitted
      exact (scanToken_digits rest digits_ne all_digits).trans
        (scanNumber_decimal all_digits ends.1 ends.2)
  | nondecimal base digits =>
      obtain ⟨extended, base_ne, base_digits, two_le, le_36, digits_ne, all_digits⟩ := admitted
      have scanned :=
        scanNumber_nondecimal extended base_digits two_le le_36 digits_ne all_digits ends
      have width : (base ++ '#' :: digits).length = base.length + 1 + digits.length := by
        rw [List.length_append, List.length_cons]
        omega
      rw [token, converted, spelling, width]
      rw [List.append_assoc] at scanned ⊢
      exact (scanToken_digits _ base_ne base_digits).trans scanned
  | hexadecimal digits =>
      obtain ⟨turbo, digits_ne, all_digits⟩ := admitted
      exact (scanToken_dollar _ turbo).trans (scanHexLiteral_spelled digits_ne all_digits ends)

theorem token_not_real (literal : IntLiteral) : literal.token.kind ≠ .RealLit := by
  cases literal with
  | decimal digits => exact TokenKind.noConfusion
  | nondecimal base digits =>
      rw [token, converted]
      split <;> exact TokenKind.noConfusion
  | hexadecimal digits =>
      rw [token, converted]
      split <;> exact TokenKind.noConfusion

/-- A token of decimal digits is read as the parser converts it. -/
theorem readLiteral_of_intLit {lexeme : Text} {width : Nat}
    (scanned : scanToken opts exprStart text = ⟨.IntLit, lexeme, width, []⟩) :
    readLiteral opts exprStart text =
      ⟨width, some (parseIntLit lexeme).1, (parseIntLit lexeme).2⟩ := by
  rw [readLiteral, scanned]
  rfl

/-- A literal that the scanner has turned into decimal is read as its value. -/
theorem reads_of_converted {digits : Text} {complaint : Complaint}
    (limited : literal.largest = INT64_MAX) (reported : literal.outOfRange = .scanner complaint)
    (scanned : scanToken opts exprStart text = literal.converted digits complaint) :
    literal.Reads (readLiteral opts exprStart text) := by
  rw [Reads, limited, reported]
  rw [converted] at scanned
  split at scanned
  case isTrue within =>
    have spelled := parseIntLit_digits Nat.toDigits_ne_nil (isDigit_toDigits literal.value)
    rw [valueOf_toDigits] at spelled
    obtain ⟨node, parsed, denoted, exceeds⟩ := spelled.1 (within.trans (by decide))
    rw [readLiteral_of_intLit scanned, parsed]
    refine ⟨rfl, fun _ => ⟨node, rfl, rfl, denoted, exceeds⟩, fun beyond => ?_⟩
    exact absurd within (not_le.mpr beyond)
  case isFalse beyond =>
    have reading : readLiteral opts exprStart text =
        ⟨literal.spelling.length, none, [.scanner complaint]⟩ := by
      rw [readLiteral, scanned]
      rfl
    rw [reading]
    exact ⟨rfl, fun within => absurd within beyond, fun _ => List.mem_cons_self⟩

/-- Every literal of the dialect is read as the value it denotes, up to the largest one, and is
reported beyond that, wherever it ends. -/
theorem reads (admitted : literal.Admitted opts) (ends : literal.EndsBefore opts rest) :
    literal.Reads (readLiteral opts exprStart (literal.spelling ++ rest)) := by
  have scanned := @scanToken_eq opts exprStart literal rest admitted ends
  cases literal with
  | decimal digits =>
      obtain ⟨digits_ne, all_digits⟩ := admitted
      obtain ⟨within, beyond⟩ := parseIntLit_digits digits_ne all_digits
      rw [readLiteral_of_intLit scanned]
      refine ⟨rfl, fun represented => ?_, fun unrepresented => ?_⟩
      · obtain ⟨node, parsed, denoted, exceeds⟩ := within represented
        rw [parsed]
        exact ⟨node, rfl, rfl, denoted, exceeds⟩
      · rw [beyond unrepresented]
        exact List.mem_cons_self
  | nondecimal base digits => exact reads_of_converted rfl rfl scanned
  | hexadecimal digits => exact reads_of_converted rfl rfl scanned

/-- A point that no digit follows does not go on a number. -/
theorem not_continues_point {c : Char} (more : Text) (other : ¬c.isDigit) :
    ¬Continues ('.' :: c :: more) := by
  generalize same : '.' :: c :: more = text
  intro continues
  cases continues with
  | digit digit =>
      rw [← (List.cons.inj same).1] at digit
      exact absurd digit (by decide)
  | fraction digit =>
      rw [← (List.cons.inj (List.cons.inj same).2).1] at digit
      exact other digit
  | scale letter signed digit =>
      rw [← (List.cons.inj same).1] at letter
      exact absurd letter (by decide)

/-- A point with no digit behind it ends every literal. -/
theorem endsBefore_point {c : Char} (more : Text) (other : ¬c.isDigit) (literal : IntLiteral) :
    literal.EndsBefore opts ('.' :: c :: more) := by
  have first : ∀ d ∈ ('.' :: c :: more).head?, d = '.' := fun d first =>
    (Option.some.inj first).symm
  cases literal with
  | decimal digits => exact ⟨not_continues_point more other, fun _ => by simp⟩
  | nondecimal base digits =>
      intro d head
      rw [first d head]
      decide
  | hexadecimal digits =>
      intro d head
      rw [first d head]
      decide

end IntLiteral

/-- Every literal of the dialect, of any length and wherever it ends, is taken whole, is read as the
value it denotes up to the largest one, and is reported beyond that; in front of `..` and of `.)` it
ends, and is no real number. -/
theorem literals_denote (opts : LangOptions) (exprStart : Bool) (literal : IntLiteral)
    (admitted : literal.Admitted opts) :
    (∀ rest, literal.EndsBefore opts rest →
      literal.Reads (readLiteral opts exprStart (literal.spelling ++ rest))) ∧
    ∀ c ∈ ['.', ')'], ∀ more,
      literal.Reads (readLiteral opts exprStart (literal.spelling ++ '.' :: c :: more)) ∧
      (scanToken opts exprStart (literal.spelling ++ '.' :: c :: more)).kind ≠ .RealLit := by
  refine ⟨fun rest ends => literal.reads admitted ends, fun c listed more => ?_⟩
  have other : ¬c.isDigit := by
    rcases List.mem_pair.mp listed with rfl | rfl <;> decide
  have ends := @IntLiteral.endsBefore_point opts c more other literal
  refine ⟨literal.reads admitted ends, ?_⟩
  rw [IntLiteral.scanToken_eq admitted ends]
  exact literal.token_not_real

/-- `18446744073709551615` in Turbo Pascal. -/
def largestQWord : IntLiteral := .decimal "18446744073709551615".toList

theorem literals_denote_largestQWord :
    largestQWord.Reads (readLiteral { std := .Turbo } true
      (largestQWord.spelling ++ ['.', '.', '9'])) :=
  ((literals_denote { std := .Turbo } true largestQWord
    ⟨by decide, List.all_eq_true.mp (by decide)⟩).2 '.' (by decide) ['9']).1

/-- `9223372036854775808` and `$8000000000000000` are literals of one value: the first one is read
as it, and the second one is refused. -/
theorem hexadecimal_refused :
    let decimal := IntLiteral.decimal "9223372036854775808".toList
    let hexadecimal := IntLiteral.hexadecimal "8000000000000000".toList
    let opts : LangOptions := { std := .Turbo }
    decimal.Admitted opts ∧ hexadecimal.Admitted opts ∧ hexadecimal.value = decimal.value ∧
      (readLiteral opts true decimal.spelling).errors = [] ∧
      (readLiteral opts true decimal.spelling).node.map IntLitExpr.denoted = some decimal.value ∧
      readLiteral opts true hexadecimal.spelling =
        ⟨17, none, [.scanner ⟨0, .err_hex_literal_out_of_range, []⟩]⟩ := by
  refine ⟨⟨by decide, List.all_eq_true.mp (by decide)⟩,
    ⟨rfl, by decide, List.all_eq_true.mp (by decide)⟩, ?_⟩
  decide

end Plang.IntLiterals
