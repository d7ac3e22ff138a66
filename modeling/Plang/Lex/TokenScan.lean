import Plang.Basic.Diagnostic
import Plang.Basic.TokenKinds

/-!
# Scanning one token

Each function reads the text from the scanner's position on and answers with the token and the
number of characters it takes.  Positions of diagnostics are relative to the start of the token.
-/

namespace Plang

/-- The largest signed 64-bit integer. -/
def INT64_MAX : Nat := 9223372036854775807

/-- A diagnostic before its position is made absolute. -/
structure Complaint where
  /-- Characters after the start of the token. -/
  offset : Nat
  /-- The entry of the table. -/
  id : DiagID
  /-- The arguments of the message. -/
  args : List Text := []
  deriving DecidableEq

/-- The result of scanning one token. -/
structure Scanned where
  /-- Its category. -/
  kind : TokenKind
  /-- Its text. -/
  lexeme : Text
  /-- The number of characters it takes. -/
  width : Nat
  /-- The reports made on the way. -/
  complaints : List Complaint := []
  deriving DecidableEq

/-- The kind of a word, before the dialect is asked. -/
def keywordKind (word : Text) : TokenKind :=
  ((keywords.find? fun entry => entry.1.toList == toLower word).map Prod.snd).getD .Identifier

/-- Two underscores stand next to each other. -/
def hasDoubleUnderscore : Text → Bool
  | '_' :: '_' :: _ => true
  | _ :: rest => hasDoubleUnderscore rest
  | [] => false

/-- An identifier or a reserved word. -/
def scanIdentifierOrKeyword (opts : LangOptions) (text : Text) : Scanned :=
  let word := text.takeWhile isWordChar
  let underscore := word.contains '_'
  let kind := keywordKind word
  { kind := if keywordDialects kind opts.std then kind else .Identifier
    lexeme := word
    width := word.length
    complaints :=
      (if underscore && !opts.underscoreIdentifiers then
        [⟨0, .err_ep_underscore_in_identifier, []⟩] else []) ++
      (if underscore && opts.extendedPascal &&
          (word.head? == some '_' || word.getLast? == some '_' || hasDoubleUnderscore word) then
        [⟨0, .err_ep_underscore_placement, []⟩] else []) }

/-- The value of a digit string in the given radix, unless it leaves the 64-bit range. -/
def digitsValue (radix : Nat) : Nat → Text → Option Nat
  | value, [] => some value
  | value, c :: digits =>
      if (INT64_MAX - digitValue c) / radix < value then
        none
      else
        digitsValue radix (value * radix + digitValue c) digits

/-- The value of the digits of a nondecimal literal, or what is wrong with them. -/
def nondecimalValue (base : Nat) : Nat → Text → Except Complaint Nat
  | value, [] => .ok value
  | value, c :: digits =>
      if base ≤ digitValue c then
        .error ⟨0, .err_nondecimal_bad_digit, [[c], Nat.toDigits 10 base]⟩
      else if (INT64_MAX - digitValue c) / base < value then
        .error ⟨0, .err_nondecimal_literal_out_of_range, []⟩
      else
        nondecimalValue base (value * base + digitValue c) digits

/-- An Extended Pascal literal `base#digits`; `after` is the text behind the `#`. -/
def scanNondecimal (baseDigits after : Text) : Scanned :=
  match digitsValue 10 0 baseDigits with
  | none => ⟨.Error, baseDigits, baseDigits.length, [⟨0, .err_nondecimal_base_range, []⟩]⟩
  | some base =>
      if base < 2 || 36 < base then
        ⟨.Error, baseDigits, baseDigits.length, [⟨0, .err_nondecimal_base_range, []⟩]⟩
      else
        let digits := after.takeWhile Char.isAlphanum
        let width := baseDigits.length + 1 + digits.length
        if digits.isEmpty then
          ⟨.Error, ['#'], width, [⟨0, .err_nondecimal_no_digits, []⟩]⟩
        else
          match nondecimalValue base 0 digits with
          | .error complaint => ⟨.Error, digits, width, [complaint]⟩
          | .ok value => ⟨.IntLit, Nat.toDigits 10 value, width, []⟩

/-- The fractional part: the point belongs to the number only when a digit follows it. -/
def fractionPart : Text → Text
  | [] => []
  | c :: rest =>
      let digits := rest.takeWhile Char.isDigit
      if c = '.' ∧ ¬digits.isEmpty then c :: digits else []

/-- The sign of a scale factor. -/
def signPart : Text → Text
  | [] => []
  | c :: _ => if c = '+' ∨ c = '-' then [c] else []

/-- The scale factor: the letter belongs to the number only when a digit really follows. -/
def exponentPart : Text → Text
  | [] => []
  | c :: rest =>
      let sign := signPart rest
      let digits := (rest.drop sign.length).takeWhile Char.isDigit
      if (c = 'e' ∨ c = 'E') ∧ ¬digits.isEmpty then c :: (sign ++ digits) else []

/-- A number. -/
def scanNumber (opts : LangOptions) (text : Text) : Scanned :=
  let digits := text.takeWhile Char.isDigit
  let after := text.drop digits.length
  if opts.extendedPascal && after.head? == some '#' then
    scanNondecimal digits (after.drop 1)
  else
    let fraction := fractionPart after
    let exponent := exponentPart (after.drop fraction.length)
    let lexeme := digits ++ fraction ++ exponent
    { kind := if fraction.isEmpty && exponent.isEmpty then .IntLit else .RealLit
      lexeme
      width := lexeme.length }

/-- One piece of a string literal. -/
structure Fragment where
  /-- The characters it stands for. -/
  decoded : Text
  /-- The number of characters it takes. -/
  width : Nat
  /-- The kind of the whole token when the piece is malformed. -/
  failed : Option TokenKind := none
  /-- The reports. -/
  complaints : List Complaint := []
  deriving DecidableEq

/-- The inside of a quoted piece: its characters, its width with the closing quote, and whether
that quote is there. -/
def quotedBody : Text → Text × Nat × Bool
  | [] => ([], 0, false)
  | '\n' :: _ => ([], 0, false)
  | '\'' :: '\'' :: rest =>
      let (decoded, width, closed) := quotedBody rest
      ('\'' :: decoded, width + 2, closed)
  | '\'' :: _ => ([], 1, true)
  | c :: rest =>
      let (decoded, width, closed) := quotedBody rest
      (c :: decoded, width + 1, closed)

theorem quotedBody_doubled (rest : Text) :
    quotedBody ('\'' :: '\'' :: rest) =
      ('\'' :: (quotedBody rest).1, (quotedBody rest).2.1 + 2, (quotedBody rest).2.2) := rfl

theorem quotedBody_close {rest : Text} (single : rest.head? ≠ some '\'') :
    quotedBody ('\'' :: rest) = ([], 1, true) := by
  rw [quotedBody.eq_4]
  rintro tail rfl
  exact single rfl

theorem quotedBody_other {c : Char} (rest : Text) (not_newline : c ≠ '\n')
    (not_quote : c ≠ '\'') :
    quotedBody (c :: rest) =
      (c :: (quotedBody rest).1, (quotedBody rest).2.1 + 1, (quotedBody rest).2.2) := by
  rw [quotedBody.eq_5] <;> simp [not_newline, not_quote]

/-- A quoted piece; the text begins with the opening quote. -/
def scanQuotedFragment (text : Text) : Fragment :=
  let (decoded, width, closed) := quotedBody (text.drop 1)
  if closed then
    { decoded, width := width + 1 }
  else
    { decoded, width := width + 1, failed := some .StringLit
      complaints := [⟨width + 1, .err_unterminated_string, []⟩] }

theorem scanQuotedFragment_width (text : Text) :
    (scanQuotedFragment text).width = (quotedBody (text.drop 1)).2.1 + 1 := by
  unfold scanQuotedFragment
  obtain ⟨decoded, width, closed⟩ := quotedBody (text.drop 1)
  cases closed <;> rfl

/-- The value of a character code, unless it is above 255. -/
def controlCodeValue (radix : Nat) : Nat → Text → Option Nat
  | value, [] => some value
  | value, c :: digits =>
      let value := value * radix + digitValue c
      if 255 < value then none else controlCodeValue radix value digits

/-- A Turbo piece `#code`; the text begins with the `#`. -/
def scanControlCodeFragment (text : Text) : Fragment :=
  let hex := (text.drop 1).head? == some '$'
  let start := if hex then 2 else 1
  let digits := (text.drop start).takeWhile (if hex then isxdigit else Char.isDigit)
  let width := start + digits.length
  if digits.isEmpty then
    { decoded := [], width, failed := some .Error
      complaints := [⟨0, .err_control_code_no_digits, []⟩] }
  else
    match controlCodeValue (if hex then 16 else 10) 0 digits with
    | none =>
        { decoded := [], width, failed := some .Error
          complaints := [⟨0, .err_control_code_out_of_range, [digits]⟩] }
    | some value => { decoded := [Char.ofNat value], width }

theorem scanControlCodeFragment_width (text : Text) :
    (scanControlCodeFragment text).width =
      if (text.drop 1).head? = some '$' then 2 + ((text.drop 2).takeWhile isxdigit).length
      else 1 + ((text.drop 1).takeWhile Char.isDigit).length := by
  unfold scanControlCodeFragment
  by_cases hex : (text.drop 1).head? = some '$'
  · simp only [hex, beq_self_eq_true, if_true]
    split
    · rfl
    · split <;> rfl
  · simp only [hex, beq_iff_eq, if_false]
    split
    · rfl
    · split <;> rfl

/-- The shape of a Turbo control character: `^` and a letter. -/
def caretLooksLikeControlChar : Text → Bool
  | [] => false
  | c :: rest => c == '^' && rest.head?.any Char.isAlpha

/-- A Turbo piece `^letter`; its shape has been confirmed. -/
def scanCaretFragment (text : Text) : Fragment :=
  match text.drop 1 with
  | [] => { decoded := [], width := 2 }
  | c :: _ => { decoded := [Char.ofNat (c.toUpper.toNat - 'A'.toNat + 1)], width := 2 }

theorem scanCaretFragment_width (text : Text) : (scanCaretFragment text).width = 2 := by
  unfold scanCaretFragment
  split <;> rfl

/-- The piece a text begins with. -/
def scanFragment (opts : LangOptions) (text : Text) : Option Fragment :=
  if text.head? == some '\'' then some (scanQuotedFragment text)
  else if opts.turbo && text.head? == some '#' then some (scanControlCodeFragment text)
  else if opts.turbo && caretLooksLikeControlChar text then some (scanCaretFragment text)
  else none

/-- In Turbo Pascal another piece is glued on when it follows without a gap. -/
def gluesFragment (opts : LangOptions) (text : Text) : Bool :=
  opts.turbo &&
    (text.head? == some '\'' || text.head? == some '#' || caretLooksLikeControlChar text)

/-- Put a piece in front of the rest of its literal. -/
def Fragment.glue (fragment : Fragment) (rest : Scanned) : Scanned :=
  { kind := rest.kind
    lexeme := fragment.decoded ++ rest.lexeme
    width := fragment.width + rest.width
    complaints := rest.complaints.map fun complaint =>
      { complaint with offset := fragment.width + complaint.offset } }

/-- The pieces of a string literal, at most as many as the fuel. -/
def scanFragments (opts : LangOptions) : Nat → Text → Scanned
  | 0, _ => ⟨.StringLit, [], 0, []⟩
  | fuel + 1, text =>
      match scanFragment opts text with
      | none => ⟨.StringLit, [], 0, []⟩
      | some fragment =>
          match fragment.failed with
          | some kind => ⟨kind, fragment.decoded, fragment.width, fragment.complaints⟩
          | none =>
              let after := text.drop fragment.width
              if gluesFragment opts after then
                fragment.glue (scanFragments opts fuel after)
              else
                ⟨.StringLit, fragment.decoded, fragment.width, []⟩

/-- A string literal; every piece takes at least one character. -/
def scanString (opts : LangOptions) (text : Text) : Scanned :=
  scanFragments opts text.length text

/-- A Turbo literal `$FF`; the text begins with the `$`. -/
def scanHexLiteral (text : Text) : Scanned :=
  let digits := (text.drop 1).takeWhile isxdigit
  let width := digits.length + 1
  if digits.isEmpty then
    ⟨.Error, ['$'], width, [⟨0, .err_hex_literal_no_digits, []⟩]⟩
  else
    match digitsValue 16 0 digits with
    | none => ⟨.Error, digits, width, [⟨0, .err_hex_literal_out_of_range, []⟩]⟩
    | some value => ⟨.IntLit, Nat.toDigits 10 value, width, []⟩

/-- An operator or delimiter, from its first character and the one behind it. -/
def symbolToken (opts : LangOptions) (c : Char) (next : Option Char) : Scanned :=
  match c with
  | '+' => ⟨.Plus, ['+'], 1, []⟩
  | '-' => ⟨.Minus, ['-'], 1, []⟩
  | '*' => if next = some '*' then ⟨.StarStar, ['*', '*'], 2, []⟩ else ⟨.Times, ['*'], 1, []⟩
  | '/' => ⟨.Divide, ['/'], 1, []⟩
  | '=' => ⟨.Equal, ['='], 1, []⟩
  | '<' =>
      if next = some '>' then ⟨.NotEqual, ['<', '>'], 2, []⟩
      else if next = some '=' then ⟨.LessThanOrEqual, ['<', '='], 2, []⟩
      else ⟨.LessThan, ['<'], 1, []⟩
  | '>' =>
      if next = some '=' then ⟨.GreaterThanOrEqual, ['>', '='], 2, []⟩
      else if next = some '<' then ⟨.SymDiff, ['>', '<'], 2, []⟩
      else ⟨.GreaterThan, ['>'], 1, []⟩
  | ':' => if next = some '=' then ⟨.Assign, [':', '='], 2, []⟩ else ⟨.Colon, [':'], 1, []⟩
  | '.' =>
      if next = some '.' then ⟨.DotDot, ['.', '.'], 2, []⟩
      else if next = some ')' then ⟨.RightBracket, ['.', ')'], 2, []⟩
      else ⟨.Dot, ['.'], 1, []⟩
  | ',' => ⟨.Comma, [','], 1, []⟩
  | ';' => ⟨.Semicolon, [';'], 1, []⟩
  | '(' =>
      if next = some '.' then ⟨.LeftBracket, ['(', '.'], 2, []⟩ else ⟨.LeftParen, ['('], 1, []⟩
  | ')' => ⟨.RightParen, [')'], 1, []⟩
  | '[' => ⟨.LeftBracket, ['['], 1, []⟩
  | ']' => ⟨.RightBracket, [']'], 1, []⟩
  | '^' => ⟨.Caret, ['^'], 1, []⟩
  | '@' => ⟨if opts.turbo then .At else .Caret, ['@'], 1, []⟩
  | c => ⟨.Error, [c], 1, [⟨0, .err_unexpected_char, [[c]]⟩]⟩

/-- An operator or delimiter of one or two characters. -/
def scanSymbol (opts : LangOptions) : Text → Scanned
  | [] => ⟨.Error, [], 0, []⟩
  | c :: rest => symbolToken opts c rest.head?

/-- The token a text begins with, which is neither white space nor a comment.  `exprStart` tells
whether a caret may open a control character here. -/
def scanToken (opts : LangOptions) (exprStart : Bool) (text : Text) : Scanned :=
  match text with
  | [] => ⟨.Error, [], 0, []⟩
  | c :: _ =>
      if c.isAlpha || c == '_' then scanIdentifierOrKeyword opts text
      else if c.isDigit then scanNumber opts text
      else if c == '\'' then scanString opts text
      else if opts.turbo && c == '#' then scanString opts text
      else if opts.turbo && c == '$' then scanHexLiteral text
      else if opts.turbo && caretLooksLikeControlChar text && exprStart then scanString opts text
      else scanSymbol opts text

end Plang
