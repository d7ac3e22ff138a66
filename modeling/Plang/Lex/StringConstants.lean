import Mathlib
import Plang.Lex.Next
import Plang.Library.Numerals

/-!
# String constants of Turbo Pascal

A constant is a run of pieces with nothing in between: characters in quotes, codes of characters and
control characters.  Each piece ends before the next one, and the constant ends behind the last one
unless another piece follows there.
-/

namespace Plang.StringConstants

/-- A piece of a constant. -/
inductive Piece where
  /-- Characters in quotes. -/
  | quoted (content : Text)
  /-- `#code`. -/
  | decimal (digits : Text)
  /-- `#$code`. -/
  | hexadecimal (digits : Text)
  /-- `^letter`. -/
  | control (letter : Char)
  deriving DecidableEq

/-- A quote is written twice. -/
def doubled (content : Text) : Text :=
  content.flatMap fun c => if c = '\'' then ['\'', '\''] else [c]

namespace Piece

/-- How a piece is written. -/
def spelling : Piece → Text
  | quoted content => '\'' :: (doubled content ++ ['\''])
  | decimal digits => '#' :: digits
  | hexadecimal digits => '#' :: '$' :: digits
  | control letter => ['^', letter]

/-- The characters it stands for. -/
def decoded : Piece → Text
  | quoted content => content
  | decimal digits => [Char.ofNat (Numerals.value digitValue 10 0 digits)]
  | hexadecimal digits => [Char.ofNat (Numerals.value digitValue 16 0 digits)]
  | control letter => [Char.ofNat (letter.toUpper.toNat ^^^ 64)]

/-- A line holds the characters in quotes, and a code is that of a character. -/
def WellFormed : Piece → Prop
  | quoted content => '\n' ∉ content
  | decimal digits =>
      digits ≠ [] ∧ (∀ c ∈ digits, c.isDigit) ∧ Numerals.value digitValue 10 0 digits ≤ 255
  | hexadecimal digits =>
      digits ≠ [] ∧ (∀ c ∈ digits, isxdigit c) ∧ Numerals.value digitValue 16 0 digits ≤ 255
  | control letter => letter.isAlpha

/-- A piece ends before a text: its last quote is not doubled, and no digit continues its code. -/
def EndsBefore (rest : Text) : Piece → Prop
  | quoted _ => rest.head? ≠ some '\''
  | decimal _ => ∀ c ∈ rest.head?, ¬c.isDigit
  | hexadecimal _ => ∀ c ∈ rest.head?, ¬isxdigit c
  | control _ => True

instance : (piece : Piece) → Decidable piece.WellFormed
  | quoted content => inferInstanceAs (Decidable ('\n' ∉ content))
  | decimal digits =>
      decidable_of_iff (digits ≠ [] ∧ digits.all Char.isDigit ∧
        Numerals.value digitValue 10 0 digits ≤ 255) (by rw [List.all_eq_true]; rfl)
  | hexadecimal digits =>
      decidable_of_iff (digits ≠ [] ∧ digits.all isxdigit ∧
        Numerals.value digitValue 16 0 digits ≤ 255) (by rw [List.all_eq_true]; rfl)
  | control letter => inferInstanceAs (Decidable (letter.isAlpha = true))

instance (rest : Text) : (piece : Piece) → Decidable (piece.EndsBefore rest)
  | quoted _ => inferInstanceAs (Decidable (rest.head? ≠ some '\''))
  | decimal _ =>
      decidable_of_iff (rest.head?.all fun c => !c.isDigit) (by cases rest <;> simp [EndsBefore])
  | hexadecimal _ =>
      decidable_of_iff (rest.head?.all fun c => !isxdigit c) (by cases rest <;> simp [EndsBefore])
  | control _ => inferInstanceAs (Decidable True)

end Piece

/-- How pieces are written. -/
def spelling (pieces : List Piece) : Text := pieces.flatMap Piece.spelling

/-- The characters that pieces stand for, in their order. -/
def decoded (pieces : List Piece) : Text := pieces.flatMap Piece.decoded

theorem spelling_cons (piece : Piece) (pieces : List Piece) :
    spelling (piece :: pieces) = piece.spelling ++ spelling pieces := rfl

theorem decoded_cons (piece : Piece) (pieces : List Piece) :
    decoded (piece :: pieces) = piece.decoded ++ decoded pieces := rfl

/-- Well-formed pieces, each of which ends where the next one or the text behind them begins. -/
def Glued : List Piece → Text → Prop
  | [], _ => True
  | piece :: pieces, rest =>
      piece.WellFormed ∧ piece.EndsBefore (spelling pieces ++ rest) ∧ Glued pieces rest

/-- A text begins with a piece. -/
def Opens (text : Text) : Prop :=
  text.head? = some '\'' ∨ text.head? = some '#' ∨
    ∃ letter rest, text = '^' :: letter :: rest ∧ letter.isAlpha

/-- The ways in which a piece of a string constant is malformed. -/
inductive Malformed where
  /-- No digit follows the sign of a code. -/
  | noDigits (hex : Bool)
  /-- The code is not that of a character. -/
  | outOfRange (hex : Bool) (digits : Text)
  /-- The line or the text ends in front of the closing quote. -/
  | unterminated (content : Text)
  deriving DecidableEq

namespace Malformed

/-- The digits of a code. -/
def isCodeDigit (hex : Bool) : Char → Bool := if hex then isxdigit else Char.isDigit

/-- The sign of a code. -/
def sign (hex : Bool) : Text := if hex then ['#', '$'] else ['#']

/-- The radix of a code. -/
def radix (hex : Bool) : Nat := if hex then 16 else 10

/-- How a malformed piece is written. -/
def spelling : Malformed → Text
  | noDigits hex => sign hex
  | outOfRange hex digits => sign hex ++ digits
  | unterminated content => '\'' :: doubled content

/-- A malformed piece that ends in front of a text. -/
def StandsBefore (rest : Text) : Malformed → Prop
  | noDigits hex =>
      (∀ c ∈ rest.head?, ¬isCodeDigit hex c) ∧ (hex = false → rest.head? ≠ some '$')
  | outOfRange hex digits =>
      digits ≠ [] ∧ (∀ c ∈ digits, isCodeDigit hex c) ∧ (∀ c ∈ rest.head?, ¬isCodeDigit hex c) ∧
        255 < Numerals.value digitValue (radix hex) 0 digits
  | unterminated content => '\n' ∉ content ∧ (rest = [] ∨ rest.head? = some '\n')

/-- The report of a malformed piece, at the beginning of a code or at the end of a line. -/
def complaint : Malformed → Complaint
  | noDigits _ => ⟨0, .err_control_code_no_digits, []⟩
  | outOfRange _ digits => ⟨0, .err_control_code_out_of_range, [digits]⟩
  | unterminated content => ⟨(doubled content).length + 1, .err_unterminated_string, []⟩

/-- The kind of the token. -/
def kind : Malformed → TokenKind
  | noDigits _ => .Error
  | outOfRange _ _ => .Error
  | unterminated _ => .StringLit

/-- The characters of a malformed piece that the token keeps. -/
def kept : Malformed → Text
  | noDigits _ => []
  | outOfRange _ _ => []
  | unterminated content => content

end Malformed

/-! ### The value of a code -/

/-- A code is refused exactly when it is above 255. -/
theorem controlCodeValue_eq {radix start : Nat} {digits : Text} (pos : 0 < radix)
    (small : start ≤ 255) :
    controlCodeValue radix start digits =
      if Numerals.value digitValue radix start digits ≤ 255 then
        some (Numerals.value digitValue radix start digits)
      else none := by
  induction digits generalizing start with
  | nil =>
      rw [Numerals.value_nil, if_pos small]
      rfl
  | cons c digits induction =>
      rw [controlCodeValue, Numerals.value_cons]
      split
      case isTrue beyond =>
        have grows : 255 < Numerals.value digitValue radix (start * radix + digitValue c) digits :=
          beyond.trans_le (Numerals.le_value pos)
        rw [if_neg (not_le.mpr grows)]
      case isFalse within => exact induction (not_lt.mp within)

/-- The sign of a code in front of its digits is scanned as the code they are. -/
theorem scanControlCodeFragment_eq {hex : Bool} {digits rest : Text}
    (all_digits : ∀ c ∈ digits, Malformed.isCodeDigit hex c)
    (ends : ∀ c ∈ rest.head?, ¬Malformed.isCodeDigit hex c)
    (decimal : hex = false → (digits ++ rest).head? ≠ some '$') :
    scanControlCodeFragment (Malformed.sign hex ++ (digits ++ rest)) =
      if digits = [] then
        { decoded := [], width := (Malformed.sign hex ++ digits).length, failed := some .Error
          complaints := [(Malformed.noDigits hex).complaint] }
      else if Numerals.value digitValue (Malformed.radix hex) 0 digits ≤ 255 then
        { decoded := [Char.ofNat (Numerals.value digitValue (Malformed.radix hex) 0 digits)]
          width := (Malformed.sign hex ++ digits).length }
      else
        { decoded := [], width := (Malformed.sign hex ++ digits).length, failed := some .Error
          complaints := [(Malformed.outOfRange hex digits).complaint] } := by
  have taken := takeWhile_run all_digits ends
  have value := @controlCodeValue_eq (Malformed.radix hex) 0 digits (by cases hex <;> decide)
    (Nat.zero_le _)
  have width : (Malformed.sign hex ++ digits).length = (if hex then 2 else 1) + digits.length := by
    rw [List.length_append]
    cases hex <;> rfl
  have is_hex : (((Malformed.sign hex ++ (digits ++ rest)).drop 1).head? == some '$') = hex := by
    cases hex with
    | true => rfl
    | false => exact beq_eq_false_iff_ne.mpr (decimal rfl)
  have behind : (Malformed.sign hex ++ (digits ++ rest)).drop (if hex then 2 else 1) =
      digits ++ rest := by
    cases hex <;> rfl
  change (digits ++ rest).takeWhile (if hex then isxdigit else Char.isDigit) = digits at taken
  change controlCodeValue (if hex then 16 else 10) 0 digits = _ at value
  rw [scanControlCodeFragment, width]
  simp only [is_hex, behind, taken, value, List.isEmpty_iff]
  split
  · rfl
  · by_cases within : Numerals.value digitValue (Malformed.radix hex) 0 digits ≤ 255
    · simp only [within, if_true]
    · simp only [within, if_false]
      rfl

/-- A letter and its control character differ in one bit. -/
theorem toUpper_xor {letter : Char} (alpha : letter.isAlpha) :
    letter.toUpper.toNat - 'A'.toNat + 1 = letter.toUpper.toNat ^^^ 64 := by
  have upper : letter.toUpper.isUpper := by rw [Char.isUpper_toUpper_eq_isAlpha, alpha]
  have bounds : 65 ≤ letter.toUpper.toNat ∧ letter.toUpper.toNat ≤ 90 := of_decide_eq_true upper
  have codes : ∀ n < 91, 65 ≤ n → n - 65 + 1 = n ^^^ 64 := by decide
  exact codes _ (Nat.lt_succ_of_le bounds.2) bounds.1

/-! ### One piece -/

/-- The inside of quotes, up to the text behind it. -/
theorem quotedBody_append {content : Text} (one_line : '\n' ∉ content) (rest : Text) :
    quotedBody (doubled content ++ rest) =
      (content ++ (quotedBody rest).1, (doubled content).length + (quotedBody rest).2.1,
        (quotedBody rest).2.2) := by
  induction content with
  | nil => rw [doubled, List.flatMap_nil, List.length_nil, Nat.zero_add]; rfl
  | cons c content induction =>
      have others := induction fun listed => one_line (List.mem_cons_of_mem c listed)
      by_cases quote : c = '\''
      · subst quote
        have spelled : doubled ('\'' :: content) = '\'' :: '\'' :: doubled content := rfl
        rw [spelled, List.cons_append, List.cons_append, quotedBody_doubled, others,
          List.length_cons, List.length_cons, List.cons_append]
        refine Prod.ext rfl (Prod.ext ?_ rfl)
        dsimp only
        omega
      · have spelled : doubled (c :: content) = c :: doubled content := by
          rw [doubled, List.flatMap_cons, if_neg quote]
          rfl
        have not_newline : c ≠ '\n' := fun same => one_line (same ▸ List.mem_cons_self)
        rw [spelled, List.cons_append, quotedBody_other _ not_newline quote, others,
          List.length_cons, List.cons_append]
        refine Prod.ext rfl (Prod.ext ?_ rfl)
        dsimp only
        omega

theorem quotedBody_open {rest : Text} (stops : rest = [] ∨ rest.head? = some '\n') :
    quotedBody rest = ([], 0, false) := by
  rcases stops with rfl | newline
  · rfl
  · obtain ⟨after, rfl⟩ := List.head?_eq_some_iff.mp newline
    rfl

theorem scanFragment_quote (opts : LangOptions) (rest : Text) :
    scanFragment opts ('\'' :: rest) = some (scanQuotedFragment ('\'' :: rest)) := rfl

section Turbo

variable {opts : LangOptions} (turbo : opts.turbo)

include turbo

theorem gluesFragment_iff (text : Text) : gluesFragment opts text = true ↔ Opens text := by
  have caret : caretLooksLikeControlChar text = true ↔
      ∃ letter rest, text = '^' :: letter :: rest ∧ letter.isAlpha := by
    constructor
    · intro looks
      match text, looks with
      | c :: letter :: rest, looks =>
          rw [caretLooksLikeControlChar, Bool.and_eq_true, beq_iff_eq] at looks
          exact ⟨letter, rest, congrArg (· :: letter :: rest) looks.1, looks.2⟩
      | [c], looks =>
          rw [caretLooksLikeControlChar, Bool.and_eq_true] at looks
          cases looks.2
      | [], looks => cases looks
    · rintro ⟨letter, rest, rfl, alpha⟩
      exact alpha
  rw [gluesFragment, turbo, Bool.true_and, Bool.or_eq_true, Bool.or_eq_true, beq_iff_eq, beq_iff_eq,
    caret, or_assoc]
  exact Iff.rfl

theorem scanFragment_code (hex : Bool) (text : Text) :
    scanFragment opts (Malformed.sign hex ++ text) =
      some (scanControlCodeFragment (Malformed.sign hex ++ text)) := by
  have begins : (Malformed.sign hex ++ text).head? = some '#' := by cases hex <;> rfl
  have code : opts.turbo && (Malformed.sign hex ++ text).head? == some '#' := by
    rw [turbo, begins]
    rfl
  have not_quote : ¬((Malformed.sign hex ++ text).head? == some '\'') := by
    rw [begins]
    exact Bool.false_ne_true
  rw [scanFragment, if_neg not_quote, if_pos code]

theorem scanFragment_caret {letter : Char} (rest : Text) (alpha : letter.isAlpha) :
    scanFragment opts ('^' :: letter :: rest) =
      some (scanCaretFragment ('^' :: letter :: rest)) := by
  have not_quote : ¬(('^' :: letter :: rest).head? == some '\'') := Bool.false_ne_true
  have not_code : ¬(opts.turbo && ('^' :: letter :: rest).head? == some '#') := by
    rw [turbo]
    exact Bool.false_ne_true
  have caret : opts.turbo && caretLooksLikeControlChar ('^' :: letter :: rest) := by
    rw [turbo]
    exact alpha
  rw [scanFragment, if_neg not_quote, if_neg not_code, if_pos caret]

omit turbo in
/-- Digits behind the sign of a code are not the sign of another one. -/
theorem head?_append_ne_dollar {digits : Text} (rest : Text) (digits_ne : digits ≠ [])
    (all_digits : ∀ c ∈ digits, c.isDigit) : (digits ++ rest).head? ≠ some '$' := by
  obtain ⟨c, others, rfl⟩ := List.exists_cons_of_ne_nil digits_ne
  intro dollar
  have digit := all_digits c List.mem_cons_self
  rw [Option.some.inj dollar] at digit
  exact absurd digit (by decide)

/-- A well-formed piece is scanned to its end as the characters it stands for. -/
theorem scanFragment_eq {piece : Piece} {rest : Text} (formed : piece.WellFormed)
    (ends : piece.EndsBefore rest) :
    scanFragment opts (piece.spelling ++ rest) =
      some { decoded := piece.decoded, width := piece.spelling.length } := by
  cases piece with
  | quoted content =>
      have body := quotedBody_append formed ('\'' :: rest)
      rw [quotedBody_close ends] at body
      have spelled : (Piece.quoted content).spelling ++ rest =
          '\'' :: (doubled content ++ '\'' :: rest) := by
        rw [Piece.spelling, List.cons_append, List.append_assoc]
        rfl
      rw [spelled, scanFragment_quote, scanQuotedFragment, List.drop_one, List.tail_cons, body]
      simp [Piece.decoded, Piece.spelling]
  | decimal digits =>
      obtain ⟨digits_ne, all_digits, small⟩ := formed
      have scanned := @scanControlCodeFragment_eq false digits rest all_digits ends
        fun _ => head?_append_ne_dollar rest digits_ne all_digits
      rw [if_neg digits_ne, Malformed.radix, if_neg Bool.false_ne_true, if_pos small] at scanned
      exact (scanFragment_code turbo false _).trans (congrArg some scanned)
  | hexadecimal digits =>
      obtain ⟨digits_ne, all_digits, small⟩ := formed
      have scanned := @scanControlCodeFragment_eq true digits rest all_digits ends
        fun decimal => Bool.noConfusion decimal
      rw [if_neg digits_ne, Malformed.radix, if_pos rfl, if_pos small] at scanned
      exact (scanFragment_code turbo true _).trans (congrArg some scanned)
  | control letter =>
      refine (scanFragment_caret turbo rest formed).trans (congrArg some ?_)
      rw [Piece.decoded, ← toUpper_xor formed]
      rfl

/-- A malformed piece is reported. -/
theorem scanFragment_malformed {bad : Malformed} {rest : Text} (stands : bad.StandsBefore rest) :
    scanFragment opts (bad.spelling ++ rest) =
      some { decoded := bad.kept, width := bad.spelling.length, failed := some bad.kind
             complaints := [bad.complaint] } := by
  cases bad with
  | noDigits hex =>
      have scanned := @scanControlCodeFragment_eq hex [] rest (fun _ listed => nomatch listed)
        stands.1 stands.2
      rw [if_pos rfl, List.append_nil, List.nil_append] at scanned
      exact (scanFragment_code turbo hex rest).trans (congrArg some scanned)
  | outOfRange hex digits =>
      obtain ⟨digits_ne, all_digits, ends, large⟩ := stands
      have scanned := @scanControlCodeFragment_eq hex digits rest all_digits ends fun decimal => by
        subst decimal
        exact head?_append_ne_dollar rest digits_ne all_digits
      rw [if_neg digits_ne, if_neg (not_le.mpr large)] at scanned
      rw [Malformed.spelling, List.append_assoc]
      exact (scanFragment_code turbo hex _).trans (congrArg some scanned)
  | unterminated content =>
      obtain ⟨one_line, stops⟩ := stands
      have body := quotedBody_append one_line rest
      rw [quotedBody_open stops] at body
      refine (scanFragment_quote opts _).trans (congrArg some ?_)
      change scanQuotedFragment ('\'' :: (doubled content ++ rest)) = _
      rw [scanQuotedFragment, List.drop_one, List.tail_cons, body]
      simp [Malformed.kept, Malformed.spelling, Malformed.kind, Malformed.complaint]

/-! ### A run of pieces -/

omit turbo in
theorem opens_piece {piece : Piece} (formed : piece.WellFormed) (rest : Text) :
    Opens (piece.spelling ++ rest) := by
  cases piece with
  | quoted content => exact .inl rfl
  | decimal digits => exact .inr (.inl rfl)
  | hexadecimal digits => exact .inr (.inl rfl)
  | control letter => exact .inr (.inr ⟨letter, rest, rfl, formed⟩)

omit turbo in
theorem malformed_eq_cons (bad : Malformed) :
    ∃ c others, bad.spelling = c :: others ∧ (c = '\'' ∨ c = '#') := by
  cases bad with
  | noDigits hex => cases hex <;> exact ⟨_, _, rfl, .inr rfl⟩
  | outOfRange hex digits => cases hex <;> exact ⟨_, _, rfl, .inr rfl⟩
  | unterminated content => exact ⟨_, _, rfl, .inl rfl⟩

omit turbo in
theorem opens_malformed (bad : Malformed) (rest : Text) : Opens (bad.spelling ++ rest) := by
  obtain ⟨c, others, spelled, quote | code⟩ := malformed_eq_cons bad
  · rw [spelled, quote]
    exact .inl rfl
  · rw [spelled, code]
    exact .inr (.inl rfl)

omit turbo in
theorem opens_glued {pieces : List Piece} {rest : Text} (glued : Glued pieces rest)
    (some_ : pieces ≠ [] ∨ Opens rest) : Opens (spelling pieces ++ rest) := by
  cases pieces with
  | nil => exact some_.resolve_left fun ne => ne rfl
  | cons piece pieces =>
      rw [spelling_cons, List.append_assoc]
      exact opens_piece glued.1 _

/-- A piece that another one follows is put in front of what is scanned from there. -/
theorem scanFragments_next {piece : Piece} {after : Text} {fuel : Nat}
    (formed : piece.WellFormed) (ends : piece.EndsBefore after) (opens : Opens after) :
    scanFragments opts (fuel + 1) (piece.spelling ++ after) =
      Fragment.glue { decoded := piece.decoded, width := piece.spelling.length }
        (scanFragments opts fuel after) := by
  rw [scanFragments, scanFragment_eq turbo formed ends]
  simp only [List.drop_left, (gluesFragment_iff turbo after).mpr opens, if_true]

/-- The last piece ends the constant. -/
theorem scanFragments_last {piece : Piece} {rest : Text} {fuel : Nat}
    (formed : piece.WellFormed) (ends : piece.EndsBefore rest) (closed : ¬Opens rest) :
    scanFragments opts (fuel + 1) (piece.spelling ++ rest) =
      ⟨.StringLit, piece.decoded, piece.spelling.length, []⟩ := by
  have not_glued : gluesFragment opts rest = false :=
    Bool.eq_false_iff.mpr (mt (gluesFragment_iff turbo rest).mp closed)
  rw [scanFragments, scanFragment_eq turbo formed ends]
  simp only [List.drop_left, not_glued, Bool.false_eq_true, if_false]

theorem scanFragments_malformed {bad : Malformed} {rest : Text} {fuel : Nat}
    (stands : bad.StandsBefore rest) :
    scanFragments opts (fuel + 1) (bad.spelling ++ rest) =
      ⟨bad.kind, bad.kept, bad.spelling.length, [bad.complaint]⟩ := by
  rw [scanFragments, scanFragment_malformed turbo stands]

/-- Pieces are decoded one after the other, up to the last one. -/
theorem scanFragments_pieces {pieces : List Piece} {rest : Text} {fuel : Nat}
    (pieces_ne : pieces ≠ []) (enough : pieces.length ≤ fuel) (glued : Glued pieces rest)
    (closed : ¬Opens rest) :
    scanFragments opts fuel (spelling pieces ++ rest) =
      ⟨.StringLit, decoded pieces, (spelling pieces).length, []⟩ := by
  induction pieces generalizing fuel with
  | nil => exact absurd rfl pieces_ne
  | cons piece pieces induction =>
      obtain ⟨fuel, rfl⟩ : ∃ k, fuel = k + 1 := Nat.exists_eq_add_one.mpr (Nat.zero_lt_of_lt enough)
      obtain ⟨formed, ends, others⟩ := glued
      cases pieces with
      | nil =>
          have last := @scanFragments_last opts turbo piece rest fuel formed ends closed
          simpa only [spelling, decoded, List.flatMap_cons, List.flatMap_nil, List.append_nil]
            using last
      | cons next pieces =>
          have opens := opens_glued others (.inl (List.cons_ne_nil next pieces))
          have behind := induction (List.cons_ne_nil next pieces) (Nat.le_of_succ_le_succ enough)
            others
          have step := @scanFragments_next opts turbo piece _ fuel formed ends opens
          rw [behind] at step
          rw [spelling_cons, List.append_assoc]
          refine step.trans ?_
          rw [Fragment.glue, List.length_append]
          rfl

/-- A malformed piece behind others is reported at its place. -/
theorem scanFragments_reports {pieces : List Piece} {bad : Malformed} {rest : Text} {fuel : Nat}
    (enough : pieces.length < fuel) (glued : Glued pieces (bad.spelling ++ rest))
    (stands : bad.StandsBefore rest) :
    scanFragments opts fuel (spelling pieces ++ (bad.spelling ++ rest)) =
      ⟨bad.kind, decoded pieces ++ bad.kept, (spelling pieces).length + bad.spelling.length,
        [{ bad.complaint with offset := (spelling pieces).length + bad.complaint.offset }]⟩ := by
  induction pieces generalizing fuel with
  | nil =>
      obtain ⟨fuel, rfl⟩ : ∃ k, fuel = k + 1 := Nat.exists_eq_add_one.mpr enough
      have reported := @scanFragments_malformed opts turbo bad rest fuel stands
      simpa only [spelling, decoded, List.flatMap_nil, List.nil_append, List.length_nil,
        Nat.zero_add] using reported
  | cons piece pieces induction =>
      obtain ⟨fuel, rfl⟩ : ∃ k, fuel = k + 1 := Nat.exists_eq_add_one.mpr (Nat.zero_lt_of_lt enough)
      obtain ⟨formed, ends, others⟩ := glued
      have opens := opens_glued others (.inr (opens_malformed bad rest))
      have step := @scanFragments_next opts turbo piece _ fuel formed ends opens
      rw [induction (Nat.lt_of_succ_lt_succ enough) others] at step
      rw [spelling_cons, List.append_assoc]
      refine step.trans ?_
      simp only [Fragment.glue, decoded_cons, List.append_assoc, List.length_append, Nat.add_assoc,
        List.map_cons, List.map_nil]

omit turbo in
theorem length_le_spelling (pieces : List Piece) : pieces.length ≤ (spelling pieces).length := by
  induction pieces with
  | nil => exact Nat.le_refl 0
  | cons piece pieces induction =>
      have some_ : 1 ≤ piece.spelling.length := by
        cases piece <;> exact Nat.succ_le_succ (Nat.zero_le _)
      rw [spelling_cons, List.length_append, List.length_cons]
      exact (Nat.add_comm 1 _) ▸ Nat.add_le_add some_ induction

/-- A piece begins a constant, as long as an expression may begin where its first piece is a control
character. -/
theorem scanToken_opens {exprStart : Bool} {text : Text} (opens : Opens text)
    (caret : text.head? = some '^' → exprStart) :
    scanToken opts exprStart text = scanString opts text := by
  rcases opens with quote | code | ⟨letter, rest, rfl, alpha⟩
  · obtain ⟨rest, rfl⟩ := List.head?_eq_some_iff.mp quote
    rfl
  · obtain ⟨rest, rfl⟩ := List.head?_eq_some_iff.mp code
    rw [scanToken, if_neg (by decide), if_neg (by decide), if_neg (by decide),
      if_pos (by rw [turbo]; rfl)]
  · have looks : (opts.turbo && caretLooksLikeControlChar ('^' :: letter :: rest) && exprStart) =
        true := by
      rw [turbo, caret rfl]
      exact (Bool.and_true _).trans alpha
    have other (c : Char) (differs : ('^' == c) = false) : ¬(opts.turbo && '^' == c) := by
      rw [differs, Bool.and_false]
      exact Bool.false_ne_true
    rw [scanToken, if_neg (by decide), if_neg (by decide), if_neg (by decide),
      if_neg (other '#' (by decide)), if_neg (other '$' (by decide)), if_pos looks]

end Turbo

theorem caret_of_append {front back : Text} (first : (front ++ back).head? = some '^')
    (other : front ≠ [] ∨ back.head? ≠ some '^') : front.head? = some '^' := by
  cases front with
  | nil => exact absurd first (other.resolve_left fun ne => ne rfl)
  | cons c others => exact first

/-- A run of pieces is one string literal, and a malformed piece behind any of them is reported at
its place. -/
theorem scanToken_constants {opts : LangOptions} (turbo : opts.turbo) {exprStart : Bool}
    {pieces : List Piece} (caret : (spelling pieces).head? = some '^' → exprStart) (rest : Text) :
    (pieces ≠ [] → Glued pieces rest → ¬Opens rest →
      scanToken opts exprStart (spelling pieces ++ rest) =
        ⟨.StringLit, decoded pieces, (spelling pieces).length, []⟩) ∧
    ∀ bad : Malformed, Glued pieces (bad.spelling ++ rest) → bad.StandsBefore rest →
      scanToken opts exprStart (spelling pieces ++ (bad.spelling ++ rest)) =
        ⟨bad.kind, decoded pieces ++ bad.kept, (spelling pieces).length + bad.spelling.length,
          [{ bad.complaint with offset := (spelling pieces).length + bad.complaint.offset }]⟩ := by
  have length_le := length_le_spelling pieces
  constructor
  · intro pieces_ne glued closed
    have spelled_ne : spelling pieces ≠ [] := by
      intro nothing
      rw [nothing] at length_le
      exact pieces_ne (List.length_eq_zero_iff.mp (Nat.le_zero.mp length_le))
    rw [scanToken_opens turbo (opens_glued glued (.inl pieces_ne))
      fun first => caret (caret_of_append first (.inl spelled_ne))]
    apply scanFragments_pieces turbo pieces_ne _ glued closed
    rw [List.length_append]
    omega
  · intro bad glued stands
    obtain ⟨c, others, spelled, begins⟩ := malformed_eq_cons bad
    have other : (bad.spelling ++ rest).head? ≠ some '^' := by
      rw [spelled]
      intro same
      rw [Option.some.inj same] at begins
      exact absurd begins (by decide)
    rw [scanToken_opens turbo (opens_glued glued (.inr (opens_malformed bad rest)))
      fun first => caret (caret_of_append first (.inr other))]
    apply scanFragments_reports turbo _ glued stands
    rw [List.length_append, spelled, List.cons_append, List.length_cons]
    omega

/-! ### The scanner's turn -/

/-- The scanner takes a `^` and a letter for a control character here: the last token is one that
only an expression follows, or the parser has said that an expression follows. -/
def ControlPlace (s : Scanner) : Prop := startsExpression s.prevKind || s.forceExprStartOnce

instance (s : Scanner) : Decidable (ControlPlace s) :=
  inferInstanceAs (Decidable ((startsExpression s.prevKind || s.forceExprStartOnce) = true))

/-- The scanner's turn returns what has been scanned, a token in error excepted, steps over it and
adds its complaints to the diagnostics. -/
structure Returns (fs : FileSystem) (s : Scanner) (scanned : Scanned) : Prop where
  token : (s.step fs).2 =
    if scanned.kind = .Error then none
    else some ⟨scanned.kind, scanned.lexeme, s.locAt s.pos⟩
  pos : (s.step fs).1.pos = s.pos + scanned.width
  diags : (s.step fs).1.diags = s.diags ++ scanned.complaints.map fun complaint =>
    ⟨s.locAt (s.pos + complaint.offset), complaint.id, complaint.args⟩

theorem trivia_of_opens (opts : LangOptions) {text : Text} (opens : Opens text) :
    ∃ c rest, text = c :: rest ∧ isspace c = false ∧ Scanner.trivia opts text = none := by
  rcases opens with quote | code | ⟨letter, rest, rfl, -⟩
  · obtain ⟨rest, rfl⟩ := List.head?_eq_some_iff.mp quote
    exact ⟨'\'', rest, rfl, by decide, by simp [Scanner.trivia]⟩
  · obtain ⟨rest, rfl⟩ := List.head?_eq_some_iff.mp code
    exact ⟨'#', rest, rfl, by decide, by simp [Scanner.trivia]⟩
  · exact ⟨'^', letter :: rest, rfl, by decide, by simp [Scanner.trivia]⟩

/-- In a live branch a text that begins with a piece is scanned as a token. -/
theorem returns_of_opens (fs : FileSystem) {s : Scanner} {scanned : Scanned}
    (live : s.skipDepth = none) (opens : Opens s.rest)
    (eq : scanToken s.opts (startsExpression s.prevKind || s.forceExprStartOnce) s.rest =
      scanned) : Returns fs s scanned := by
  obtain ⟨c, rest, text, space, trivia⟩ := trivia_of_opens s.opts opens
  have stepped : s.step fs = s.returnToken := by
    rw [text] at trivia
    simp only [Scanner.step, live, text, space, trivia, Bool.false_eq_true, if_false]
  rw [Scanner.returnToken, eq] at stepped
  by_cases failed : scanned.kind = .Error
  · rw [if_pos failed] at stepped
    exact ⟨by rw [stepped, if_pos failed], by rw [stepped]; rfl, by rw [stepped]; rfl⟩
  · rw [if_neg failed] at stepped
    exact ⟨by rw [stepped, if_neg failed], by rw [stepped]; rfl, by rw [stepped]; rfl⟩

/-- Where the scanner takes no control character, a `^` is a token of its own. -/
theorem scanToken_caret {opts : LangOptions} {letter : Char} {rest : Text} :
    scanToken opts false ('^' :: letter :: rest) = ⟨.Caret, ['^'], 1, []⟩ := by
  have other (c : Char) (differs : ('^' == c) = false) : ¬(opts.turbo && '^' == c) := by
    rw [differs, Bool.and_false]
    exact Bool.false_ne_true
  rw [scanToken, if_neg (by decide), if_neg (by decide), if_neg (by decide),
    if_neg (other '#' (by decide)), if_neg (other '$' (by decide)),
    if_neg (by rw [Bool.and_false]; exact Bool.false_ne_true)]
  rfl

/-- A run of pieces begins with `^` only where its first piece is a control character. -/
theorem spelling_eq_caret {pieces : List Piece} {rest : Text} (glued : Glued pieces rest)
    (first : (spelling pieces).head? = some '^') :
    ∃ letter others, spelling pieces = '^' :: letter :: others ∧ letter.isAlpha := by
  cases pieces with
  | nil => cases first
  | cons piece pieces =>
      cases piece with
      | quoted content => cases first
      | decimal digits => cases first
      | hexadecimal digits => cases first
      | control letter => exact ⟨letter, spelling pieces, rfl, glued.1⟩

/-- A scanner in Turbo Pascal at the beginning of a text, behind a token. -/
def behind (prevKind : TokenKind) (text : String) : Scanner :=
  { opts := { std := .Turbo }, sm := .empty, text := text.toList, prevKind }

end Plang.StringConstants
