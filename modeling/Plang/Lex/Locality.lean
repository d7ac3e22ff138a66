import Plang.Lex.Next

/-!
# What follows a token does not matter

A token takes at least one character and no more than there are.  In Turbo Pascal it is the same
whatever text comes after it, as long as that text begins with a line break or with the opening of
a comment; a string literal that is not closed needs a line break.
-/

namespace Plang

/-- The text is empty or begins with a character that no token but a string goes on with. -/
def StopsToken (text : Text) : Prop := ∀ c ∈ text.head?, c = '\n' ∨ c = '{' ∨ c = '('

/-- The text is empty or begins with a line break. -/
def EndsLine (text : Text) : Prop := ∀ c ∈ text.head?, c = '\n'

theorem EndsLine.stopsToken {text : Text} (ends : EndsLine text) : StopsToken text :=
  fun c member => .inl (ends c member)

theorem stopsToken_nil : StopsToken [] := fun _ member => by cases member

theorem endsLine_nil : EndsLine [] := fun _ member => by cases member

theorem endsLine_cons (rest : Text) : EndsLine ('\n' :: rest) := fun _ member => by
  simpa using member.symm

theorem stopsToken_opener (braced : Bool) (rest : Text) : StopsToken (opener braced ++ rest) := by
  intro c member
  cases braced <;> simp [opener] at member <;> simp [← member]

theorem StopsToken.head_ne {text : Text} (stops : StopsToken text) {c : Char}
    (c_ne : c ≠ '\n' ∧ c ≠ '{' ∧ c ≠ '(') : text.head? ≠ some c := by
  intro head_eq
  rcases stops c head_eq with rfl | rfl | rfl <;> simp at c_ne

section Append

variable {u x : Text}

theorem head?_append_iff (stops : StopsToken x) {c : Char}
    (c_ne : c ≠ '\n' ∧ c ≠ '{' ∧ c ≠ '(') : (u ++ x).head? = some c ↔ u.head? = some c := by
  cases u with
  | nil => simpa using stops.head_ne c_ne
  | cons first u => rfl

theorem head?_append_beq (stops : StopsToken x) {c : Char}
    (c_ne : c ≠ '\n' ∧ c ≠ '{' ∧ c ≠ '(') :
    ((u ++ x).head? == some c) = (u.head? == some c) := by
  rw [Bool.eq_iff_iff, beq_iff_eq, beq_iff_eq]
  exact head?_append_iff stops c_ne

theorem takeWhile_append_of_stops (stops : StopsToken x) {p : Char → Bool}
    (p_stops : p '\n' = false ∧ p '{' = false ∧ p '(' = false) :
    (u ++ x).takeWhile p = u.takeWhile p := by
  induction u with
  | nil =>
      cases x with
      | nil => rfl
      | cons c x =>
          rcases stops c rfl with rfl | rfl | rfl <;> simp [p_stops]
  | cons c u induction => simp only [List.cons_append, List.takeWhile_cons, induction]

theorem drop_length_takeWhile_append (p : Char → Bool) :
    (u ++ x).drop (u.takeWhile p).length = u.drop (u.takeWhile p).length ++ x :=
  List.drop_append_of_le_length (List.takeWhile_prefix p).length_le

theorem head?_drop_one_append_iff (stops : StopsToken x) (u_ne : u ≠ []) {c : Char}
    (c_ne : c ≠ '\n' ∧ c ≠ '{' ∧ c ≠ '(') :
    ((u ++ x).drop 1).head? = some c ↔ (u.drop 1).head? = some c := by
  obtain ⟨first, u, rfl⟩ := List.exists_cons_of_ne_nil u_ne
  exact head?_append_iff stops c_ne

/-- The two characters `(*` and what stands behind them. -/
private theorem opens_append (stops : StopsToken x) :
    (u ++ x).head? = some '*' ∧ ((u ++ x).drop 1).head? = some '$' ↔
      u.head? = some '*' ∧ (u.drop 1).head? = some '$' := by
  rw [head?_append_iff stops (by decide)]
  refine and_congr_right fun star => ?_
  have u_ne : u ≠ [] := by
    rintro rfl
    cases star
  exact head?_drop_one_append_iff stops u_ne (by decide)

theorem directiveOpener_append (u_ne : u ≠ []) (stops : StopsToken x) :
    directiveOpener (u ++ x) = directiveOpener u := by
  obtain ⟨c, u, rfl⟩ := List.exists_cons_of_ne_nil u_ne
  simp only [List.cons_append, directiveOpener, opens_append stops,
    head?_append_iff stops (show '$' ≠ '\n' ∧ '$' ≠ '{' ∧ '$' ≠ '(' by decide)]

theorem trivia_append (opts : LangOptions) (u_ne : u ≠ []) (stops : StopsToken x) :
    Scanner.trivia opts (u ++ x) = Scanner.trivia opts u := by
  obtain ⟨c, u, rfl⟩ := List.exists_cons_of_ne_nil u_ne
  simp only [List.cons_append, Scanner.trivia, head?_append_beq stops
    (show '$' ≠ '\n' ∧ '$' ≠ '{' ∧ '$' ≠ '(' by decide), head?_append_beq stops
    (show '/' ≠ '\n' ∧ '/' ≠ '{' ∧ '/' ≠ '(' by decide), head?_append_iff stops
    (show '*' ≠ '\n' ∧ '*' ≠ '{' ∧ '*' ≠ '(' by decide)]
  by_cases star : u.head? = some '*'
  · have u_ne : u ≠ [] := by
      rintro rfl
      cases star
    have same := head?_drop_one_append_iff (c := '$') stops u_ne (by decide)
    have same_beq : (((u ++ x).drop 1).head? == some '$') = ((u.drop 1).head? == some '$') := by
      rw [Bool.eq_iff_iff, beq_iff_eq, beq_iff_eq]
      exact same
    simp only [same_beq]
  · simp [star]

theorem symbolToken_congr (opts : LangOptions) (c : Char) {next other : Option Char}
    (same : ∀ k, k = '*' ∨ k = '>' ∨ k = '=' ∨ k = '<' ∨ k = '.' ∨ k = ')' →
      (next = some k ↔ other = some k)) :
    symbolToken opts c next = symbolToken opts c other := by
  unfold symbolToken
  split <;> simp [same]

theorem scanSymbol_append (opts : LangOptions) (u_ne : u ≠ []) (stops : StopsToken x) :
    scanSymbol opts (u ++ x) = scanSymbol opts u := by
  obtain ⟨c, u, rfl⟩ := List.exists_cons_of_ne_nil u_ne
  refine symbolToken_congr opts c fun k special => head?_append_iff stops ?_
  rcases special with rfl | rfl | rfl | rfl | rfl | rfl <;> decide

theorem scanIdentifierOrKeyword_append (opts : LangOptions) (stops : StopsToken x) :
    scanIdentifierOrKeyword opts (u ++ x) = scanIdentifierOrKeyword opts u := by
  unfold scanIdentifierOrKeyword
  rw [takeWhile_append_of_stops stops (by decide)]

theorem fractionPart_append (stops : StopsToken x) :
    fractionPart (u ++ x) = fractionPart u := by
  cases u with
  | nil =>
      cases x with
      | nil => rfl
      | cons c x => rcases stops c rfl with rfl | rfl | rfl <;> simp [fractionPart]
  | cons c u =>
      simp only [List.cons_append, fractionPart]
      rw [takeWhile_append_of_stops stops (by decide)]

theorem signPart_append (stops : StopsToken x) : signPart (u ++ x) = signPart u := by
  cases u with
  | nil =>
      cases x with
      | nil => rfl
      | cons c x => rcases stops c rfl with rfl | rfl | rfl <;> simp [signPart]
  | cons c u => rfl

theorem signPart_starts (text : Text) : signPart text <+: text := by
  cases text with
  | nil => exact List.nil_prefix
  | cons c rest =>
      simp only [signPart]
      split
      · exact ⟨rest, rfl⟩
      · exact List.nil_prefix

theorem exponentPart_append (stops : StopsToken x) :
    exponentPart (u ++ x) = exponentPart u := by
  cases u with
  | nil =>
      cases x with
      | nil => rfl
      | cons c x => rcases stops c rfl with rfl | rfl | rfl <;> simp [exponentPart]
  | cons c u =>
      simp only [List.cons_append, exponentPart, signPart_append stops]
      rw [List.drop_append_of_le_length (signPart_starts u).length_le,
        takeWhile_append_of_stops stops (by decide)]

theorem fractionPart_starts (text : Text) : fractionPart text <+: text := by
  cases text with
  | nil => exact List.nil_prefix
  | cons c rest =>
      unfold fractionPart
      simp only
      split
      · exact List.cons_prefix_cons.mpr ⟨rfl, List.takeWhile_prefix _⟩
      · exact List.nil_prefix

theorem exponentPart_starts (text : Text) : exponentPart text <+: text := by
  cases text with
  | nil => exact List.nil_prefix
  | cons c rest =>
      unfold exponentPart
      simp only
      split
      · refine List.cons_prefix_cons.mpr ⟨rfl, ?_⟩
        have sign := List.prefix_iff_eq_append.mp (signPart_starts rest)
        have digits := List.takeWhile_prefix (l := rest.drop (signPart rest).length) Char.isDigit
        have both := (List.prefix_append_right_inj (signPart rest)).mpr digits
        rwa [sign] at both
      · exact List.nil_prefix

theorem scanNumber_append {opts : LangOptions} (turbo : opts.turbo) (stops : StopsToken x) :
    scanNumber opts (u ++ x) = scanNumber opts u := by
  have not_extended : opts.extendedPascal = false := by
    simp only [LangOptions.turbo, LangOptions.extendedPascal, beq_iff_eq] at turbo ⊢
    rw [turbo]
    rfl
  simp only [scanNumber, not_extended, Bool.false_and, Bool.false_eq_true, if_false]
  rw [takeWhile_append_of_stops stops (by decide), drop_length_takeWhile_append,
    fractionPart_append stops, List.drop_append_of_le_length (fractionPart_starts _).length_le,
    exponentPart_append stops]

theorem scanHexLiteral_append (u_ne : u ≠ []) (stops : StopsToken x) :
    scanHexLiteral (u ++ x) = scanHexLiteral u := by
  obtain ⟨c, u, rfl⟩ := List.exists_cons_of_ne_nil u_ne
  simp only [scanHexLiteral, List.cons_append, List.drop_one, List.tail_cons]
  rw [takeWhile_append_of_stops stops (by decide)]

theorem caretLooksLikeControlChar_append (stops : StopsToken x) :
    caretLooksLikeControlChar (u ++ x) = caretLooksLikeControlChar u := by
  cases u with
  | nil =>
      cases x with
      | nil => rfl
      | cons c x =>
          rcases stops c rfl with rfl | rfl | rfl <;> simp [caretLooksLikeControlChar]
  | cons c u =>
      simp only [List.cons_append, caretLooksLikeControlChar]
      cases u with
      | nil =>
          cases x with
          | nil => rfl
          | cons d x => rcases stops d rfl with rfl | rfl | rfl <;> simp
      | cons d u => rfl

/-- A quoted piece that ends within `u` ends there whatever follows. -/
theorem quotedBody_append {y : Text} (stops : StopsToken x) (ends : EndsLine y)
    (within : (quotedBody (u ++ x)).2.1 ≤ u.length) :
    quotedBody (u ++ y) = quotedBody (u ++ x) := by
  fun_induction quotedBody u with
  | case1 =>
      have y_empty : quotedBody y = ([], 0, false) := by
        cases y with
        | nil => rfl
        | cons c y =>
            obtain rfl := ends c rfl
            rfl
      cases x with
      | nil => exact y_empty
      | cons c x =>
          rcases stops c rfl with rfl | rfl | rfl
          · exact y_empty
          · simp [quotedBody] at within
          · simp [quotedBody] at within
  | case2 => rfl
  | case3 rest decoded width closed eq induction =>
      simp only [List.cons_append, quotedBody_doubled, List.length_cons] at within ⊢
      rw [induction (by omega)]
  | case4 rest not_doubled =>
      have single {z : Text} (stops : StopsToken z) : (rest ++ z).head? ≠ some '\'' := by
        rw [ne_eq, head?_append_iff stops (by decide)]
        intro doubled
        obtain ⟨tail, rfl⟩ := List.head?_eq_some_iff.mp doubled
        exact not_doubled tail rfl
      simp only [List.cons_append]
      rw [quotedBody_close (single stops), quotedBody_close (single ends.stopsToken)]
  | case5 c rest not_newline not_doubled not_quote decoded width closed eq induction =>
      simp only [List.cons_append, quotedBody_other _ not_newline not_quote, List.length_cons]
        at within ⊢
      rw [induction (by omega)]

theorem quotedBody_width_le (text : Text) : (quotedBody text).2.1 ≤ text.length := by
  fun_induction quotedBody text with
  | case1 => exact le_rfl
  | case2 => exact Nat.zero_le _
  | case3 rest decoded width closed eq induction =>
      simp only [eq, List.length_cons] at induction ⊢
      omega
  | case4 rest _ => simp
  | case5 c rest _ _ _ decoded width closed eq induction =>
      simp only [eq, List.length_cons] at induction ⊢
      omega

theorem scanQuotedFragment_append {y : Text} (u_ne : u ≠ []) (stops : StopsToken x)
    (ends : EndsLine y) (within : (scanQuotedFragment (u ++ x)).width ≤ u.length) :
    scanQuotedFragment (u ++ y) = scanQuotedFragment (u ++ x) := by
  obtain ⟨c, u, rfl⟩ := List.exists_cons_of_ne_nil u_ne
  rw [scanQuotedFragment_width] at within
  have body_within : (quotedBody (u ++ x)).2.1 ≤ u.length := Nat.le_of_succ_le_succ within
  simp only [scanQuotedFragment, List.cons_append, List.drop_one, List.tail_cons]
  rw [quotedBody_append stops ends body_within]

theorem scanControlCodeFragment_append (u_ne : u ≠ []) (stops : StopsToken x) :
    scanControlCodeFragment (u ++ x) = scanControlCodeFragment u := by
  obtain ⟨c, u, rfl⟩ := List.exists_cons_of_ne_nil u_ne
  simp only [scanControlCodeFragment, List.cons_append, List.drop_one, List.tail_cons,
    head?_append_beq stops (show '$' ≠ '\n' ∧ '$' ≠ '{' ∧ '$' ≠ '(' by decide)]
  by_cases hex : u.head? = some '$'
  · obtain ⟨tail, rfl⟩ := List.head?_eq_some_iff.mp hex
    simp [takeWhile_append_of_stops stops (show isxdigit '\n' = false ∧ isxdigit '{' = false ∧
      isxdigit '(' = false by decide)]
  · simp [hex, takeWhile_append_of_stops stops (show Char.isDigit '\n' = false ∧
      Char.isDigit '{' = false ∧ Char.isDigit '(' = false by decide)]

theorem scanCaretFragment_append (looks : caretLooksLikeControlChar u = true) :
    scanCaretFragment (u ++ x) = scanCaretFragment u := by
  cases u with
  | nil => cases looks
  | cons c u =>
      cases u with
      | nil => simp [caretLooksLikeControlChar] at looks
      | cons d u => rfl

/-- A piece of a string literal that ends within `u` is the same whatever follows. -/
theorem scanFragment_append {opts : LangOptions} {y : Text} (u_ne : u ≠ []) (stops : StopsToken x)
    (ends : EndsLine y)
    (within : ∀ fragment ∈ scanFragment opts (u ++ x), fragment.width ≤ u.length) :
    scanFragment opts (u ++ y) = scanFragment opts (u ++ x) := by
  unfold scanFragment at within ⊢
  simp only [head?_append_beq stops (show '\'' ≠ '\n' ∧ '\'' ≠ '{' ∧ '\'' ≠ '(' by decide),
    head?_append_beq stops (show '#' ≠ '\n' ∧ '#' ≠ '{' ∧ '#' ≠ '(' by decide),
    head?_append_beq ends.stopsToken (show '\'' ≠ '\n' ∧ '\'' ≠ '{' ∧ '\'' ≠ '(' by decide),
    head?_append_beq ends.stopsToken (show '#' ≠ '\n' ∧ '#' ≠ '{' ∧ '#' ≠ '(' by decide),
    caretLooksLikeControlChar_append stops, caretLooksLikeControlChar_append ends.stopsToken]
    at within ⊢
  split
  case isTrue quote =>
    rw [if_pos quote] at within
    rw [scanQuotedFragment_append u_ne stops ends (within _ rfl)]
  case isFalse =>
    split
    case isTrue =>
      rw [scanControlCodeFragment_append u_ne stops,
        scanControlCodeFragment_append u_ne ends.stopsToken]
    case isFalse =>
      split
      case isTrue caret =>
        have looks : caretLooksLikeControlChar u = true := (Bool.and_eq_true _ _ ▸ caret).2
        rw [scanCaretFragment_append looks, scanCaretFragment_append looks]
      case isFalse => rfl

theorem gluesFragment_append (opts : LangOptions) (stops : StopsToken x) :
    gluesFragment opts (u ++ x) = gluesFragment opts u := by
  simp only [gluesFragment, caretLooksLikeControlChar_append stops,
    head?_append_beq stops (show '\'' ≠ '\n' ∧ '\'' ≠ '{' ∧ '\'' ≠ '(' by decide),
    head?_append_beq stops (show '#' ≠ '\n' ∧ '#' ≠ '{' ∧ '#' ≠ '(' by decide)]

end Append

theorem scanFragment_width_pos {opts : LangOptions} {text : Text} {fragment : Fragment}
    (scanned : scanFragment opts text = some fragment) : 0 < fragment.width := by
  unfold scanFragment at scanned
  split_ifs at scanned <;> obtain rfl := Option.some.inj scanned
  · rw [scanQuotedFragment_width]
    omega
  · rw [scanControlCodeFragment_width]
    split <;> omega
  · rw [scanCaretFragment_width]
    omega

theorem takeWhile_length_le (p : Char → Bool) (text : Text) :
    (text.takeWhile p).length ≤ text.length :=
  (List.takeWhile_prefix p).length_le

theorem scanFragment_width_le {opts : LangOptions} {text : Text} {fragment : Fragment}
    (scanned : scanFragment opts text = some fragment) : fragment.width ≤ text.length := by
  cases text with
  | nil =>
      simp [scanFragment, caretLooksLikeControlChar] at scanned
  | cons c rest =>
      unfold scanFragment at scanned
      split_ifs at scanned with quote code caret <;> obtain rfl := Option.some.inj scanned
      · rw [scanQuotedFragment_width]
        exact Nat.succ_le_succ (quotedBody_width_le rest)
      · rw [scanControlCodeFragment_width]
        split
        case isTrue hex =>
          obtain ⟨tail, rest_eq⟩ := List.head?_eq_some_iff.mp hex
          change rest = '$' :: tail at rest_eq
          subst rest_eq
          have digits := takeWhile_length_le isxdigit tail
          simp only [List.length_cons, List.drop_succ_cons, List.drop_zero]
          omega
        case isFalse =>
          have digits := takeWhile_length_le Char.isDigit rest
          simp only [List.length_cons, List.drop_succ_cons, List.drop_zero]
          omega
      · rw [scanCaretFragment_width]
        cases rest with
        | nil => simp [caretLooksLikeControlChar] at caret
        | cons d rest => simp

theorem scanFragments_width_le (opts : LangOptions) (fuel : Nat) (text : Text) :
    (scanFragments opts fuel text).width ≤ text.length := by
  induction fuel generalizing text with
  | zero => exact Nat.zero_le _
  | succ fuel induction =>
      unfold scanFragments
      split
      case h_1 => exact Nat.zero_le _
      case h_2 fragment scanned =>
        have width_le := scanFragment_width_le scanned
        split
        · exact width_le
        · simp only
          split
          · have rest_le := induction (text.drop fragment.width)
            rw [List.length_drop] at rest_le
            simp only [Fragment.glue]
            omega
          · exact width_le

theorem scanFragments_width_pos {opts : LangOptions} {fuel : Nat} {text : Text}
    {fragment : Fragment} (scanned : scanFragment opts text = some fragment) :
    fragment.width ≤ (scanFragments opts (fuel + 1) text).width := by
  unfold scanFragments
  rw [scanned]
  simp only
  split
  · exact le_rfl
  · split
    · exact Nat.le_add_right _ _
    · exact le_rfl

/-- A string literal that ends within `u` is the same whatever follows. -/
theorem scanFragments_append {opts : LangOptions} {fuel other : Nat} {u x y : Text}
    (u_ne : u ≠ []) (stops : StopsToken x) (ends : EndsLine y)
    (enough : (u ++ x).length ≤ fuel) (enough' : (u ++ y).length ≤ other)
    (within : (scanFragments opts fuel (u ++ x)).width ≤ u.length) :
    scanFragments opts other (u ++ y) = scanFragments opts fuel (u ++ x) := by
  induction fuel generalizing other u with
  | zero => simp_all
  | succ fuel induction =>
      have fragment_within :
          ∀ fragment ∈ scanFragment opts (u ++ x), fragment.width ≤ u.length :=
        fun fragment scanned => (scanFragments_width_pos scanned).trans within
      have same := scanFragment_append u_ne stops ends fragment_within
      obtain ⟨other, rfl⟩ : ∃ less, other = less + 1 := by
        refine ⟨other - 1, ?_⟩
        have := List.length_pos_of_ne_nil u_ne
        rw [List.length_append] at enough'
        omega
      unfold scanFragments at within ⊢
      rw [same]
      cases scanned : scanFragment opts (u ++ x) with
      | none => rfl
      | some fragment =>
          have width_pos := scanFragment_width_pos scanned
          have width_le := fragment_within fragment scanned
          simp only [scanned] at within ⊢
          cases failed : fragment.failed with
          | some kind => rfl
          | none =>
              simp only [failed, List.drop_append_of_le_length width_le,
                gluesFragment_append opts stops, gluesFragment_append opts ends.stopsToken]
                at within ⊢
              split
              case isFalse => rfl
              case isTrue glues =>
                rw [if_pos glues] at within
                have rest_ne : u.drop fragment.width ≠ [] := by
                  intro rest_nil
                  rw [rest_nil] at glues
                  simp [gluesFragment, caretLooksLikeControlChar] at glues
                simp only [Fragment.glue] at within
                have rest_length : (u.drop fragment.width).length = u.length - fragment.width :=
                  List.length_drop
                have rest_same : scanFragments opts other (u.drop fragment.width ++ y) =
                    scanFragments opts fuel (u.drop fragment.width ++ x) := by
                  refine induction rest_ne ?_ ?_ ?_
                  · simp only [List.length_append] at enough ⊢
                    omega
                  · simp only [List.length_append] at enough' ⊢
                    omega
                  · omega
                rw [rest_same]

/-- A Turbo token that ends within `u` is the same whatever follows. -/
theorem scanToken_append {opts : LangOptions} (turbo : opts.turbo) (exprStart : Bool)
    {u x y : Text} (u_ne : u ≠ []) (stops : StopsToken x) (ends : EndsLine y)
    (within : (scanToken opts exprStart (u ++ x)).width ≤ u.length) :
    scanToken opts exprStart (u ++ y) = scanToken opts exprStart (u ++ x) := by
  have string_same (within : (scanString opts (u ++ x)).width ≤ u.length) :
      scanString opts (u ++ y) = scanString opts (u ++ x) :=
    scanFragments_append u_ne stops ends le_rfl le_rfl within
  have caret_same : caretLooksLikeControlChar (u ++ y) = caretLooksLikeControlChar (u ++ x) := by
    rw [caretLooksLikeControlChar_append stops, caretLooksLikeControlChar_append ends.stopsToken]
  obtain ⟨c, u, rfl⟩ := List.exists_cons_of_ne_nil u_ne
  unfold scanToken at within ⊢
  simp only [List.cons_append] at *
  rw [caret_same]
  split_ifs at within ⊢
  · rw [← List.cons_append, ← List.cons_append, scanIdentifierOrKeyword_append opts stops,
      scanIdentifierOrKeyword_append opts ends.stopsToken]
  · rw [← List.cons_append, ← List.cons_append, scanNumber_append turbo stops,
      scanNumber_append turbo ends.stopsToken]
  · exact string_same within
  · exact string_same within
  · rw [← List.cons_append, ← List.cons_append, scanHexLiteral_append u_ne stops,
      scanHexLiteral_append u_ne ends.stopsToken]
  · exact string_same within
  · rw [← List.cons_append, ← List.cons_append, scanSymbol_append opts u_ne stops,
      scanSymbol_append opts u_ne ends.stopsToken]

theorem scanNondecimal_width (baseDigits after : Text) :
    baseDigits.length ≤ (scanNondecimal baseDigits after).width ∧
      (scanNondecimal baseDigits after).width ≤ baseDigits.length + 1 + after.length := by
  have digits := takeWhile_length_le Char.isAlphanum after
  unfold scanNondecimal
  split
  · simp
    omega
  · split
    · simp
      omega
    · simp only
      split
      · simp
        omega
      · split <;> simp <;> omega

theorem scanNumber_width (opts : LangOptions) {c : Char} (rest : Text) (digit : c.isDigit) :
    0 < (scanNumber opts (c :: rest)).width ∧
      (scanNumber opts (c :: rest)).width ≤ (c :: rest).length := by
  have digits_pos : 0 < ((c :: rest).takeWhile Char.isDigit).length := by
    simp [digit]
  have digits_le := takeWhile_length_le Char.isDigit (c :: rest)
  unfold scanNumber
  simp only
  generalize (c :: rest).takeWhile Char.isDigit = digits at digits_pos digits_le
  have after_length : ((c :: rest).drop digits.length).length = (c :: rest).length - digits.length :=
    List.length_drop
  generalize (c :: rest).drop digits.length = after at after_length
  split
  case isTrue based =>
    have after_pos : 0 < after.length := by
      cases after with
      | nil => simp at based
      | cons => simp
    have width := scanNondecimal_width digits (after.drop 1)
    rw [List.length_drop] at width
    omega
  case isFalse =>
    have fraction_le := (fractionPart_starts after).length_le
    have exponent_le := (exponentPart_starts (after.drop (fractionPart after).length)).length_le
    rw [List.length_drop] at exponent_le
    simp only [List.length_append]
    omega

theorem symbolToken_width (opts : LangOptions) (c : Char) (next : Option Char) :
    0 < (symbolToken opts c next).width ∧
      (symbolToken opts c next).width ≤ 1 + next.toList.length := by
  unfold symbolToken
  split <;> (try split) <;> (try split) <;> simp_all

/-- A token takes at least one character and no more than there are. -/
theorem scanToken_width (opts : LangOptions) (exprStart : Bool) {text : Text}
    (text_ne : text ≠ []) :
    0 < (scanToken opts exprStart text).width ∧
      (scanToken opts exprStart text).width ≤ text.length := by
  obtain ⟨c, rest, rfl⟩ := List.exists_cons_of_ne_nil text_ne
  have string_width (fragment : Fragment) (scanned : scanFragment opts (c :: rest) = some fragment) :
      0 < (scanString opts (c :: rest)).width ∧
        (scanString opts (c :: rest)).width ≤ (c :: rest).length :=
    ⟨(scanFragment_width_pos scanned).trans_le (scanFragments_width_pos scanned),
      scanFragments_width_le opts _ _⟩
  unfold scanToken
  simp only
  split_ifs with letter digit quote code hex caret
  · have word_pos : 0 < ((c :: rest).takeWhile isWordChar).length := by
      have word : isWordChar c = true := by
        simp only [isWordChar, Char.isAlphanum, Bool.or_eq_true] at letter ⊢
        tauto
      simp [word]
    exact ⟨word_pos, takeWhile_length_le isWordChar _⟩
  · exact scanNumber_width opts rest digit
  · exact string_width _ (if_pos (by simpa using quote))
  · refine string_width (scanControlCodeFragment (c :: rest)) ?_
    simp_all [scanFragment]
  · have digits_le := takeWhile_length_le isxdigit rest
    unfold scanHexLiteral
    simp only [List.drop_succ_cons, List.drop_zero, List.length_cons]
    split
    · simp
      omega
    · split <;> simp <;> omega
  · refine string_width (scanCaretFragment (c :: rest)) ?_
    obtain ⟨⟨turbo, looks⟩, _⟩ :
        (opts.turbo ∧ caretLooksLikeControlChar (c :: rest)) ∧ exprStart := by
      simpa using caret
    have c_eq : c = '^' := by
      simp only [caretLooksLikeControlChar, Bool.and_eq_true, beq_iff_eq] at looks
      exact looks.1
    subst c_eq
    simp [scanFragment, turbo, looks]
  · have width := symbolToken_width opts c rest.head?
    refine ⟨width.1, width.2.trans ?_⟩
    cases rest <;> simp

/-- A line that ends within `u` is the same whatever follows. -/
theorem takeWhile_line_append {u x y : Text} (ends : EndsLine y)
    (within : ((u ++ x).takeWhile (· != '\n')).length ≤ u.length) :
    (u ++ y).takeWhile (· != '\n') = (u ++ x).takeWhile (· != '\n') := by
  induction u with
  | nil =>
      have x_nil : x.takeWhile (· != '\n') = [] := List.length_eq_zero_iff.mp (by simpa using within)
      rw [List.nil_append, List.nil_append, x_nil]
      cases y with
      | nil => rfl
      | cons c y =>
          obtain rfl := ends c rfl
          rfl
  | cons c u induction =>
      simp only [List.cons_append, List.takeWhile_cons] at within ⊢
      split
      case isTrue other =>
        rw [if_pos other] at within
        rw [induction (Nat.le_of_succ_le_succ within)]
      case isFalse => rfl

theorem eitherCloser_le {text : Text} {width : Nat} (closes : eitherCloser text = some width) :
    width ≤ text.length := by
  induction text generalizing width with
  | nil => cases closes
  | cons c rest induction =>
      unfold eitherCloser at closes
      split_ifs at closes with brace star
      · cases closes
        simp
      · cases closes
        obtain ⟨tail, rfl⟩ := List.head?_eq_some_iff.mp star.2
        simp
      · obtain ⟨inner, inner_eq, rfl⟩ := Option.map_eq_some_iff.mp closes
        exact Nat.succ_le_succ (induction inner_eq)

theorem closingQuote_le {text : Text} {width : Nat} (closes : closingQuote text = some width) :
    width ≤ text.length := by
  fun_induction closingQuote text generalizing width with
  | case1 => cases closes
  | case2 => cases closes
  | case3 rest induction =>
      obtain ⟨inner, inner_eq, rfl⟩ := Option.map_eq_some_iff.mp closes
      have := induction inner_eq
      simp only [List.length_cons]
      omega
  | case4 rest _ =>
      obtain rfl := Option.some.inj closes
      simp
  | case5 c rest _ _ _ induction =>
      obtain ⟨inner, inner_eq, rfl⟩ := Option.map_eq_some_iff.mp closes
      have := induction inner_eq
      simp only [List.length_cons]
      omega

theorem closingQuote_close {rest : Text} (single : rest.head? ≠ some '\'') :
    closingQuote ('\'' :: rest) = some 1 := by
  rw [closingQuote.eq_4]
  rintro tail rfl
  exact single rfl

theorem closingQuote_other {c : Char} (rest : Text) (not_newline : c ≠ '\n')
    (not_quote : c ≠ '\'') : closingQuote (c :: rest) = (closingQuote rest).map (· + 1) := by
  rw [closingQuote.eq_5] <;> simp [not_newline, not_quote]

/-- A closing quote within `u` is found whatever follows; where there is none before the end of the
line, a line end behind `u` does not make one. -/
theorem closingQuote_append {u x y : Text} (stops : StopsToken x) (ends : EndsLine y)
    (within : ∀ width ∈ closingQuote (u ++ x), width ≤ u.length) :
    closingQuote (u ++ y) = closingQuote (u ++ x) := by
  fun_induction closingQuote u with
  | case1 =>
      have y_none : closingQuote y = none := by
        cases y with
        | nil => rfl
        | cons c y =>
            obtain rfl := ends c rfl
            rfl
      simp only [List.nil_append] at within ⊢
      cases quote : closingQuote x with
      | none => exact y_none
      | some width =>
          have width_zero := within width quote
          cases x with
          | nil => cases quote
          | cons c x =>
              rcases stops c rfl with rfl | rfl | rfl
              · cases quote
              · rw [closingQuote_other x (by decide) (by decide)] at quote
                obtain ⟨inner, _, rfl⟩ := Option.map_eq_some_iff.mp quote
                simp at width_zero
              · rw [closingQuote_other x (by decide) (by decide)] at quote
                obtain ⟨inner, _, rfl⟩ := Option.map_eq_some_iff.mp quote
                simp at width_zero
  | case2 => rfl
  | case3 rest induction =>
      simp only [List.cons_append, closingQuote] at within ⊢
      rw [induction fun width found => ?_]
      have := within (width + 2) (by simpa using found)
      simp only [List.length_cons] at this
      omega
  | case4 rest not_doubled =>
      have single {z : Text} (stops : StopsToken z) : (rest ++ z).head? ≠ some '\'' := by
        rw [ne_eq, head?_append_iff stops (by decide)]
        intro doubled
        obtain ⟨tail, rfl⟩ := List.head?_eq_some_iff.mp doubled
        exact not_doubled tail rfl
      simp only [List.cons_append]
      rw [closingQuote_close (single stops), closingQuote_close (single ends.stopsToken)]
  | case5 c rest not_newline not_doubled not_quote induction =>
      simp only [List.cons_append, closingQuote_other _ not_newline not_quote] at within ⊢
      rw [induction fun width found => ?_]
      have := within (width + 1) (by simpa using found)
      simp only [List.length_cons] at this
      omega

end Plang
