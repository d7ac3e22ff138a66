import Plang.Lex.Pieces

/-!
# Tokens end at the borders of pieces

A Turbo token that begins where a piece does ends where a piece does.
-/

namespace Plang

theorem inert_of {p : Char → Bool}
    (stops : p '\'' = false ∧ p '{' = false ∧ p '(' = false ∧ p '/' = false) {c : Char}
    (holds : p c = true) : inert c := by
  refine ⟨?_, ?_, ?_, ?_⟩ <;> rintro rfl <;> simp [stops] at holds

namespace InertPrefix

theorem zero (text : Text) : InertPrefix text 0 :=
  ⟨Nat.zero_le _, fun _ member => by simp at member⟩

theorem cons {c : Char} {text : Text} {width : Nat} (inert_c : inert c)
    (rest : InertPrefix text width) : InertPrefix (c :: text) (width + 1) := by
  refine ⟨Nat.succ_le_succ rest.1, fun d member => ?_⟩
  rw [List.take_succ_cons] at member
  rcases List.mem_cons.mp member with rfl | later
  · exact inert_c
  · exact rest.2 d later

theorem add {text : Text} {first second : Nat} (front : InertPrefix text first)
    (back : InertPrefix (text.drop first) second) : InertPrefix text (first + second) := by
  obtain ⟨first_le, first_inert⟩ := front
  obtain ⟨second_le, second_inert⟩ := back
  rw [List.length_drop] at second_le
  refine ⟨by omega, fun c member => ?_⟩
  rw [List.take_add] at member
  rcases List.mem_append.mp member with early | late
  · exact first_inert c early
  · exact second_inert c late

theorem takeWhile {p : Char → Bool}
    (stops : p '\'' = false ∧ p '{' = false ∧ p '(' = false ∧ p '/' = false) (text : Text) :
    InertPrefix text (text.takeWhile p).length := by
  refine ⟨takeWhile_length_le p text, fun c member => ?_⟩
  rw [← List.prefix_iff_eq_take.mp (List.takeWhile_prefix p)] at member
  exact inert_of stops (List.mem_takeWhile_imp member)

theorem fraction (text : Text) : InertPrefix text (fractionPart text).length := by
  cases text with
  | nil => exact zero []
  | cons c rest =>
      unfold fractionPart
      simp only
      split
      case isTrue point =>
        obtain ⟨rfl, _⟩ := point
        exact cons (by unfold inert; decide) (takeWhile (by decide) rest)
      case isFalse => exact zero _

theorem sign (text : Text) : InertPrefix text (signPart text).length := by
  cases text with
  | nil => exact zero []
  | cons c rest =>
      unfold signPart
      simp only
      split
      case isTrue sign =>
        refine cons ?_ (zero rest)
        rcases sign with rfl | rfl <;> unfold inert <;> decide
      case isFalse => exact zero _

theorem exponent (text : Text) : InertPrefix text (exponentPart text).length := by
  cases text with
  | nil => exact zero []
  | cons c rest =>
      unfold exponentPart
      simp only
      split
      case isTrue scale =>
        rw [List.length_cons, List.length_append]
        refine cons ?_ ((sign rest).add (takeWhile (by decide) _))
        rcases scale.1 with rfl | rfl <;> unfold inert <;> decide
      case isFalse => exact zero _

theorem number {opts : LangOptions} (turbo : opts.turbo = true) (text : Text) :
    InertPrefix text (scanNumber opts text).width := by
  have not_extended : opts.extendedPascal = false := by
    simp only [LangOptions.turbo, LangOptions.extendedPascal, beq_iff_eq] at turbo ⊢
    rw [turbo]
    rfl
  simp only [scanNumber, not_extended, Bool.false_and, Bool.false_eq_true, if_false,
    List.length_append]
  refine add (add (takeWhile (by decide) text) (fraction _)) ?_
  rw [← List.drop_drop]
  exact exponent _

theorem controlCode {text : Text} (code : text.head? = some '#') :
    InertPrefix text (scanControlCodeFragment text).width := by
  obtain ⟨rest, rfl⟩ := List.head?_eq_some_iff.mp code
  rw [scanControlCodeFragment_width]
  split
  case isTrue hex =>
    obtain ⟨tail, rest_eq⟩ := List.head?_eq_some_iff.mp hex
    change rest = '$' :: tail at rest_eq
    subst rest_eq
    rw [Nat.add_comm]
    exact cons (by unfold inert; decide) (cons (by unfold inert; decide)
      (takeWhile (by decide) tail))
  case isFalse =>
    rw [Nat.add_comm]
    exact cons (by unfold inert; decide) (takeWhile (by decide) rest)

theorem caret {text : Text} (looks : caretLooksLikeControlChar text = true) : InertPrefix text 2 := by
  cases text with
  | nil => cases looks
  | cons c rest =>
      cases rest with
      | nil => simp [caretLooksLikeControlChar] at looks
      | cons d rest =>
          obtain ⟨rfl, letter⟩ : c = '^' ∧ d.isAlpha := by
            simpa [caretLooksLikeControlChar] using looks
          have inert_d : inert d := inert_of (p := Char.isAlpha) (by decide) letter
          exact cons (by unfold inert; decide) (cons inert_d (zero rest))

theorem hex (c : Char) (inert_c : inert c) (rest : Text) :
    InertPrefix (c :: rest) (scanHexLiteral (c :: rest)).width := by
  have digits := cons inert_c (takeWhile (p := isxdigit) (by decide) rest)
  unfold scanHexLiteral
  simp only [List.drop_succ_cons, List.drop_zero]
  split
  · exact digits
  · split <;> exact digits

end InertPrefix

/-- The closing quote is found where the piece ends. -/
theorem closingQuote_quoted {body rest : Text}
    (closes : closingQuote (body ++ ['\'']) = some (body.length + 1))
    (single : rest.head? ≠ some '\'') :
    closingQuote (body ++ '\'' :: rest) = some (body.length + 1) := by
  fun_induction closingQuote body with
  | case1 => exact closingQuote_close single
  | case2 => simp [closingQuote] at closes
  | case3 tail induction =>
      simp only [List.cons_append, closingQuote, List.length_cons, Option.map_eq_some_iff] at closes ⊢
      obtain ⟨width, width_eq, width_add⟩ := closes
      obtain rfl : width = tail.length + 1 := by omega
      exact ⟨_, induction width_eq, width_add⟩
  | case4 tail not_doubled =>
      cases tail with
      | nil => simp [closingQuote] at closes
      | cons d tail =>
          rw [List.cons_append, closingQuote_close] at closes
          · simp at closes
          · rintro head_eq
            exact not_doubled tail (by rw [Option.some.inj head_eq])
  | case5 c tail not_newline not_doubled not_quote induction =>
      rw [List.cons_append, closingQuote_other _ not_newline not_quote, Option.map_eq_some_iff]
        at closes ⊢
      obtain ⟨width, width_eq, width_add⟩ := closes
      obtain rfl : width = tail.length + 1 := by
        simp only [List.length_cons] at width_add
        omega
      exact ⟨_, induction width_eq, width_add⟩

/-- The two scans of a quoted string agree on where it closes. -/
theorem quotedBody_of_closingQuote {text : Text} {width : Nat}
    (closes : closingQuote text = some width) :
    (quotedBody text).2 = (width, true) := by
  fun_induction closingQuote text generalizing width with
  | case1 => cases closes
  | case2 => cases closes
  | case3 rest induction =>
      obtain ⟨inner, inner_eq, rfl⟩ := Option.map_eq_some_iff.mp closes
      rw [quotedBody_doubled, induction inner_eq]
  | case4 rest not_doubled =>
      obtain rfl := Option.some.inj closes
      rw [quotedBody_close]
      intro doubled
      obtain ⟨tail, rfl⟩ := List.head?_eq_some_iff.mp doubled
      exact not_doubled tail rfl
  | case5 c rest not_newline _ not_quote induction =>
      obtain ⟨inner, inner_eq, rfl⟩ := Option.map_eq_some_iff.mp closes
      rw [quotedBody_other rest not_newline not_quote, induction inner_eq]

section Cut

variable {opts : LangOptions} {pieces : List Piece} {x : Text} (lexical : Lexical pieces)
  (stops : StopsToken x)

include lexical stops

theorem quoted_cuts (quote : (textOf pieces ++ x).head? = some '\'') :
    Cuts pieces (scanQuotedFragment (textOf pieces ++ x)).width := by
  rw [head?_append_iff stops (by decide)] at quote
  cases pieces with
  | nil => cases quote
  | cons piece pieces =>
      cases piece with
      | quoted body =>
          obtain ⟨closes, single⟩ := lexical.1.append stops
          have text_eq : (textOf (.quoted body :: pieces) ++ x).drop 1 =
              body ++ '\'' :: (textOf pieces ++ x) := by simp [Piece.text]
          have closed := quotedBody_of_closingQuote (closingQuote_quoted closes single)
          have width_eq : (scanQuotedFragment (textOf (.quoted body :: pieces) ++ x)).width =
              (Piece.quoted body).text.length := by
            rw [scanQuotedFragment_width, text_eq, closed]
            simp [Piece.text]
          rw [width_eq]
          exact .piece ..
      | byte c => exact absurd (Option.some.inj quote) lexical.1.1
      | line body => simp [Piece.text] at quote
      | comment braced body => cases braced <;> simp [Piece.text, opener] at quote
      | directive braced body => cases braced <;> simp [Piece.text, opener] at quote

theorem fragment_cuts {fragment : Fragment}
    (scanned : scanFragment opts (textOf pieces ++ x) = some fragment) :
    Cuts pieces fragment.width := by
  have pieces_ne : textOf pieces ≠ [] := by
    intro empty
    rw [empty, List.nil_append] at scanned
    unfold scanFragment at scanned
    have not_caret : caretLooksLikeControlChar x = false := by
      have same := caretLooksLikeControlChar_append (u := []) stops
      exact same
    simp [stops.head_ne (c := '\'') (by decide), stops.head_ne (c := '#') (by decide), not_caret]
      at scanned
  unfold scanFragment at scanned
  split_ifs at scanned with quote code caret <;> obtain rfl := Option.some.inj scanned
  · exact quoted_cuts lexical stops (by simpa using quote)
  · rw [scanControlCodeFragment_append pieces_ne stops]
    have code_head : (textOf pieces ++ x).head? = some '#' := by
      simp only [Bool.and_eq_true, beq_iff_eq] at code
      exact code.2
    rw [head?_append_iff stops (by decide)] at code_head
    exact (InertPrefix.controlCode code_head).cuts
  · rw [scanCaretFragment_width]
    have looks : caretLooksLikeControlChar (textOf pieces ++ x) = true :=
      (Bool.and_eq_true _ _ ▸ caret).2
    rw [caretLooksLikeControlChar_append stops] at looks
    exact (InertPrefix.caret looks).cuts

omit lexical in
theorem fragments_cuts (fuel : Nat) (lexical : Lexical pieces) :
    Cuts pieces (scanFragments opts fuel (textOf pieces ++ x)).width := by
  induction fuel generalizing pieces with
  | zero => exact .zero pieces
  | succ fuel induction =>
      unfold scanFragments
      split
      case h_1 => exact .zero pieces
      case h_2 fragment scanned =>
        have cuts := fragment_cuts lexical stops scanned
        split
        case h_1 => exact cuts
        case h_2 =>
          simp only
          split
          case isFalse => exact cuts
          case isTrue =>
            obtain ⟨width_le, back, suffix, back_eq⟩ := cuts
            rw [List.drop_append_of_le_length width_le, ← back_eq]
            exact .add width_le suffix back_eq (induction (lexical.suffix suffix))

omit lexical stops in
/-- The second character of an operator begins nothing else. -/
theorem symbolToken_second (c : Char) (next : Option Char) :
    (symbolToken opts c next).width = 1 ∨
      ∃ d, next = some d ∧ inert d ∧ (symbolToken opts c next).width = 2 := by
  unfold symbolToken
  split
  all_goals first
    | exact .inl rfl
    | split
  all_goals first
    | exact .inl rfl
    | exact .inr ⟨_, ‹_›, by unfold inert; decide, rfl⟩
    | split
  all_goals first
    | exact .inl rfl
    | exact .inr ⟨_, ‹_›, by unfold inert; decide, rfl⟩

/-- An operator or delimiter that begins no comment. -/
theorem symbol_cuts (pieces_ne : pieces ≠ []) (plain : ∀ piece ∈ pieces, piece.Plain)
    (turbo : opts.turbo = true)
    (no_trivia : Scanner.trivia opts (textOf pieces ++ x) = none)
    (not_quote : (textOf pieces ++ x).head? ≠ some '\'') :
    Cuts pieces (scanSymbol opts (textOf pieces ++ x)).width := by
  obtain ⟨piece, pieces, rfl⟩ := List.exists_cons_of_ne_nil pieces_ne
  rw [scanSymbol_append opts (by simp [Piece.text_ne_nil]) stops]
  cases piece with
  | byte c =>
      have single : Cuts (.byte c :: pieces) 1 := .piece (.byte c) pieces
      change Cuts _ (symbolToken opts c (textOf pieces).head?).width
      rcases @symbolToken_second opts c (textOf pieces).head? with
        width_eq | ⟨d, next_eq, inert_d, width_eq⟩
      · rwa [width_eq]
      · obtain ⟨rest, rest_eq⟩ := List.head?_eq_some_iff.mp next_eq
        have second : Cuts pieces 1 := by
          refine InertPrefix.cuts ?_
          rw [rest_eq]
          exact .cons inert_d (.zero rest)
        rw [width_eq]
        exact .add single.1 (List.suffix_cons ..) (by simp [Piece.text]) second
  | quoted body => simp [Piece.text] at not_quote
  | line body => simp [Piece.text, Scanner.trivia, turbo] at no_trivia
  | comment braced body => cases braced <;> simp [Piece.text, Scanner.trivia, opener] at no_trivia
  | directive braced body => exact (plain _ List.mem_cons_self).elim

/-- A token takes some of the first pieces. -/
theorem token_cuts (pieces_ne : pieces ≠ []) (plain : ∀ piece ∈ pieces, piece.Plain)
    (turbo : opts.turbo = true) (no_trivia : Scanner.trivia opts (textOf pieces ++ x) = none)
    (exprStart : Bool) : Cuts pieces (scanToken opts exprStart (textOf pieces ++ x)).width := by
  have text_ne : textOf pieces ≠ [] := by
    obtain ⟨piece, pieces, rfl⟩ := List.exists_cons_of_ne_nil pieces_ne
    simp [piece.text_ne_nil]
  have string_cuts : Cuts pieces (scanString opts (textOf pieces ++ x)).width :=
    fragments_cuts stops _ lexical
  obtain ⟨c, rest, text_eq⟩ := List.exists_cons_of_ne_nil text_ne
  have number := scanNumber_append (u := textOf pieces) turbo stops
  have word := scanIdentifierOrKeyword_append (u := textOf pieces) opts stops
  have hex := scanHexLiteral_append text_ne stops
  have symbol := symbol_cuts lexical stops pieces_ne plain turbo no_trivia
  generalize whole_eq : textOf pieces ++ x = whole at *
  have whole_cons : whole = c :: (rest ++ x) := by rw [← whole_eq, text_eq, List.cons_append]
  subst whole_cons
  unfold scanToken
  simp only
  split_ifs with letter digit quote code dollar caret
  · rw [word]
    exact (InertPrefix.takeWhile (by decide) _).cuts
  · rw [number]
    exact (InertPrefix.number turbo _).cuts
  · exact string_cuts
  · exact string_cuts
  · have dollar_eq : c = '$' := by
      simp only [Bool.and_eq_true, beq_iff_eq] at dollar
      exact dollar.2
    rw [hex, text_eq]
    refine InertPrefix.cuts ?_
    rw [text_eq]
    exact .hex c (by rw [dollar_eq]; unfold inert; decide) rest
  · exact string_cuts
  · exact symbol (by simpa using quote)

end Cut

end Plang
