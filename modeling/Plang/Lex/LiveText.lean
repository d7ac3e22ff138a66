import Plang.Lex.Alignment

/-!
# Live text without directives

Read from its beginning, a text without directives is read up to its end.  What it yields depends on
the kind of the token before it, but neither on what follows nor on the state of the conditionals.
-/

namespace Plang

/-- The control after a token is returned: only the last token is new. -/
def Control.lexed (control : Control) (kind : TokenKind) (force : Bool) : Control :=
  { control with prevKind := kind, forceExprStartOnce := force }

namespace Reader

variable {opts : LangOptions} {allow : Nat → Bool}

/-- The reader goes from one text to another, whatever follows and whatever else is established. -/
def Reads (opts : LangOptions) (allow : Nat → Bool) (text : Text) (kind : TokenKind) (force : Bool)
    (tokens : List (TokenKind × Text)) (text' : Text) (kind' : TokenKind) (force' : Bool)
    (tokens' : List (TokenKind × Text)) : Prop :=
  ∃ turns, ∀ control : Control, control.skipDepth = none → ∀ x, StopsToken x →
    run opts allow ⟨control.lexed kind force, text ++ x, tokens⟩ turns =
      ⟨control.lexed kind' force', text' ++ x, tokens'⟩

theorem Reads.refl (text : Text) (kind : TokenKind) (force : Bool)
    (tokens : List (TokenKind × Text)) :
    Reads opts allow text kind force tokens text kind force tokens :=
  ⟨0, fun _ _ _ _ => rfl⟩

theorem Reads.trans {text text' text'' : Text} {kind kind' kind'' : TokenKind}
    {force force' force'' : Bool} {tokens tokens' tokens'' : List (TokenKind × Text)}
    (left : Reads opts allow text kind force tokens text' kind' force' tokens')
    (right : Reads opts allow text' kind' force' tokens' text'' kind'' force'' tokens'') :
    Reads opts allow text kind force tokens text'' kind'' force'' tokens'' := by
  obtain ⟨first, left⟩ := left
  obtain ⟨second, right⟩ := right
  refine ⟨second + first, fun control live x stops => ?_⟩
  rw [run_add, left control live x stops, right control live x stops]

/-- One turn that only steps over characters. -/
theorem Reads.of_turn {text text' : Text} {kind : TokenKind} {force : Bool}
    {tokens : List (TokenKind × Text)}
    (same : ∀ control : Control, control.skipDepth = none → ∀ x, StopsToken x →
      turn opts allow ⟨control, text ++ x, tokens⟩ = ⟨control, text' ++ x, tokens⟩) :
    Reads opts allow text kind force tokens text' kind force tokens :=
  ⟨1, fun control live x stops => same (control.lexed kind force) live x stops⟩

/-- White space. -/
theorem Reads.space {c : Char} (space : isspace c = true) (text : Text) (kind : TokenKind)
    (force : Bool) (tokens : List (TokenKind × Text)) :
    Reads opts allow (c :: text) kind force tokens text kind force tokens :=
  .of_turn fun control live x _ => by simp [turn, live, space, drop]

theorem Reads.line (turbo : opts.turbo = true) {body : Text} (no_newline : '\n' ∉ body) (text : Text)
    (kind : TokenKind) (force : Bool) (tokens : List (TokenKind × Text)) :
    Reads opts allow ((Piece.line body).text ++ text) kind force tokens text kind force tokens := by
  have to_newline : Reads opts allow ((Piece.line body).text ++ text) kind force tokens
      ('\n' :: text) kind force tokens := by
    refine .of_turn fun control live x _ => ?_
    have line_eq : (body ++ '\n' :: (text ++ x)).takeWhile (· != '\n') = body := by
      rw [List.takeWhile_append_of_pos]
      · simp
      · intro c member
        rw [bne_iff_ne]
        rintro rfl
        exact no_newline member
    have opens : Scanner.trivia opts ('/' :: '/' :: (body ++ '\n' :: (text ++ x))) = some .line := by
      simp [Scanner.trivia, turbo]
    have text_eq : (Piece.line body).text ++ text ++ x =
        '/' :: '/' :: (body ++ '\n' :: (text ++ x)) := by simp [Piece.text]
    rw [text_eq, turn_trivia allow control live opens]
    simp only [skipTrivia, drop, List.drop_succ_cons, List.drop_zero, line_eq, Nat.add_comm 2]
    simp
  exact to_newline.trans (.space (by decide) text kind force tokens)

theorem Reads.comment (turbo : opts.turbo = true) {braced : Bool} {body : Text}
    (valid : (Piece.comment braced body).Valid none) (text : Text) (kind : TokenKind) (force : Bool)
    (tokens : List (TokenKind × Text)) :
    Reads opts allow ((Piece.comment braced body).text ++ text) kind force tokens text kind force
      tokens := by
  refine .of_turn fun control live x _ => ?_
  obtain ⟨closes, no_dollar⟩ := valid
  have text_eq : (Piece.comment braced body).text ++ text ++ x =
      opener braced ++ (body ++ closer braced ++ (text ++ x)) := by simp [Piece.text]
  have opens : Scanner.trivia opts (opener braced ++ (body ++ closer braced ++ (text ++ x))) =
      some (.comment braced) := by
    cases body with
    | nil => cases braced <;> simp [Scanner.trivia, opener, closer]
    | cons c body =>
        have c_ne : c ≠ '$' := by simpa using no_dollar
        cases braced <;> simp [Scanner.trivia, opener, c_ne]
  have found : findCloser braced (body ++ closer braced ++ (text ++ x)) = some body :=
    findCloser_closed closes _
  rw [text_eq, turn_trivia allow control live opens]
  simp only [skipTrivia, skipComment, turbo, if_true, List.drop_left, found, Option.map_some, drop]
  rw [← List.drop_drop, List.drop_left, ← List.length_append, List.drop_left]

/-- The first piece of a text decides whether a token begins there. -/
theorem no_trivia_of_valid {piece : Piece} {pieces : List Piece} {x : Text}
    (lexical : Lexical (piece :: pieces)) (stops : StopsToken x)
    (token : (∃ c, piece = .byte c) ∨ ∃ body, piece = .quoted body) :
    Scanner.trivia opts (textOf (piece :: pieces) ++ x) = none := by
  rcases token with ⟨c, rfl⟩ | ⟨body, rfl⟩
  · obtain ⟨_, not_brace, not_paren, not_slash⟩ := lexical.1.append stops
    have star : ¬(c = '(' ∧ (textOf pieces ++ x).head? = some '*') :=
      fun both => not_paren both.1 both.2
    have no_line : ¬(opts.turbo && c == '/' && (textOf pieces ++ x).head? == some '/') = true := by
      simp only [Bool.and_eq_true, beq_iff_eq, not_and]
      exact fun both again => not_slash both.2 again
    simp only [textOf_cons, Piece.text, List.cons_append, List.nil_append, Scanner.trivia,
      if_neg not_brace, if_neg star, if_neg no_line]
  · simp [Piece.text, Scanner.trivia]

/-- A token, or what is in its place. -/
theorem Reads.token (turbo : opts.turbo = true) {piece : Piece} {pieces : List Piece}
    (lexical : Lexical (piece :: pieces)) (plain : ∀ other ∈ piece :: pieces, other.Plain)
    (token : (∃ c, piece = .byte c ∧ isspace c = false) ∨ ∃ body, piece = .quoted body)
    (kind : TokenKind) (force : Bool) (tokens : List (TokenKind × Text)) :
    ∃ back kind' force' tokens', back <:+ piece :: pieces ∧ back ≠ piece :: pieces ∧
      Reads opts allow (textOf (piece :: pieces)) kind force tokens (textOf back) kind' force'
        tokens' := by
  have no_trivia (x : Text) (stops : StopsToken x) :
      Scanner.trivia opts (textOf (piece :: pieces) ++ x) = none :=
    no_trivia_of_valid lexical stops (token.imp_left fun ⟨c, eq, _⟩ => ⟨c, eq⟩)
  have starts : ∃ c rest, textOf (piece :: pieces) = c :: rest ∧ isspace c = false := by
    rcases token with ⟨c, rfl, not_space⟩ | ⟨body, rfl⟩
    · exact ⟨c, textOf pieces, by simp [Piece.text], not_space⟩
    · exact ⟨'\'', body ++ '\'' :: textOf pieces, by simp [Piece.text], rfl⟩
  obtain ⟨c, rest, text_eq, not_space⟩ := starts
  have text_ne : textOf (piece :: pieces) ≠ [] := by simp [text_eq]
  generalize start_eq : (startsExpression kind || force) = exprStart
  -- the token is the same whatever follows, and the pieces it takes are too
  have same (x : Text) (stops : StopsToken x) :
      scanToken opts exprStart (textOf (piece :: pieces) ++ x) =
        scanToken opts exprStart (textOf (piece :: pieces)) := by
    have cuts := token_cuts lexical stops (List.cons_ne_nil _ _) plain turbo (no_trivia x stops)
      exprStart
    have none_behind := scanToken_append turbo exprStart text_ne stops endsLine_nil cuts.1
    rw [List.append_nil] at none_behind
    exact none_behind.symm
  have cuts := token_cuts lexical stopsToken_nil (List.cons_ne_nil _ _) plain turbo
    (no_trivia [] stopsToken_nil) exprStart
  rw [List.append_nil] at cuts
  have width_pos := (scanToken_width opts exprStart text_ne).1
  generalize scanToken opts exprStart (textOf (piece :: pieces)) = scanned at *
  obtain ⟨width_le, back, suffix, back_eq⟩ := cuts
  have turn_eq (control : Control) (live : control.skipDepth = none) (x : Text)
      (stops : StopsToken x) :
      turn opts allow ⟨control.lexed kind force, textOf (piece :: pieces) ++ x, tokens⟩ =
        readToken opts allow ⟨control.lexed kind force, textOf (piece :: pieces) ++ x, tokens⟩ := by
    have live' : (control.lexed kind force).skipDepth = none := live
    have silent := no_trivia x stops
    rw [text_eq, List.cons_append] at silent ⊢
    simp only [turn, live', not_space, silent, Bool.false_eq_true, if_false]
  have start_eq' (control : Control) : (startsExpression (control.lexed kind force).prevKind ||
      (control.lexed kind force).forceExprStartOnce) = exprStart := start_eq
  have back_ne : back ≠ piece :: pieces := by
    rintro rfl
    have lengths := congrArg List.length back_eq
    rw [List.length_drop] at lengths
    omega
  have drop_eq (x : Text) :
      (textOf (piece :: pieces) ++ x).drop scanned.width = textOf back ++ x := by
    rw [List.drop_append_of_le_length width_le, back_eq]
  by_cases failed : scanned.kind = .Error
  · refine ⟨back, kind, force, tokens, suffix, back_ne, 1, fun control live x stops => ?_⟩
    refine (turn_eq control live x stops).trans ?_
    simp only [readToken, start_eq', same x stops, failed, if_true, drop, drop_eq]
  · refine ⟨back, scanned.kind, allow (tokens.length + 1),
      tokens ++ [(scanned.kind, scanned.lexeme)], suffix, back_ne, 1, fun control live x stops => ?_⟩
    refine (turn_eq control live x stops).trans ?_
    simp only [readToken, start_eq', same x stops, failed, if_false, drop_eq, returned,
      List.length_append, List.length_singleton]
    cases allow (tokens.length + 1) <;> rfl

/-- A text without directives is read up to its end. -/
theorem reads_text (allow : Nat → Bool) (turbo : opts.turbo = true) {pieces : List Piece}
    (lexical : Lexical pieces) (plain : ∀ piece ∈ pieces, piece.Plain) (kind : TokenKind)
    (force : Bool) (tokens : List (TokenKind × Text)) :
    ∃ kind' force' tokens',
      Reads opts allow (textOf pieces) kind force tokens [] kind' force' tokens' := by
  induction length_eq : pieces.length using Nat.strong_induction_on
    generalizing pieces kind force tokens with
  | h length induction =>
      -- a part at the beginning is read, and the rest is a shorter text
      have later {back : List Piece} (suffix : back <:+ pieces) (back_ne : back ≠ pieces)
          (kind' : TokenKind) (force' : Bool) (tokens' : List (TokenKind × Text))
          (reads : Reads opts allow (textOf pieces) kind force tokens (textOf back) kind' force'
            tokens') :
          ∃ kind' force' tokens',
            Reads opts allow (textOf pieces) kind force tokens [] kind' force' tokens' := by
        have shorter : back.length < length := by
          rw [← length_eq]
          exact lt_of_le_of_ne suffix.length_le fun equal => back_ne (suffix.eq_of_length equal)
        obtain ⟨kind', force', tokens', rest⟩ := induction back.length shorter (lexical.suffix suffix)
          (fun piece member => plain piece (suffix.subset member)) kind' force' tokens' rfl
        exact ⟨kind', force', tokens', reads.trans rest⟩
      cases pieces with
      | nil => exact ⟨kind, force, tokens, .refl ..⟩
      | cons piece pieces =>
          have tail_ne : pieces ≠ piece :: pieces := by
            intro equal
            simpa using congrArg List.length equal
          have tail := later (List.suffix_cons piece pieces) tail_ne kind force tokens
          cases piece with
          | byte c =>
              cases space : isspace c with
              | true => exact tail (.space space ..)
              | false =>
                  obtain ⟨back, _, _, _, suffix, back_ne, reads⟩ :=
                    Reads.token turbo lexical plain (.inl ⟨c, rfl, space⟩) kind force tokens
                  exact later suffix back_ne _ _ _ reads
          | quoted body =>
              obtain ⟨back, _, _, _, suffix, back_ne, reads⟩ :=
                Reads.token turbo lexical plain (.inr ⟨body, rfl⟩) kind force tokens
              exact later suffix back_ne _ _ _ reads
          | line body => exact tail (.line turbo lexical.1 ..)
          | comment braced body => exact tail (.comment turbo lexical.1 ..)
          | directive braced body => exact (plain _ List.mem_cons_self).elim

end Reader

end Plang
