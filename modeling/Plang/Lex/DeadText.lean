import Plang.Lex.Alignment

/-!
# Dead text

The raw scan over a dead branch takes no notice of comments.  It reads the pieces of the branch all
the same, as long as whatever it takes for a string, a line comment or a directive inside a comment
ends inside that comment.
-/

namespace Plang

/-- The directives that open a conditional. -/
def opensConditional (body : Text) : Bool :=
  let folded := toLower (directiveName body)
  folded == "ifdef".toList || folded == "ifndef".toList || folded == "ifopt".toList

/-- The directive that closes one. -/
def closesConditional (body : Text) : Bool := toLower (directiveName body) == "endif".toList

/-- The directives that begin or end the branches of a conditional. -/
def isBranching (body : Text) : Bool :=
  let folded := toLower (directiveName body)
  opensConditional body || closesConditional body || folded == "else".toList ||
    folded == "elseif".toList

theorem opensConditional_iff {body : Text} :
    opensConditional body = true ↔ toLower (directiveName body) = "ifdef".toList ∨
      toLower (directiveName body) = "ifndef".toList ∨
      toLower (directiveName body) = "ifopt".toList := by
  simp only [opensConditional, Bool.or_eq_true, beq_iff_eq, or_assoc]

/-- How many conditionals are open behind a directive, when so many are before it; a directive of a
conditional that was open before the text has no place in it. -/
def nestingStep (depth : Nat) (body : Text) : Option Nat :=
  if opensConditional body then some (depth + 1)
  else if isBranching body && depth == 0 then none
  else if closesConditional body then some (depth - 1)
  else some depth

/-- How many conditionals are open behind a text. -/
def nesting : Nat → List Piece → Option Nat
  | depth, [] => some depth
  | depth, .directive _ body :: pieces =>
      (nestingStep depth body).bind fun inner => nesting inner pieces
  | depth, _ :: pieces => nesting depth pieces

/-- What the raw scan reads at the beginning of a text in one turn, when that is the same whatever
follows the text: the number of characters. -/
def quietUnit : Text → Option Nat
  | [] => none
  | c :: after =>
      if c = '\'' then
        match closingQuote after with
        | some width => some (width + 1)
        | none => if '\n' ∈ after then some 1 else none
      else if c = '/' ∧ after.head? = some '/' then
        if '\n' ∈ after then some ((c :: after).takeWhile (· != '\n')).length else none
      else
        match directiveOpener (c :: after) with
        | none => some 1
        | some braced =>
            let width := (opener braced).length + 1
            (findCloser braced ((c :: after).drop width)).map fun body =>
              width + body.length + (closer braced).length

/-- Whatever the raw scan begins to read in a text ends in it.  The first argument bounds the number
of turns. -/
def quiet : Nat → Text → Bool
  | _, [] => true
  | 0, _ => false
  | fuel + 1, text =>
      match quietUnit text with
      | none => false
      | some width => quiet fuel (text.drop width)

/-- A comment that the raw scan leaves where the comment ends. -/
def QuietComment (braced : Bool) (body : Text) : Prop :=
  let text := (Piece.comment braced body).text
  quiet text.length text = true

instance (braced : Bool) (body : Text) : Decidable (QuietComment braced body) := by
  unfold QuietComment
  infer_instance

/-- No directive that is closed in the text begins or ends a branch. -/
def NoBranching (text : Text) : Prop :=
  ∀ part, part <:+ text → ∀ braced ∈ directiveOpener part,
    (findCloser braced (part.drop ((opener braced).length + 1))).any isBranching = false

instance (text : Text) : Decidable (NoBranching text) :=
  decidable_of_iff (∀ part ∈ text.tails, ∀ braced ∈ directiveOpener part,
    (findCloser braced (part.drop ((opener braced).length + 1))).any isBranching = false)
    (by simp only [List.mem_tails]; rfl)

/-- The last character is that of a closing delimiter. -/
def EndsClosed (text : Text) : Prop := ∀ c ∈ text.getLast?, c = '}' ∨ c = ')'

theorem EndsClosed.suffix {text part : Text} (ends : EndsClosed text) (suffix : part <:+ text) :
    EndsClosed part := by
  intro c member
  obtain ⟨front, rfl⟩ := suffix
  refine ends c ?_
  cases part with
  | nil => cases member
  | cons d part => rwa [List.getLast?_append_of_ne_nil _ (List.cons_ne_nil d part)]

theorem NoBranching.suffix {text part : Text} (none_in : NoBranching text) (suffix : part <:+ text) :
    NoBranching part :=
  fun smaller smaller_suffix => none_in smaller (smaller_suffix.trans suffix)

theorem Piece.comment_endsClosed (braced : Bool) (body : Text) :
    EndsClosed (Piece.comment braced body).text := by
  intro c member
  cases braced with
  | true =>
      left
      have last : (Piece.comment true body).text = '{' :: body ++ ['}'] := by
        simp [text, closer, opener]
      rw [last, List.getLast?_concat] at member
      simpa using member.symm
  | false =>
      right
      have last : (Piece.comment false body).text = '(' :: '*' :: (body ++ ['*']) ++ [')'] := by
        simp [text, closer, opener]
      rw [last, List.getLast?_concat] at member
      simpa using member.symm

namespace EndsClosed

variable {c : Char} {after : Text} (ends : EndsClosed (c :: after)) (z : Text)

include ends

theorem tail_ne (c_ne : c ≠ '}' ∧ c ≠ ')') : after ≠ [] := by
  rintro rfl
  rcases ends c rfl with rfl | rfl <;> simp at c_ne

theorem tail : EndsClosed after := ends.suffix (List.suffix_cons c after)

theorem head?_append (c_ne : c ≠ '}' ∧ c ≠ ')') : (after ++ z).head? = after.head? := by
  obtain ⟨d, rest, rfl⟩ := List.exists_cons_of_ne_nil (ends.tail_ne c_ne)
  rfl

theorem directiveOpener_append :
    directiveOpener (c :: (after ++ z)) = directiveOpener (c :: after) := by
  unfold directiveOpener
  simp only
  by_cases brace : c = '{'
  · rw [ends.head?_append z (by subst brace; decide)]
    simp [brace]
  · by_cases paren : c = '('
    · subst paren
      rw [ends.head?_append z (by decide)]
      by_cases star : after.head? = some '*'
      · obtain ⟨rest, rfl⟩ := List.head?_eq_some_iff.mp star
        have next := ends.tail.head?_append z (by decide)
        simp [next]
      · simp [star]
    · simp [brace, paren]

theorem closingQuote_append {width : Nat} (closes : closingQuote after = some width) :
    closingQuote (after ++ z) = some width := by
  have last : '\'' ∉ after.getLast? := by
    intro member
    rcases ends.tail '\'' member with equal | equal <;> simp at equal
  clear ends
  fun_induction closingQuote after generalizing width with
  | case1 => cases closes
  | case2 => cases closes
  | case3 rest induction =>
      obtain ⟨inner, inner_eq, rfl⟩ := Option.map_eq_some_iff.mp closes
      have rest_last : '\'' ∉ rest.getLast? := by
        cases rest with
        | nil => simp
        | cons d rest => simpa [List.getLast?_cons_cons] using last
      simp [closingQuote, induction inner_eq rest_last]
  | case4 rest not_doubled =>
      rw [List.cons_append, closingQuote_close, closes]
      cases rest with
      | nil => simp at last
      | cons d rest =>
          rintro head_eq
          exact not_doubled rest (by rw [Option.some.inj head_eq])
  | case5 d rest not_newline _ not_quote induction =>
      obtain ⟨inner, inner_eq, rfl⟩ := Option.map_eq_some_iff.mp closes
      have rest_last : '\'' ∉ rest.getLast? := by
        cases rest with
        | nil => simp
        | cons e rest => simpa [List.getLast?_cons_cons] using last
      rw [List.cons_append, closingQuote_other _ not_newline not_quote,
        induction inner_eq rest_last]
      rfl

end EndsClosed

/-- A string that is open at the end of its line stays open. -/
theorem closingQuote_append_of_newline {text : Text} (z : Text) (unclosed : closingQuote text = none)
    (newline : '\n' ∈ text) : closingQuote (text ++ z) = none := by
  fun_induction closingQuote text with
  | case1 => cases newline
  | case2 => rfl
  | case3 rest induction =>
      rw [Option.map_eq_none_iff] at unclosed
      have later : '\n' ∈ rest := by simpa using newline
      simp [closingQuote, induction unclosed later]
  | case4 => cases unclosed
  | case5 c rest not_newline _ not_quote induction =>
      rw [Option.map_eq_none_iff] at unclosed
      have later : '\n' ∈ rest := by
        rcases List.mem_cons.mp newline with equal | later
        · exact absurd equal.symm not_newline
        · exact later
      rw [List.cons_append, closingQuote_other _ not_newline not_quote, induction unclosed later]
      rfl

/-- A string that is open at the end of a text is closed by the next quote. -/
theorem closingQuote_append_of_open {text z : Text} (unclosed : closingQuote text = none)
    (no_newline : '\n' ∉ text ++ z) (no_quote : '\'' ∉ z) :
    closingQuote (text ++ z ++ ['\'']) = some ((text ++ z).length + 1) := by
  fun_induction closingQuote text with
  | case1 =>
      induction z with
      | nil => rfl
      | cons c z induction =>
          simp only [List.nil_append, List.mem_cons, not_or] at no_newline no_quote induction ⊢
          rw [List.cons_append, closingQuote_other _ (Ne.symm no_newline.1) (Ne.symm no_quote.1),
            induction no_quote.2 no_newline.2]
          rfl
  | case2 => simp at no_newline
  | case3 rest induction =>
      rw [Option.map_eq_none_iff] at unclosed
      simp only [List.cons_append, closingQuote]
      rw [induction unclosed (by simpa using no_newline)]
      rfl
  | case4 => cases unclosed
  | case5 c rest not_newline _ not_quote induction =>
      rw [Option.map_eq_none_iff] at unclosed
      simp only [List.cons_append]
      rw [closingQuote_other _ not_newline not_quote, induction unclosed ?_]
      · rfl
      · intro member
        exact no_newline (List.mem_cons_of_mem c member)

theorem takeWhile_append_of_newline {text : Text} (z : Text) (newline : '\n' ∈ text) :
    (text ++ z).takeWhile (· != '\n') = text.takeWhile (· != '\n') := by
  induction text with
  | nil => cases newline
  | cons c text induction =>
      simp only [List.cons_append, List.takeWhile_cons]
      split
      case isTrue other =>
        rcases List.mem_cons.mp newline with equal | later
        · simp [← equal] at other
        · rw [induction later]
      case isFalse => rfl

theorem takeWhile_eq_self_of_no_newline {text : Text} (no_newline : '\n' ∉ text) :
    text.takeWhile (· != '\n') = text := by
  refine List.takeWhile_eq_self_iff.mpr fun c member => ?_
  rw [bne_iff_ne]
  rintro rfl
  exact no_newline member

/-- The comments of a text are quiet. -/
def QuietPieces (pieces : List Piece) : Prop :=
  ∀ braced body, .comment braced body ∈ pieces → QuietComment braced body

/-- No directive inside a comment begins or ends a branch. -/
def CommentsKeepOut (pieces : List Piece) : Prop :=
  ∀ braced body, .comment braced body ∈ pieces → NoBranching (Piece.comment braced body).text

namespace Reader

variable {opts : LangOptions}

/-- The raw scan goes on over dead text. -/
inductive Skips (opts : LangOptions) : Reader → Reader → Prop
  | refl (reader : Reader) : Skips opts reader reader
  | turn {reader after : Reader} {depth : Nat} (dead : reader.control.skipDepth = some depth)
      (rest_ne : reader.rest ≠ []) (skips : Skips opts (reader.skipTurn opts depth) after) :
      Skips opts reader after

theorem Skips.trans {first second third : Reader} (left : Skips opts first second)
    (right : Skips opts second third) : Skips opts first third := by
  induction left with
  | refl => exact right
  | turn dead rest_ne _ induction => exact .turn dead rest_ne (induction right)

theorem Skips.single {reader after : Reader} {depth : Nat}
    (dead : reader.control.skipDepth = some depth) (rest_ne : reader.rest ≠ [])
    (turn_eq : reader.skipTurn opts depth = after) : Skips opts reader after :=
  .turn dead rest_ne (turn_eq ▸ .refl _)

/-- In a dead branch a directive that neither begins nor ends a branch does nothing. -/
theorem onDeadDirective_of_not_branching (control : Control) (depth : Nat) {body : Text}
    (not_branching : isBranching body = false) :
    control.onDeadDirective depth body = control := by
  simp only [isBranching, Bool.or_eq_false_iff, closesConditional, beq_eq_false_iff_ne]
    at not_branching
  obtain ⟨⟨⟨not_opens, not_endif⟩, not_else⟩, not_elseif⟩ := not_branching
  rw [← Bool.not_eq_true, opensConditional_iff] at not_opens
  simp only [Control.onDeadDirective, splitDirectiveBody, not_opens, not_endif, not_else, not_elseif,
    if_false, ite_self]

/-- In a dead branch the directives of nested conditionals are counted. -/
theorem onDeadDirective_of_nestingStep {control : Control} {depth inner : Nat} {body : Text}
    (dead : control.skipDepth = some depth) (step_eq : nestingStep depth body = some inner) :
    control.onDeadDirective depth body = { control with skipDepth := some inner } := by
  have same : control = { control with skipDepth := some depth } := by rw [← dead]
  unfold nestingStep at step_eq
  split_ifs at step_eq with opens not_own closes <;> obtain rfl := Option.some.inj step_eq
  · rw [opensConditional_iff] at opens
    simp only [Control.onDeadDirective, splitDirectiveBody, opens, if_true]
  · have depth_pos : 0 < depth := by
      simp only [isBranching, closes, Bool.or_true, Bool.true_or, Bool.true_and, beq_iff_eq]
        at not_own
      omega
    rw [opensConditional_iff] at opens
    rw [closesConditional, beq_iff_eq] at closes
    simp only [Control.onDeadDirective, splitDirectiveBody, if_neg opens, if_pos closes,
      if_pos depth_pos]
  · cases branching : isBranching body with
    | false => rw [onDeadDirective_of_not_branching control depth branching, ← same]
    | true =>
        have depth_pos : 0 < depth := by
          simp only [branching, Bool.true_and, beq_iff_eq] at not_own
          omega
        rw [opensConditional_iff] at opens
        rw [closesConditional, beq_iff_eq] at closes
        simp only [Control.onDeadDirective, splitDirectiveBody, if_neg opens, if_neg closes,
          if_pos depth_pos, ← same]

/-- One turn over a text that is quiet so far. -/
theorem skipTurn_quietUnit (turbo : opts.turbo = true) {text : Text} {width : Nat}
    (unit : quietUnit text = some width) (ends : EndsClosed text) (no_branching : NoBranching text)
    (control : Control) (z : Text) (tokens : List (TokenKind × Text)) (depth : Nat) :
    0 < width ∧ width ≤ text.length ∧
      skipTurn opts ⟨control, text ++ z, tokens⟩ depth =
        ⟨control, text.drop width ++ z, tokens⟩ := by
  cases text with
  | nil => cases unit
  | cons c after =>
      unfold quietUnit at unit
      simp only at unit
      by_cases quote : c = '\''
      · subst quote
        rw [if_pos rfl] at unit
        rw [List.cons_append, skipTurn_quote]
        cases closes : closingQuote after with
        | some inner =>
            simp only [closes, Option.some.injEq] at unit
            subst unit
            have inner_le := closingQuote_le closes
            refine ⟨by omega, by simpa using inner_le, ?_⟩
            rw [ends.closingQuote_append z closes, Option.getD_some,
              List.drop_append_of_le_length inner_le, List.drop_succ_cons]
        | none =>
            simp only [closes, Option.ite_none_right_eq_some, Option.some.injEq] at unit
            obtain ⟨newline, rfl⟩ := unit
            refine ⟨Nat.one_pos, by simp, ?_⟩
            rw [closingQuote_append_of_newline z closes newline]
            rfl
      · rw [if_neg quote] at unit
        by_cases line : c = '/' ∧ after.head? = some '/'
        · rw [if_pos line, Option.ite_none_right_eq_some] at unit
          obtain ⟨newline, width_eq⟩ := unit
          obtain ⟨rfl, slash⟩ := line
          have slash_z : (after ++ z).head? = some '/' := by
            rwa [ends.head?_append z (by decide)]
          have width_eq : width = (after.takeWhile (· != '\n')).length + 1 := by
            simpa using (Option.some.inj width_eq).symm
          have line_le := takeWhile_length_le (· != '\n') after
          refine ⟨by omega, by simpa [width_eq] using line_le, ?_⟩
          rw [List.cons_append, skipTurn_line turbo control slash_z,
            takeWhile_append_of_newline z newline, width_eq, List.drop_succ_cons,
            List.drop_append_of_le_length line_le]
        · rw [if_neg line] at unit
          have line_z : ¬(c = '/' ∧ (after ++ z).head? = some '/') := by
            rintro ⟨rfl, slash⟩
            rw [ends.head?_append z (by decide)] at slash
            exact line ⟨rfl, slash⟩
          rw [List.cons_append, skipTurn_other control quote line_z, ends.directiveOpener_append]
          cases opens : directiveOpener (c :: after) with
          | none =>
              simp only [opens, Option.some.injEq] at unit
              subst unit
              exact ⟨Nat.one_pos, by simp, rfl⟩
          | some braced =>
              simp only [opens, Option.map_eq_some_iff] at unit
              obtain ⟨body, found, rfl⟩ := unit
              have not_branching := no_branching _ List.suffix_rfl braced opens
              rw [found, Option.any_some] at not_branching
              have width_le := directive_width_le opens found
              have opener_le : (opener braced).length + 1 ≤ (c :: after).length := by omega
              obtain ⟨behind, split_eq⟩ := findCloser_eq_some found
              have found_z : findCloser braced
                  ((c :: (after ++ z)).drop ((opener braced).length + 1)) = some body := by
                rw [← List.cons_append, List.drop_append_of_le_length opener_le]
                refine findCloser_append (x := []) z (by rwa [List.append_nil]) ?_
                rw [split_eq]
                simp
              refine ⟨by omega, width_le, ?_⟩
              simp only [found_z, onDeadDirective_of_not_branching control depth not_branching]
              rw [← List.cons_append, List.drop_append_of_le_length width_le]

/-- A quiet text is skipped as a whole. -/
theorem skips_quiet (turbo : opts.turbo = true) {fuel : Nat} {text : Text}
    (is_quiet : quiet fuel text = true) (ends : EndsClosed text) (no_branching : NoBranching text)
    {control : Control} {depth : Nat} (dead : control.skipDepth = some depth) (z : Text)
    (tokens : List (TokenKind × Text)) :
    Skips opts ⟨control, text ++ z, tokens⟩ ⟨control, z, tokens⟩ := by
  induction fuel generalizing text with
  | zero =>
      cases text with
      | nil => exact .refl _
      | cons c text => cases is_quiet
  | succ fuel induction =>
      cases text with
      | nil => exact .refl _
      | cons c text =>
          cases unit : quietUnit (c :: text) with
          | none => simp [quiet, unit] at is_quiet
          | some width =>
              have rest_quiet : quiet fuel ((c :: text).drop width) = true := by
                simpa [quiet, unit] using is_quiet
              obtain ⟨_, _, turn_eq⟩ := skipTurn_quietUnit turbo unit ends no_branching control z
                tokens depth
              have suffix := List.drop_suffix width (c :: text)
              refine .turn (show control.skipDepth = some depth from dead) (by simp) ?_
              rw [turn_eq]
              exact induction rest_quiet (ends.suffix suffix) (no_branching.suffix suffix)

/-- One turn over a byte that begins nothing. -/
theorem skipTurn_byte {c : Char} {z : Text} (valid : (Piece.byte c).Valid z.head?) (control : Control)
    (tokens : List (TokenKind × Text)) (depth : Nat) :
    skipTurn opts ⟨control, c :: z, tokens⟩ depth = ⟨control, z, tokens⟩ := by
  obtain ⟨not_quote, not_brace, not_paren, not_slash⟩ := valid
  have opens : directiveOpener (c :: z) = none := by
    have not_star : ¬(c = '(' ∧ z.head? = some '*' ∧ (z.drop 1).head? = some '$') :=
      fun star => not_paren star.1 star.2.1
    simp only [directiveOpener, not_brace, false_and, if_false, if_neg not_star]
  rw [skipTurn_other control not_quote fun line => not_slash line.1 line.2, opens]

/-- One turn over a directive. -/
theorem skipTurn_directive {braced : Bool} {body : Text}
    (valid : (Piece.directive braced body).Valid none) (control : Control) (z : Text)
    (tokens : List (TokenKind × Text)) (depth : Nat) :
    skipTurn opts ⟨control, (Piece.directive braced body).text ++ z, tokens⟩ depth =
      ⟨control.onDeadDirective depth body, z, tokens⟩ := by
  obtain ⟨opens, found⟩ := Piece.directive_found valid z
  have starts : ∃ c rest, (Piece.directive braced body).text ++ z = c :: rest ∧
      c ≠ '\'' ∧ c ≠ '/' := by
    cases braced
    · exact ⟨'(', _, rfl, by decide, by decide⟩
    · exact ⟨'{', _, rfl, by decide, by decide⟩
  obtain ⟨c, rest, text_eq, not_quote, not_slash⟩ := starts
  have drop_eq : ((Piece.directive braced body).text ++ z).drop
      ((opener braced).length + 1 + body.length + (closer braced).length) = z := by
    refine List.drop_left' ?_
    simp [Piece.text]
    omega
  rw [text_eq] at opens found drop_eq ⊢
  rw [skipTurn_other control not_quote fun line => not_slash line.1, opens]
  simp only [found, drop_eq]

/-- The raw scan over pieces whose comments are quiet reads them as they are. -/
theorem skips_pieces (turbo : opts.turbo = true) {pieces : List Piece} (lexical : Lexical pieces)
    (is_quiet : QuietPieces pieces) (keep_out : CommentsKeepOut pieces) {depth inner : Nat}
    (nests : nesting depth pieces = some inner) (control : Control)
    (dead : control.skipDepth = some depth) {x : Text} (stops : StopsToken x)
    (tokens : List (TokenKind × Text)) :
    Skips opts ⟨control, textOf pieces ++ x, tokens⟩
      ⟨{ control with skipDepth := some inner }, x, tokens⟩ := by
  induction pieces generalizing depth control with
  | nil =>
      obtain rfl := Option.some.inj nests
      have same : ({ control with skipDepth := some depth } : Control) = control := by rw [← dead]
      rw [same]
      exact .refl _
  | cons piece pieces induction =>
      obtain ⟨valid, lexical⟩ := lexical
      have later_quiet : QuietPieces pieces := fun braced body member =>
        is_quiet braced body (List.mem_cons_of_mem piece member)
      have later_out : CommentsKeepOut pieces := fun braced body member =>
        keep_out braced body (List.mem_cons_of_mem piece member)
      have rest {depth : Nat} (nests : nesting depth pieces = some inner) {control : Control}
          (dead : control.skipDepth = some depth) :=
        induction lexical later_quiet later_out nests control dead
      have text_ne : textOf (piece :: pieces) ++ x ≠ [] := by simp [piece.text_ne_nil]
      cases piece with
      | byte c =>
          refine .turn dead text_ne ?_
          rw [textOf_cons, Piece.text, List.append_assoc, List.singleton_append,
            skipTurn_byte (valid.append stops)]
          exact rest nests dead
      | quoted body =>
          refine .turn dead text_ne ?_
          have text_eq : textOf (.quoted body :: pieces) ++ x =
              '\'' :: (body ++ '\'' :: (textOf pieces ++ x)) := by simp [Piece.text]
          rw [text_eq, skipTurn_quote, closingQuote_quoted valid.1 (valid.append stops).2,
            Option.getD_some]
          have drop_eq : (body ++ '\'' :: (textOf pieces ++ x)).drop (body.length + 1) =
              textOf pieces ++ x := by
            rw [← List.singleton_append, ← List.append_assoc]
            exact List.drop_left' (by simp)
          rw [drop_eq]
          exact rest nests dead
      | line body =>
          refine .turn dead text_ne ?_
          have text_eq : textOf (.line body :: pieces) ++ x =
              '/' :: ('/' :: body ++ '\n' :: (textOf pieces ++ x)) := by simp [Piece.text]
          have line_eq : ('/' :: body ++ '\n' :: (textOf pieces ++ x)).takeWhile (· != '\n') =
              '/' :: body := by
            rw [List.takeWhile_append_of_pos]
            · simp
            · intro c member
              rw [bne_iff_ne]
              rintro rfl
              rcases List.mem_cons.mp member with equal | later
              · cases equal
              · exact valid later
          rw [text_eq, skipTurn_line turbo control rfl, line_eq, List.drop_left]
          refine .turn dead (by simp) ?_
          have newline : (Piece.byte '\n').Valid (textOf pieces ++ x).head? := by
            simp [Piece.Valid]
          rw [skipTurn_byte newline]
          exact rest nests dead
      | comment braced body =>
          rw [textOf_cons, List.append_assoc]
          exact (skips_quiet turbo (is_quiet braced body List.mem_cons_self)
            (Piece.comment_endsClosed braced body) (keep_out braced body List.mem_cons_self) dead _
            tokens).trans (rest nests dead)
      | directive braced body =>
          obtain ⟨next, step_eq, nests⟩ := Option.bind_eq_some_iff.mp nests
          refine .turn dead text_ne ?_
          rw [textOf_cons, List.append_assoc, skipTurn_directive valid,
            onDeadDirective_of_nestingStep dead step_eq]
          exact rest nests rfl

end Reader

end Plang
