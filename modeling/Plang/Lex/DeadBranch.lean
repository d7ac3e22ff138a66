import Plang.Lex.DeadText
import Plang.Lex.IncludePasting
import Plang.Lex.LiveText

/-!
# The end of a dead branch

The raw scan over a branch stops at the directive that ends the branch exactly when the comments of
the branch are quiet: a comment that is not quiet makes it miss the end of some branch that begins in
the same way.
-/

namespace Plang

/-- The last character of a closing delimiter. -/
def closerChar (braced : Bool) : Char := if braced then '}' else ')'

theorem findCloser_append_none {braced : Bool} {text z : Text}
    (unclosed : findCloser braced text = none) (no_closer : closerChar braced ∉ z) :
    findCloser braced (text ++ z) = none := by
  have none_in : ∀ z : Text, closerChar braced ∉ z → findCloser braced z = none := by
    intro z no_closer
    induction z with
    | nil => rfl
    | cons c z induction =>
        rw [List.mem_cons, not_or] at no_closer
        have still_open : ¬closesHere braced c z = true := by
          rw [closesHere_iff]
          rintro ⟨tail, text_eq⟩
          cases braced with
          | true => exact no_closer.1 (List.cons.inj text_eq).1.symm
          | false =>
              refine no_closer.2 ?_
              rw [(List.cons.inj text_eq).2]
              exact List.mem_cons_self
        rw [findCloser, if_neg still_open, induction no_closer.2]
        rfl
  induction text with
  | nil => exact none_in z no_closer
  | cons c text induction =>
      rw [List.cons_append, findCloser]
      rw [findCloser] at unclosed
      split at unclosed
      case isTrue => cases unclosed
      case isFalse still_open =>
        have still_open_z : ¬closesHere braced c (text ++ z) = true := by
          cases text with
          | cons d text => exact still_open
          | nil =>
              rw [closesHere_iff] at still_open ⊢
              rintro ⟨tail, text_eq⟩
              cases braced with
              | true => exact still_open ⟨[], by rw [(List.cons.inj text_eq).1]; rfl⟩
              | false =>
                  refine no_closer ?_
                  rw [← List.nil_append z, (List.cons.inj text_eq).2]
                  exact List.mem_cons_self
        rw [if_neg still_open_z, induction (Option.map_eq_none_iff.mp unclosed)]
        rfl

theorem nesting_append (depth : Nat) (front back : List Piece) :
    nesting depth (front ++ back) = (nesting depth front).bind fun inner => nesting inner back := by
  induction front generalizing depth with
  | nil => rfl
  | cons piece front induction =>
      cases piece with
      | directive braced body =>
          simp only [List.cons_append, nesting, Option.bind_assoc]
          congr 1
          funext inner
          exact induction inner
      | _ => exact induction depth

theorem nesting_closings (braced : Bool) (depth : Nat) :
    nesting depth (List.replicate depth (.directive braced "ENDIF".toList)) = some 0 := by
  induction depth with
  | zero => rfl
  | succ depth induction =>
      have step_eq : nestingStep (depth + 1) "ENDIF".toList = some depth := by
        unfold nestingStep
        rw [show opensConditional "ENDIF".toList = false by decide,
          show closesConditional "ENDIF".toList = true by decide]
        simp
      rw [List.replicate_succ, nesting, step_eq]
      exact induction

/-- Either all comments are quiet, or there is a first one that is not. -/
theorem quietPieces_or_first_noisy (pieces : List Piece) :
    QuietPieces pieces ∨ ∃ front braced body back, pieces = front ++ .comment braced body :: back ∧
      QuietPieces front ∧ ¬QuietComment braced body := by
  induction pieces with
  | nil => exact .inl fun _ _ member => absurd member List.not_mem_nil
  | cons piece pieces induction =>
      by_cases noisy : ∃ braced body, piece = .comment braced body ∧ ¬QuietComment braced body
      · obtain ⟨braced, body, rfl, not_quiet⟩ := noisy
        exact .inr ⟨[], braced, body, pieces, rfl, fun _ _ member => absurd member List.not_mem_nil,
          not_quiet⟩
      · have first {front : List Piece} (rest : QuietPieces front) :
            QuietPieces (piece :: front) := by
          intro braced body member
          rcases List.mem_cons.mp member with equal | later
          · by_contra not_quiet
            exact noisy ⟨braced, body, equal.symm, not_quiet⟩
          · exact rest braced body later
        rcases induction with rest | ⟨front, braced, body, back, rfl, rest, not_quiet⟩
        · exact .inl (first rest)
        · exact .inr ⟨piece :: front, braced, body, back, rfl, first rest, not_quiet⟩

namespace Reader

variable {opts : LangOptions}

/-- What the raw scan begins to read in a text that is not quiet goes on over directives of one kind
up to the next quote and the end of the text. -/
theorem skipTurn_noisy (turbo : opts.turbo = true) {c : Char} {after : Text}
    (noisy : quietUnit (c :: after) = none) (ends : EndsClosed (c :: after)) :
    ∃ braced, ∀ z, '\'' ∉ z → '\n' ∉ z → closerChar (!braced) ∉ z → ∀ control depth tokens,
      ∃ control', skipTurn opts ⟨control, c :: after ++ z ++ ['\''], tokens⟩ depth =
        ⟨control', [], tokens⟩ := by
  unfold quietUnit at noisy
  simp only at noisy
  by_cases quote : c = '\''
  · subst quote
    rw [if_pos rfl] at noisy
    refine ⟨true, fun z no_quote no_newline _ control depth tokens => ⟨control, ?_⟩⟩
    cases closes : closingQuote after with
    | some width => simp [closes] at noisy
    | none =>
        simp only [closes, ite_eq_right_iff, reduceCtorEq, imp_false] at noisy
        have whole := closingQuote_append_of_open closes
          (by rw [List.mem_append, not_or]; exact ⟨noisy, no_newline⟩) no_quote
        rw [List.cons_append, List.cons_append, skipTurn_quote, whole, Option.getD_some,
          List.drop_eq_nil_of_le (by simp; omega)]
  · rw [if_neg quote] at noisy
    by_cases line : c = '/' ∧ after.head? = some '/'
    · rw [if_pos line, ite_eq_right_iff] at noisy
      obtain ⟨rfl, slash⟩ := line
      have no_newline_after : '\n' ∉ after := fun newline => by cases noisy newline
      refine ⟨true, fun z no_quote no_newline _ control depth tokens => ⟨control, ?_⟩⟩
      have slash_z : (after ++ z ++ ['\'']).head? = some '/' := by
        rw [List.append_assoc, ends.head?_append _ (by decide)]
        exact slash
      have whole : '\n' ∉ after ++ z ++ ['\''] := by simp [no_newline_after, no_newline]
      rw [List.cons_append, List.cons_append, skipTurn_line turbo control slash_z,
        takeWhile_eq_self_of_no_newline whole, List.drop_length]
    · rw [if_neg line] at noisy
      cases opens : directiveOpener (c :: after) with
      | none => simp [opens] at noisy
      | some braced =>
          simp only [opens, Option.map_eq_none_iff] at noisy
          refine ⟨!braced, fun z no_quote no_newline no_closer control depth tokens =>
            ⟨control.closeConditional, ?_⟩⟩
          rw [Bool.not_not] at no_closer
          have not_slash : c ≠ '/' := by
            rintro rfl
            simp [directiveOpener] at opens
          have opens_z : directiveOpener (c :: (after ++ (z ++ ['\'']))) = some braced := by
            rw [ends.directiveOpener_append, opens]
          obtain ⟨behind, text_eq⟩ := directiveOpener_eq_some opens
          have opener_le : (opener braced).length + 1 ≤ (c :: after).length := by simp [text_eq]
          have unclosed : findCloser braced
              ((c :: (after ++ (z ++ ['\'']))).drop ((opener braced).length + 1)) = none := by
            rw [← List.cons_append, List.drop_append_of_le_length opener_le]
            refine findCloser_append_none noisy ?_
            rw [List.mem_append, not_or]
            exact ⟨no_closer, by cases braced <;> simp [closerChar]⟩
          rw [List.append_assoc, List.cons_append, skipTurn_other control quote
            (fun line => not_slash line.1), opens_z]
          simp only [unclosed]

/-- The raw scan of a comment that is not quiet does not see what ends the branch. -/
theorem skips_noisy (turbo : opts.turbo = true) {fuel : Nat} {text : Text}
    (enough : text.length ≤ fuel) (noisy : ¬quiet fuel text = true) (ends : EndsClosed text)
    (no_branching : NoBranching text) :
    ∃ braced, ∀ z, '\'' ∉ z → '\n' ∉ z → closerChar (!braced) ∉ z →
      ∀ (control : Control) (depth : Nat) (tokens : List (TokenKind × Text)),
        control.skipDepth = some depth →
        ∃ control', Skips opts ⟨control, text ++ z ++ ['\''], tokens⟩ ⟨control', [], tokens⟩ := by
  induction fuel generalizing text with
  | zero =>
      obtain rfl := List.length_eq_zero_iff.mp (Nat.le_zero.mp enough)
      exact absurd rfl noisy
  | succ fuel induction =>
      cases text with
      | nil => exact absurd rfl noisy
      | cons c after =>
          cases unit : quietUnit (c :: after) with
          | none =>
              obtain ⟨braced, swallows⟩ := skipTurn_noisy turbo unit ends
              refine ⟨braced, fun z no_quote no_newline no_closer control depth tokens dead => ?_⟩
              obtain ⟨control', turn_eq⟩ := swallows z no_quote no_newline no_closer control depth
                tokens
              exact ⟨control', .single dead (by simp) turn_eq⟩
          | some width =>
              have noisy_rest : ¬quiet fuel ((c :: after).drop width) = true := by
                simpa [quiet, unit] using noisy
              have suffix := List.drop_suffix width (c :: after)
              have unit_turn := skipTurn_quietUnit turbo unit ends no_branching
              have width_pos : 0 < width := (unit_turn ⟨.Eof, false, [], [], ⟨0#16⟩, none⟩ [] [] 0).1
              have enough_rest : ((c :: after).drop width).length ≤ fuel := by
                rw [List.length_drop]
                omega
              obtain ⟨braced, swallows⟩ := induction enough_rest noisy_rest (ends.suffix suffix)
                (no_branching.suffix suffix)
              refine ⟨braced, fun z no_quote no_newline no_closer control depth tokens dead => ?_⟩
              obtain ⟨control', skips⟩ := swallows z no_quote no_newline no_closer control depth
                tokens dead
              refine ⟨control', .turn (show control.skipDepth = some depth from dead) (by simp) ?_⟩
              rw [List.append_assoc, (unit_turn control (z ++ ['\'']) tokens depth).2.2,
                ← List.append_assoc]
              exact skips

end Reader

/-- A turn of the raw scan before the end of its file is a turn of the reader of that file. -/
theorem Scanner.skip_in_file {s : Scanner} (rest_ne : s.rest ≠ []) (depth : Nat)
    (tokens : List (TokenKind × Text)) :
    Keeps s (s.skipToNextConditionalMarker depth) ∧
      Reader.skipTurn s.opts ⟨s.control, s.rest, tokens⟩ depth =
        ⟨(s.skipToNextConditionalMarker depth).control, (s.skipToNextConditionalMarker depth).rest,
          tokens⟩ := by
  obtain ⟨c, after, rest_eq⟩ := List.exists_cons_of_ne_nil rest_ne
  constructor
  · rcases s.skipToNextConditionalMarker_cases depth with keeps | ⟨frame, frames, rest_nil, _⟩
    · exact keeps
    · exact absurd rest_nil rest_ne
  · unfold skipToNextConditionalMarker Reader.skipTurn
    simp only [rest_eq]
    split_ifs
    · simp [Reader.drop, rest_eq]
    · simp [Reader.drop, rest_eq]
    · rw [← rest_eq]
      cases directiveOpener s.rest with
      | none => simp [Reader.drop]
      | some braced =>
          simp only [rawDirectiveBody]
          cases findCloser braced (s.rest.drop ((opener braced).length + 1)) with
          | none => simp [(Stays.abandonConditional _).rest]
          | some body =>
              simp only [(Stays.deadDirective ..).rest, control_deadDirective, control_moveTo,
                Reader.drop, rest_moveTo]
              simp [rest, bodyStart, Nat.add_assoc]

namespace Session

variable (fs : FileSystem) (allow : Nat → Bool)

/-- The raw scan of a session goes on as that of the reader of its file. -/
theorem run_skips (session : Session) {after : Reader}
    (skips : Reader.Skips session.scanner.opts (session.reader session.scanner.rest) after) :
    ∃ turns,
      (session.run fs allow turns).reader (session.run fs allow turns).scanner.rest = after ∧
      Scanner.Keeps session.scanner (session.run fs allow turns).scanner ∧
      (session.run fs allow turns).tokens = session.tokens ∧
      ∀ turn < turns, (session.run fs allow turn).scanner.skipDepth.isSome := by
  generalize start_eq : session.reader session.scanner.rest = start at skips
  generalize opts_eq : session.scanner.opts = opts at skips
  induction skips generalizing session with
  | refl => exact ⟨0, start_eq, .refl _, rfl, fun turn lt => absurd lt (Nat.not_lt_zero turn)⟩
  | @turn reader after depth dead rest_ne _ induction =>
      subst start_eq opts_eq
      have live : session.scanner.skipDepth = some depth := dead
      obtain ⟨keeps, turn_eq⟩ := Scanner.skip_in_file rest_ne depth
        (session.tokens.map fun token => (token.kind, token.lexeme))
      have step_eq : session.step fs allow =
          ⟨session.scanner.skipToNextConditionalMarker depth, session.tokens⟩ := by
        simp [step, Scanner.step, live]
      obtain ⟨turns, reader_eq, keeps_later, tokens_eq, dead_before⟩ :=
        @induction (session.step fs allow) (by rw [step_eq]; exact turn_eq.symm)
          (by rw [step_eq]; exact keeps.opts)
      refine ⟨turns + 1, ?_, ?_, ?_, ?_⟩
      · rw [run_succ']
        exact reader_eq
      · rw [run_succ']
        rw [step_eq] at keeps_later ⊢
        exact keeps.trans keeps_later
      · rw [run_succ', tokens_eq, step_eq]
      · intro turn lt
        cases turn with
        | zero => rw [run_zero, live]; rfl
        | succ turn =>
            rw [run_succ']
            exact dead_before turn (Nat.lt_of_succ_lt_succ lt)

/-- The session skips dead text up to a place of its file, and goes on there. -/
def Stops (session : Session) (rest : Text) : Prop :=
  ∃ turns, (session.run fs allow turns).scanner.skipDepth = none ∧
    (session.run fs allow turns).scanner.rest = rest ∧
    (session.run fs allow turns).scanner.fid = session.scanner.fid ∧
    (session.run fs allow turns).scanner.includeStack = session.scanner.includeStack ∧
    (session.run fs allow turns).tokens = session.tokens ∧
    ∀ turn < turns, (session.run fs allow turn).scanner.skipDepth.isSome

end Session

/-- The directive ends the dead branch: `{$ENDIF}`, or the `{$ELSE}` of a conditional none of whose
branches has been taken. -/
def Scanner.EndsBranch (s : Scanner) (body : Text) : Prop :=
  closesConditional body = true ∨ toLower (directiveName body) = "else".toList ∧
    ∃ frame frames, s.condStack = frame :: frames ∧ frame.anyBranchTaken = false ∧
      frame.seenElse = false

theorem Scanner.EndsBranch.live {s : Scanner} {body : Text} (ends : s.EndsBranch body) :
    (Control.onDeadDirective { s.control with skipDepth := some 0 } 0 body).skipDepth = none := by
  rcases ends with closes | ⟨is_else, frame, frames, stack_eq, not_taken, not_seen⟩
  · rw [closesConditional, beq_iff_eq] at closes
    simp only [Control.onDeadDirective, splitDirectiveBody, closes]
    rfl
  · have conditionals_eq : s.control.conditionals = (false, false) ::
        frames.map fun frame => (frame.anyBranchTaken, frame.seenElse) := by
      simp [control, stack_eq, not_taken, not_seen]
    simp only [Control.onDeadDirective, splitDirectiveBody, is_else]
    simp [Control.deadAlternative, conditionals_eq]

/-- Whatever follows on the line, the raw scan of the branch stops behind the directive that ends
it. -/
def StopsAtEnd (opts : LangOptions) (branch : List Piece) : Prop :=
  ∀ (fs : FileSystem) (allow : Nat → Bool) (session : Session) (braced : Bool) (body rest : Text),
    session.scanner.opts = opts → session.scanner.skipDepth = some 0 →
    (Piece.directive braced body).Valid none → session.scanner.EndsBranch body →
    session.scanner.rest = textOf branch ++ ((Piece.directive braced body).text ++ rest) →
    session.Stops fs allow rest

/-- The directives that close so many conditionals. -/
def closings (braced : Bool) (depth : Nat) : List Piece :=
  List.replicate depth (.directive braced "ENDIF".toList)

theorem stopsToken_directive (braced : Bool) (body rest : Text) :
    StopsToken ((Piece.directive braced body).text ++ rest) := by
  rw [Piece.text, List.append_assoc]
  exact stopsToken_opener braced _

theorem stopsToken_closings (braced : Bool) (depth : Nat) :
    StopsToken (textOf (closings braced depth)) := by
  cases depth with
  | zero => exact stopsToken_nil
  | succ depth => exact stopsToken_directive braced _ _

theorem lexical_closings (braced : Bool) (depth : Nat) : Lexical (closings braced depth) := by
  have valid : (Piece.directive braced "ENDIF".toList).Valid none := by
    cases braced <;> decide
  induction depth with
  | zero => trivial
  | succ depth induction => exact ⟨valid, induction⟩

/-- The raw scan of a branch whose comments are quiet stops where the branch ends. -/
theorem stopsAtEnd_of_quiet {opts : LangOptions} (turbo : opts.turbo = true) {branch : List Piece}
    (lexical : Lexical branch) (balanced : nesting 0 branch = some 0)
    (keep_out : CommentsKeepOut branch) (is_quiet : QuietPieces branch) :
    StopsAtEnd opts branch := by
  rintro fs allow session braced body rest rfl dead valid ends rest_eq
  have stops := stopsToken_directive braced body rest
  have to_end := Reader.skips_pieces turbo lexical is_quiet keep_out balanced
    session.scanner.control dead stops
    (session.tokens.map fun token => (token.kind, token.lexeme))
  have behind := to_end.trans (.single rfl (by simp [Piece.text_ne_nil])
    (Reader.skipTurn_directive valid _ rest _ 0))
  rw [← rest_eq] at behind
  obtain ⟨turns, reader_eq, keeps, tokens_eq, dead_before⟩ := Session.run_skips fs allow session behind
  have control_eq := congrArg Reader.control reader_eq
  have skipDepth_eq := congrArg Control.skipDepth control_eq
  exact ⟨turns, skipDepth_eq.trans ends.live, congrArg Reader.rest reader_eq, keeps.fid,
    keeps.includeStack, tokens_eq, dead_before⟩

theorem mem_closings_text {braced : Bool} {depth : Nat} {c : Char}
    (member : c ∈ textOf (closings braced depth) ++ (Piece.directive braced "ENDIF".toList).text) :
    c ≠ '\'' ∧ c ≠ '\n' ∧ c ≠ closerChar (!braced) := by
  have member_one : c ∈ (Piece.directive braced "ENDIF".toList).text := by
    rcases List.mem_append.mp member with early | last
    · obtain ⟨piece, piece_mem, c_mem⟩ := List.mem_flatMap.mp early
      rwa [List.eq_of_mem_replicate piece_mem] at c_mem
    · exact last
  have all_harmless : ((Piece.directive braced "ENDIF".toList).text.all fun c =>
      c != '\'' && c != '\n' && c != closerChar (!braced)) = true := by
    cases braced <;> decide
  simpa [and_assoc] using List.all_eq_true.mp all_harmless c member_one

/-- A comment that is not quiet makes the raw scan miss the end of a branch that it ends with. -/
theorem not_stopsAtEnd_of_noisy {opts : LangOptions} (turbo : opts.turbo = true)
    {front : List Piece} {braced : Bool} {body : Text}
    (lexical : Lexical (front ++ [.comment braced body]))
    (is_quiet : QuietPieces front) (noisy : ¬QuietComment braced body)
    (keep_out : CommentsKeepOut (front ++ [.comment braced body])) {depth : Nat}
    (nests : nesting 0 front = some depth) :
    ∃ braced', ¬StopsAtEnd opts (front ++ [.comment braced body] ++ closings braced' depth) := by
  have comment_mem : Piece.comment braced body ∈ front ++ [.comment braced body] := by simp
  obtain ⟨braced', swallows⟩ := Reader.skips_noisy turbo le_rfl noisy
    (Piece.comment_endsClosed braced body) (keep_out braced body comment_mem)
  refine ⟨braced', fun stops_at_end => ?_⟩
  generalize z_eq : textOf (closings braced' depth) ++
    (Piece.directive braced' "ENDIF".toList).text = z
  have harmless {c : Char} (member : c ∈ z) : c ≠ '\'' ∧ c ≠ '\n' ∧ c ≠ closerChar (!braced') := by
    rw [← z_eq] at member
    exact mem_closings_text member
  -- the branch, its end and a quote, in a buffer of their own
  let s : Scanner :=
    { opts, sm := {}, skipDepth := some 0
      text := textOf (front ++ [.comment braced body] ++ closings braced' depth) ++
        ((Piece.directive braced' "ENDIF".toList).text ++ ['\'']) }
  have valid : (Piece.directive braced' "ENDIF".toList).Valid none := by
    cases braced' <;> decide
  obtain ⟨turns, live, rest_eq, _⟩ := stops_at_end Session.noFiles (fun _ => false) ⟨s, []⟩ braced'
    "ENDIF".toList ['\''] rfl rfl valid (.inl (by decide)) rfl
  have text_eq : s.rest =
      textOf front ++ ((Piece.comment braced body).text ++ z ++ ['\'']) := by
    simp [s, Scanner.rest, ← z_eq]
  have stops : StopsToken ((Piece.comment braced body).text ++ z ++ ['\'']) := by
    rw [Piece.text, List.append_assoc, List.append_assoc]
    exact stopsToken_opener braced _
  have to_comment := Reader.skips_pieces turbo lexical.front is_quiet
    (fun braced body member => keep_out braced body (List.mem_append_left _ member)) nests s.control
    rfl stops []
  obtain ⟨control', to_end⟩ := swallows z (fun member => (harmless member).1 rfl)
    (fun member => (harmless member).2.1 rfl) (fun member => (harmless member).2.2 rfl)
    { s.control with skipDepth := some depth } depth [] rfl
  have skips := to_comment.trans to_end
  rw [← text_eq] at skips
  obtain ⟨last, reader_eq, keeps, _, dead_before⟩ := Session.run_skips Session.noFiles
    (fun _ => false) ⟨s, []⟩ skips
  have rest_nil := congrArg Reader.rest reader_eq
  rcases lt_or_ge turns last with lt | ge
  · have dead := dead_before turns lt
    rw [live] at dead
    cases dead
  · have done : (Session.run Session.noFiles (fun _ => false) ⟨s, []⟩ last).scanner.unread = [] :=
      (Scanner.unread_of_stack_nil _ keeps.includeStack).trans rest_nil
    have nothing := Session.unread_nil_of_done (.inl turbo) done ge
    rw [(List.append_eq_nil_iff.mp nothing).1] at rest_eq
    cases rest_eq

/-- Live text without directives is scanned up to the directive that follows. -/
def ArrivesLive (opts : LangOptions) (branch : List Piece) : Prop :=
  ∀ (allow : Nat → Bool) (session : Session) (braced : Bool) (body rest : Text),
    session.scanner.opts = opts → session.scanner.skipDepth = none →
    session.scanner.includeStack = [] →
    session.scanner.rest = textOf branch ++ ((Piece.directive braced body).text ++ rest) →
    ∃ turns, (session.run Session.noFiles allow turns).scanner.skipDepth = none ∧
      (session.run Session.noFiles allow turns).scanner.rest =
        (Piece.directive braced body).text ++ rest

theorem arrivesLive_of_plain {opts : LangOptions} (turbo : opts.turbo = true) {branch : List Piece}
    (lexical : Lexical branch) (plain : ∀ piece ∈ branch, piece.Plain) :
    ArrivesLive opts branch := by
  rintro allow session braced body rest rfl live stack_nil rest_eq
  obtain ⟨kind', force', tokens', turns, reads⟩ := Reader.reads_text allow turbo lexical
    plain session.scanner.control.prevKind session.scanner.control.forceExprStartOnce
    (session.tokens.map fun token => (token.kind, token.lexeme))
  obtain ⟨run_nil, _, run_eq⟩ := Session.run_noFiles allow stack_nil turns
  rw [Scanner.unread_of_stack_nil _ stack_nil, rest_eq] at run_eq
  have reader_eq := (reads session.scanner.control live _
    (stopsToken_directive braced body rest)).symm.trans run_eq
  refine ⟨turns, ?_, ?_⟩
  · have control_eq := congrArg (fun reader => reader.control.skipDepth) reader_eq
    exact control_eq.symm.trans live
  · rw [← Scanner.unread_of_stack_nil _ run_nil]
    exact (congrArg Reader.rest reader_eq).symm

/-- A branch is a sequence of pieces in which conditionals are nested; no directive in its comments
begins or ends a branch. -/
structure IsBranch (pieces : List Piece) : Prop where
  lexical : Lexical pieces
  balanced : nesting 0 pieces = some 0
  keep_out : CommentsKeepOut pieces

/-- Where the live scanner goes on up to the directive that ends a branch, the raw scan stops there
too, for the branch and for everything that begins in the same way and ends its conditionals, if and
only if the comments of the branch are quiet. -/
theorem dead_branch_recognised_iff {opts : LangOptions} (turbo : opts.turbo = true)
    {pieces : List Piece} (branch : IsBranch pieces) :
    ((∀ piece ∈ pieces, piece.Plain) → ArrivesLive opts pieces) ∧
      ((∀ front back, pieces = front ++ back → ∀ depth, nesting 0 front = some depth →
        ∀ braced, StopsAtEnd opts (front ++ closings braced depth)) ↔ QuietPieces pieces) := by
  refine ⟨arrivesLive_of_plain turbo branch.lexical, fun stops => ?_, fun is_quiet => ?_⟩
  · refine (quietPieces_or_first_noisy pieces).resolve_right ?_
    rintro ⟨front, braced, body, back, rfl, front_quiet, noisy⟩
    have split_eq : front ++ .comment braced body :: back =
        front ++ [.comment braced body] ++ back := by simp
    have balanced := branch.balanced
    rw [nesting_append] at balanced
    obtain ⟨depth, nests, _⟩ := Option.bind_eq_some_iff.mp balanced
    obtain ⟨braced', not_stops⟩ := not_stopsAtEnd_of_noisy turbo
      (split_eq ▸ branch.lexical).front front_quiet noisy
      (fun braced body member => branch.keep_out braced body (by
        rw [split_eq]
        exact List.mem_append_left _ member)) nests
    refine not_stops (stops (front ++ [.comment braced body]) back split_eq depth ?_ braced')
    rw [nesting_append, nests]
    rfl
  · rintro front back rfl depth nests braced
    have front_out : CommentsKeepOut (front ++ closings braced depth) := fun other body member => by
      rcases List.mem_append.mp member with early | late
      · exact branch.keep_out other body (List.mem_append_left _ early)
      · cases List.eq_of_mem_replicate late
    have front_quiet : QuietPieces (front ++ closings braced depth) := fun other body member => by
      rcases List.mem_append.mp member with early | late
      · exact is_quiet other body (List.mem_append_left _ early)
      · cases List.eq_of_mem_replicate late
    refine stopsAtEnd_of_quiet turbo ?_ ?_ front_out front_quiet
    · exact branch.lexical.front.append (lexical_closings braced depth)
        (stopsToken_closings braced depth)
    · rw [nesting_append, nests]
      exact nesting_closings braced depth

/-- A branch that consists of a comment. -/
def commentBranch (body : String) : List Piece :=
  [.byte ' ', .comment true body.toList, .byte ' ']

theorem isBranch_comment {body : String}
    (valid : (Piece.comment true body.toList).Valid none)
    (no_branching : NoBranching (Piece.comment true body.toList).text) :
    IsBranch (commentBranch body) := by
  refine ⟨?_, rfl, fun braced other member => ?_⟩
  · simpa [commentBranch, Lexical, Piece.Valid] using valid
  · obtain ⟨rfl, rfl⟩ : braced = true ∧ other = body.toList := by
      simpa [commentBranch] using member
    exact no_branching

theorem dead_branch_recognised_iff_quiet :
    ((∀ piece ∈ commentBranch "do", piece.Plain) →
        ArrivesLive { std := .Turbo } (commentBranch "do")) ∧
      ((∀ front back, commentBranch "do" = front ++ back → ∀ depth, nesting 0 front = some depth →
        ∀ braced, StopsAtEnd { std := .Turbo } (front ++ closings braced depth)) ↔
        QuietPieces (commentBranch "do")) :=
  dead_branch_recognised_iff rfl
    (isBranch_comment (by decide) (by decide))

/-- An apostrophe in a comment, and a string behind the end of the branch. -/
def apostropheText : String := " \x7b don't \x7d \x7b$ENDIF\x7d x := 'a';"

/-- A session that skips a text. -/
def deadSession (text : String) : Session :=
  ⟨{ opts := { std := .Turbo }, sm := .empty, skipDepth := some 0, text := text.toList }, []⟩

/-- In `{$IFDEF X} { don't } {$ENDIF} x := 'a';` the quote of the comment is taken for the beginning
of a string that ends in the statement, and the `{$ENDIF}` is not seen. -/
theorem dead_branch_missed :
    IsBranch (commentBranch " don't ") ∧
      ¬StopsAtEnd { std := .Turbo } (commentBranch " don't ") := by
  refine ⟨isBranch_comment (by decide) (by decide), fun stops_at_end => ?_⟩
  have valid : (Piece.directive true "ENDIF".toList).Valid none := by decide
  obtain ⟨turns, live, rest_eq, _⟩ := stops_at_end Session.noFiles (fun _ => false)
    (deadSession apostropheText) true "ENDIF".toList " x := 'a';".toList
    rfl rfl valid (.inl (by decide)) (by decide)
  have dead : ∀ turn < 10, ((deadSession apostropheText).run Session.noFiles
      (fun _ => false) turn).scanner.skipDepth.isSome := by
    decide +kernel
  have done : ((deadSession apostropheText).run Session.noFiles
      (fun _ => false) 10).scanner.unread = [] := by
    decide +kernel
  rcases lt_or_ge turns 10 with lt | ge
  · have dead_turn := dead turns lt
    rw [live] at dead_turn
    cases dead_turn
  · have nothing := Session.unread_nil_of_done (.inl rfl) done ge
    rw [(List.append_eq_nil_iff.mp nothing).1] at rest_eq
    cases rest_eq

end Plang
