import Plang.Parse.ExprRoundTrip
import Plang.Parse.StmtWriting

/-!
# Reading what statements are made of

The words, the expressions and the lists of a statement are read as they are written, and so is the
path of selections that a statement may begin with.
-/

namespace Plang.Statements

open Expressions Fuel

variable {ctx : Context} {manner : StmtManner} {state after : StmtState}
  {tokens rest : List Expressions.Token} {kind : TokenKind} {text : Text} {expr : ExprNode}

/-! ### Tokens in front of the parser -/

def StmtState.reading (state : StmtState) (tokens : List Expressions.Token) : StmtState :=
  { state with tokens }

/-- No expression is being read. -/
structure StmtState.Idle (state : StmtState) : Prop where
  exprDepth : state.exprDepth = 0
  valueDepth : state.valueDepth = 0
  exprLimit : state.exprDepthLimitHit = false
  valueLimit : state.valueDepthLimitHit = false

theorem StmtState.Idle.room (idle : state.Idle) {factors values : Nat}
    (few : factors ≤ MaxExprDepth) (le : values ≤ MaxValueDepth) :
    Room factors values state.toParserState where
  factors_le := by rw [idle.exprDepth]; omega
  values_le := by rw [idle.valueDepth]; omega
  exprLimit := idle.exprLimit
  valueLimit := idle.valueLimit

@[simp] theorem kind_token : (manner.token kind).kind = kind := rfl

section Steps

variable {α β : Type} {run : Bounded ParserState α} {result : α} {yes no : Bounded StmtState β}
  {last : β}

theorem lift_comes (comes : Comes run (state.toParserState.reading tokens) result
    (state.toParserState.reading rest)) :
    Comes (fun fuel => lift (run fuel)) (state.reading tokens) result (state.reading rest) := by
  obtain ⟨enough, comes⟩ := comes
  refine ⟨enough, fun fuel le => ?_⟩
  have ended := comes fuel le
  change (run fuel (state.toParserState.reading tokens)).map _ = _
  rw [ended]
  rfl

/-- The token that is asked for stands there. -/
theorem taken (more : Comes yes (state.reading tokens) last after) :
    Comes (fun fuel => lift (accept kind) >>= fun taken =>
      if taken = true then yes fuel else no fuel)
      (state.reading (⟨kind, text⟩ :: tokens)) last after := by
  apply more.of_eq
  intro fuel
  have step : lift (accept kind) (state.reading (⟨kind, text⟩ :: tokens)) =
      some (true, state.reading tokens) := by
    change (accept kind (state.toParserState.reading (⟨kind, text⟩ :: tokens))).map _ = _
    rw [accept_reading]
    rfl
  rw [bind_apply, step]
  rfl

/-- Another token stands there. -/
theorem passed (other : headKind tokens ≠ kind) (more : Comes no (state.reading tokens) last after) :
    Comes (fun fuel => lift (accept kind) >>= fun taken =>
      if taken = true then yes fuel else no fuel) (state.reading tokens) last after := by
  apply more.of_eq
  intro fuel
  have step : lift (accept kind) (state.reading tokens) = some (false, state.reading tokens) := by
    have refused : accept kind (state.toParserState.reading tokens) =
        some (false, state.toParserState.reading tokens) := accept_of_ne other
    change (accept kind (state.toParserState.reading tokens)).map _ = _
    rw [refused]
    rfl
  rw [bind_apply, step]
  rfl

theorem expecting {next : Expressions.Token → Bounded StmtState β}
    (more : Comes (next ⟨kind, text⟩) (state.reading tokens) last after) :
    Comes (fun fuel => lift (expect kind) >>= fun token => next token fuel)
      (state.reading (⟨kind, text⟩ :: tokens)) last after := by
  apply more.of_eq
  intro fuel
  have step : lift (expect kind) (state.reading (⟨kind, text⟩ :: tokens)) =
      some (⟨kind, text⟩, state.reading tokens) := by
    change (expect kind (state.toParserState.reading (⟨kind, text⟩ :: tokens))).map _ = _
    rw [expect_reading]
    rfl
  rw [bind_apply, step]
  rfl

theorem advancing {token : Expressions.Token} {next : Bounded StmtState β}
    (more : Comes next (state.reading tokens) last after) :
    Comes (fun fuel => lift advance >>= fun _ => next fuel) (state.reading (token :: tokens)) last
      after :=
  more.of_eq fun _ => rfl

theorem looking {next : Expressions.Token → Bounded StmtState β}
    (more : Comes (next (tokens.headD .eof)) (state.reading tokens) last after) :
    Comes (fun fuel => lift current >>= fun token => next token fuel) (state.reading tokens) last
      after :=
  more.of_eq fun _ => rfl

theorem checked (more : Comes yes (state.reading tokens) last after)
    (same : headKind tokens = kind) :
    Comes (fun fuel => lift (check kind) >>= fun found => if found = true then yes fuel else no fuel)
      (state.reading tokens) last after := by
  apply more.of_eq
  intro fuel
  have step : lift (check kind) (state.reading tokens) = some (true, state.reading tokens) := by
    change some (headKind tokens == kind, _) = _
    rw [same, beq_self_eq_true]
  rw [bind_apply, step]
  rfl

theorem unchecked (other : headKind tokens ≠ kind)
    (more : Comes no (state.reading tokens) last after) :
    Comes (fun fuel => lift (check kind) >>= fun found => if found = true then yes fuel else no fuel)
      (state.reading tokens) last after := by
  apply more.of_eq
  intro fuel
  have step : lift (check kind) (state.reading tokens) = some (false, state.reading tokens) := by
    change some (headKind tokens == kind, _) = _
    rw [beq_eq_false_iff_ne.mpr other]
  rw [bind_apply, step]
  rfl

theorem unreported {condition : Bool} {error : StmtError} {next : Bounded StmtState β}
    (no : condition = false) (more : Comes next state last after) :
    Comes (fun fuel => reportWhen condition error >>= fun _ => next fuel) state last after := by
  subst no
  exact more.of_eq fun _ => rfl

end Steps

/-! ### Expressions -/

@[simp] theorem exprs_stmtParsers (fuel : Nat) :
    (stmtParsers ctx fuel).exprs = ctx.parsers fuel := by
  cases fuel <;> rfl

theorem readBack_of_hasExpr {level : Nat} (present : hasExpr ctx manner level expr = true) :
    ctx.ReadBack manner.toManner expr true := by
  rw [hasExpr, Bool.and_eq_true, Bool.and_eq_true] at present
  rw [← present.1.2]
  exact (recovery manner.toManner expr).1.whole present.1.1

theorem depths_of_hasExpr {level : Nat} (present : hasExpr ctx manner level expr = true) :
    manner.factorDepth level expr ≤ MaxExprDepth ∧ expr.valueDepth ≤ MaxValueDepth := by
  rw [hasExpr, Bool.and_eq_true, decide_eq_true_eq] at present
  exact present.2

theorem exprReads_of_hasExpr (present : hasExpr ctx manner 0 expr = true) :
    ctx.ExprReads (manner.write 0 expr) expr MaxExprDepth MaxValueDepth true :=
  have depths := depths_of_hasExpr present
  (readBack_of_hasExpr present).expression.deepen depths.1 depths.2

theorem starts_of_hasExpr {level : Nat} (present : hasExpr ctx manner level expr = true)
    (other : Nat) (rest : List Expressions.Token) :
    startsExpr (headKind (manner.write other expr ++ rest)) = true := by
  rw [hasExpr, Bool.and_eq_true, Bool.and_eq_true] at present
  exact (starts_write manner.toManner other expr .expression rest (by decide) present.1.1).1

theorem startsFactor_of_hasExpr {level : Nat} (present : hasExpr ctx manner level expr = true)
    (rest : List Expressions.Token) :
    startsFactor (headKind (manner.write 4 expr ++ rest)) = true := by
  rw [hasExpr, Bool.and_eq_true, Bool.and_eq_true] at present
  exact (starts_write manner.toManner 4 expr .expression rest (by decide) present.1.1).2 (by decide)

theorem expression_comes (present : hasExpr ctx manner 0 expr = true) (idle : state.Idle)
    (ends : endsLevel 0 (headKind rest) = true) :
    Comes (fun fuel => lift (stmtParsers ctx fuel).exprs.parseExpression)
      (state.reading (manner.write 0 expr ++ rest)) expr (state.reading rest) := by
  simp only [exprs_stmtParsers]
  exact lift_comes (exprReads_of_hasExpr present state.toParserState rest
    (idle.room (Nat.le_refl _) (Nat.le_refl _)) ends).comes

theorem factor_comes (present : hasExpr ctx manner 4 expr = true) (idle : state.Idle)
    (ends : follows (headKind rest) = true) :
    Comes (fun fuel => lift (stmtParsers ctx fuel).exprs.parseFactor)
      (state.reading (manner.write 4 expr ++ rest)) expr (state.reading rest) := by
  have depths := depths_of_hasExpr present
  simp only [exprs_stmtParsers]
  exact lift_comes ((readBack_of_hasExpr present).factor state.toParserState rest
    (idle.room depths.1 depths.2) ends).comes

/-! ### Lists with commas -/

/-- Something, and again behind each comma. -/
theorem withCommas_comes {α : Type} (one : Bounded StmtState α) (before : TokenKind → Bool)
    {list : Bounded StmtState (List α)} {write : α → List Expressions.Token} {items : List α}
    (called : ∀ fuel, list (fuel + 1) = one fuel >>= fun item =>
      (lift (accept .Comma) >>= fun taken => if taken = true then list fuel else pure []) >>=
        fun items => pure (item :: items))
    (between : before .Comma = true) (ne : items ≠ [])
    (each : ∀ item ∈ items, ∀ rest, before (headKind rest) = true →
      Comes one (state.reading (write item ++ rest)) item (state.reading rest))
    (ends : before (headKind rest) = true) (other : headKind rest ≠ .Comma) :
    Comes list (state.reading (withCommas manner write items ++ rest)) items
      (state.reading rest) := by
  induction items with
  | nil => exact absurd rfl ne
  | cons item items induction =>
      apply Comes.call _ called
      rw [withCommas, List.append_assoc]
      cases items with
      | nil =>
          have first := each item List.mem_cons_self rest ends
          exact first.bind ((passed other (.pure [] _)).bind (.pure _ _))
      | cons second items =>
          have more := induction (List.cons_ne_nil _ _) fun item listed =>
            each item (List.mem_cons_of_mem _ listed)
          have split : behindComma manner write (second :: items) ++ rest =
              manner.token .Comma :: (withCommas manner write (second :: items) ++ rest) := by
            simp [behindComma, withCommas]
          rw [split]
          have first := each item List.mem_cons_self
            (manner.token .Comma :: (withCommas manner write (second :: items) ++ rest)) between
          exact first.bind ((taken more).bind (.pure _ _))

/-- Behind an argument there is a comma or the parenthesis. -/
theorem endsLevel_of_endsArgument {kind : TokenKind} (ends : endsArgument kind = true) :
    endsLevel 0 kind = true ∧ kind ≠ .Colon := by
  revert ends
  cases kind <;> decide

theorem callArgument_comes {write : Bool} {arg : Argument}
    (present : hasArgument ctx manner write arg = true) (idle : state.Idle)
    (ends : endsArgument (headKind rest) = true) :
    Comes (fun fuel => callArgument (stmtParsers ctx fuel) write)
      (state.reading (writeArgument manner arg ++ rest)) arg (state.reading rest) := by
  obtain ⟨ended, colon⟩ := endsLevel_of_endsArgument ends
  cases arg with
  | expr value =>
      rw [hasArgument] at present
      have read := expression_comes present idle ended
      cases write with
      | false => exact read.bind (.pure _ _)
      | true => exact read.bind (passed colon (.pure _ _))
  | writeParam value width decimals =>
      simp only [hasArgument, Bool.and_eq_true] at present
      obtain ⟨⟨⟨rfl, value_present⟩, width_present⟩, decimals_present⟩ := present
      cases decimals with
      | none =>
          rw [writeArgument, List.append_assoc, List.cons_append]
          exact (expression_comes value_present idle rfl).bind
            (taken ((expression_comes width_present idle ended).bind
              ((passed colon (.pure _ _)).bind (.pure _ _))))
      | some decimals =>
          rw [writeArgument, List.append_assoc, List.cons_append, List.append_assoc,
            List.cons_append]
          exact (expression_comes value_present idle rfl).bind
            (taken ((expression_comes width_present idle rfl).bind
              ((taken ((expression_comes decimals_present idle ended).bind (.pure _ _))).bind
                (.pure _ _))))

theorem callArguments_comes {write : Bool} {args : List Argument} (ne : args ≠ [])
    (present : args.all (hasArgument ctx manner write) = true) (idle : state.Idle) :
    Comes (fun fuel => (stmtParsers ctx fuel).callArguments write)
      (state.reading (withCommas manner (writeArgument manner) args ++ ⟨.RightParen, text⟩ :: rest))
      args (state.reading (⟨.RightParen, text⟩ :: rest)) :=
  withCommas_comes (fun fuel => callArgument (stmtParsers ctx fuel) write) endsArgument
    (fun _ => rfl) (by decide) ne (fun arg listed _ ends =>
      callArgument_comes (List.all_eq_true.mp present arg listed) idle ends) rfl (by simp)

theorem withRecords_comes {records : List ExprNode} (ne : records ≠ [])
    (present : records.all (hasExpr ctx manner 4) = true) (idle : state.Idle) :
    Comes (fun fuel => (stmtParsers ctx fuel).withRecords)
      (state.reading (withCommas manner (manner.write 4) records ++ ⟨.Do, text⟩ :: rest))
      records (state.reading (⟨.Do, text⟩ :: rest)) :=
  withCommas_comes (fun fuel => lift (stmtParsers ctx fuel).exprs.parseFactor) follows
    (fun _ => rfl) (by decide) ne (fun record listed _ ends =>
      factor_comes (List.all_eq_true.mp present record listed) idle ends) rfl (by simp)

/-! ### Case labels -/

theorem caseConstant_comes {constant : ExprNode} (present : hasConstant ctx manner constant = true)
    (idle : state.Idle) (ends : follows (headKind rest) = true) :
    Comes (fun fuel => parseCaseConstant (stmtParsers ctx fuel))
      (state.reading (writeConstant manner constant ++ rest)) constant (state.reading rest) := by
  have unsigned : hasExpr ctx manner 4 constant = true →
      Comes (fun fuel => parseCaseConstant (stmtParsers ctx fuel))
        (state.reading (manner.write 4 constant ++ rest)) constant (state.reading rest) := by
    intro present
    have starts := startsFactor_of_hasExpr present rest
    have plus : headKind (manner.write 4 constant ++ rest) ≠ .Plus := by
      intro wrong
      rw [wrong] at starts
      exact absurd starts (by decide)
    have minus : headKind (manner.write 4 constant ++ rest) ≠ .Minus := by
      intro wrong
      rw [wrong] at starts
      exact absurd starts (by decide)
    exact passed plus (passed minus (factor_comes present idle ends))
  unfold writeConstant
  unfold hasConstant at present
  split at present
  · exact passed (by simp) (taken ((factor_comes present idle ends).bind (.pure _ _)))
  · exact unsigned present

theorem caseLabel_comes {label : CaseLabel} (present : hasLabel ctx manner label = true)
    (idle : state.Idle) (ends : follows (headKind rest) = true)
    (other : headKind rest ≠ .DotDot) :
    Comes (fun fuel => parseCaseLabel ctx (stmtParsers ctx fuel))
      (state.reading (writeLabel manner label ++ rest)) label (state.reading rest) := by
  obtain ⟨low, high⟩ := label
  rw [hasLabel, Bool.and_eq_true] at present
  obtain ⟨low_present, high_present⟩ := present
  cases high with
  | none =>
      exact (caseConstant_comes low_present idle ends).bind
        ((unchecked other (.pure _ _)).bind (.pure _ _))
  | some high =>
      have parts : hasCaseConstantRanges ctx.opts = true ∧ hasConstant ctx manner high = true := by
        simpa using high_present
      rw [writeLabel, List.append_assoc, List.cons_append]
      have quiet : (!hasCaseConstantRanges ctx.opts) = false := by rw [parts.1, Bool.not_true]
      have behind : Comes (fun fuel => highEnd ctx (stmtParsers ctx fuel))
          (state.reading (manner.token .DotDot :: (writeConstant manner high ++ rest))) (some high)
          (state.reading rest) :=
        checked (unreported quiet
          (advancing ((caseConstant_comes parts.2 idle ends).bind (.pure _ _)))) rfl
      exact (caseConstant_comes low_present idle rfl).bind (behind.bind (.pure _ _))

/-- Behind a label there is a comma or the colon. -/
def endsCaseLabel (kind : TokenKind) : Bool := kind == .Comma || kind == .Colon

theorem caseLabels_comes {labels : List CaseLabel} (ne : labels ≠ [])
    (present : labels.all (hasLabel ctx manner) = true) (idle : state.Idle) :
    Comes (fun fuel => (stmtParsers ctx fuel).caseLabels)
      (state.reading (withCommas manner (writeLabel manner) labels ++ ⟨.Colon, text⟩ :: rest))
      labels (state.reading (⟨.Colon, text⟩ :: rest)) := by
  apply withCommas_comes (fun fuel => parseCaseLabel ctx (stmtParsers ctx fuel)) endsCaseLabel
    (fun _ => rfl) (by decide) ne _ rfl (by simp)
  intro label listed rest ends
  have ended : follows (headKind rest) = true ∧ headKind rest ≠ .DotDot := by
    revert ends
    cases headKind rest <;> decide
  exact caseLabel_comes (List.all_eq_true.mp present label listed) idle ended.1 ended.2

end Plang.Statements
