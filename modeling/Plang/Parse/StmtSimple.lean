import Plang.Parse.StmtPaths

/-!
# Statements without others in them

An activation counts itself and is taken away again; within it, what is written of a statement that
has no other in it is read as the statement.
-/

namespace Plang.Statements

open Expressions Fuel

variable {ctx : Context} {manner : StmtManner} {state after : StmtState}
  {tokens rest : List Expressions.Token} {kind : TokenKind} {text : Text} {expr : ExprNode}
  {stmt : StmtNode} {stmts : List StmtNode} {depth : Nat}

/-! ### Activations -/

/-- The state has room for so many activations more, and no expression is being read. -/
structure Ready (depth : Nat) (state : StmtState) : Prop where
  idle : state.Idle
  depth_le : state.stmtDepth + depth ≤ MaxStmtDepth
  limit : state.stmtDepthLimitHit = false

/-- The state in an activation. -/
def StmtState.deeper (state : StmtState) : StmtState :=
  { state with stmtDepth := state.stmtDepth + 1 }

theorem Ready.weaken {less : Nat} (ready : Ready depth state) (le : less ≤ depth) :
    Ready less state :=
  ⟨ready.idle, by have := ready.depth_le; omega, ready.limit⟩

theorem Ready.deeper (ready : Ready (depth + 1) state) : Ready depth state.deeper where
  idle := ⟨ready.idle.exprDepth, ready.idle.valueDepth, ready.idle.exprLimit, ready.idle.valueLimit⟩
  depth_le := by
    have := ready.depth_le
    change state.stmtDepth + 1 + depth ≤ MaxStmtDepth
    omega
  limit := ready.limit

/-- The tokens that may follow a statement. -/
def endsStmt : TokenKind → Bool
  | .Semicolon | .End | .Until | .Else | .Otherwise | .Eof => true
  | _ => false

theorem endsLevel_of_endsStmt (ends : endsStmt kind = true) : endsLevel 0 kind = true := by
  revert ends
  cases kind <;> decide

theorem follows_of_endsStmt (ends : endsStmt kind = true) : follows kind = true :=
  endsLevel_mono (Nat.zero_le 4) (endsLevel_of_endsStmt ends)

theorem beyond_of_endsStmt (ends : endsStmt kind = true) : beyond expr kind = true := by
  cases expr with
  | field record field =>
      apply decide_eq_true
      rintro rfl
      cases ends
  | _ => rfl

theorem ne_of_endsStmt {other : TokenKind} (ends : endsStmt kind = true)
    (never : endsStmt other = false) : kind ≠ other := by
  rintro rfl
  rw [ends] at never
  cases never

/-- An activation counts itself, reads a statement, and takes itself away again. -/
theorem statement_comes (ready : Ready (depth + 1) state)
    (body : Ready depth state.deeper → Comes (fun fuel =>
      statementAt ctx (stmtParsers ctx fuel) (tokens.headD .eof)) (state.deeper.reading tokens) stmt
        (state.deeper.reading rest)) :
    Comes (fun fuel => (stmtParsers ctx fuel).parseStatement) (state.reading tokens) stmt
      (state.reading rest) := by
  have within : ¬ MaxStmtDepth < state.stmtDepth + 1 := by
    have := ready.depth_le
    omega
  have left : leaveStmtDepth (state.deeper.reading rest) = some ((), state.reading rest) := by
    have same : (if state.stmtDepth + 1 - 1 = 0 then false else state.stmtDepthLimitHit) =
        state.stmtDepthLimitHit := by
      rw [ready.limit, ite_self]
    change some ((), { state.reading rest with
      stmtDepth := state.stmtDepth + 1 - 1
      stmtDepthLimitHit := if state.stmtDepth + 1 - 1 = 0 then false else state.stmtDepthLimitHit }) =
        _
    rw [same]
    rfl
  apply Comes.call (fun fuel => parseStatement ctx (stmtParsers ctx fuel)) fun _ => rfl
  have bounded : Comes (fun fuel => boundedStatement ctx (stmtParsers ctx fuel))
      (state.deeper.reading tokens) stmt (state.deeper.reading rest) := by
    apply (body ready.deeper).of_eq
    intro fuel
    change (if _ then _ else _ : ParseStmt StmtNode) (state.deeper.reading tokens) = _
    exact congrFun (if_neg within) _
  have close : Comes (fun _ => leaveStmtDepth >>= fun _ => (pure stmt : ParseStmt StmtNode))
      (state.deeper.reading rest) stmt (state.reading rest) := by
    refine (Comes.pure _ (state.reading rest)).of_eq fun fuel => ?_
    rw [bind_apply, left]
    rfl
  have whole : Comes (fun fuel => boundedStatement ctx (stmtParsers ctx fuel) >>= fun stmt =>
      leaveStmtDepth >>= fun _ => pure stmt) (state.deeper.reading tokens) stmt
      (state.reading rest) :=
    bounded.bind close
  exact whole.of_eq fun _ => rfl

/-- A statement is read back from what is written of it. -/
def StmtReads (ctx : Context) (manner : StmtManner) (stmt : StmtNode) : Prop :=
  ∀ state rest, Ready (stmt.depth ctx.opts.turbo) state → endsStmt (headKind rest) = true →
    (stmt.isOpen = true → headKind rest ≠ .Else) →
      Comes (fun fuel => (stmtParsers ctx fuel).parseStatement)
        (state.reading (writeStmt ctx manner stmt ++ rest)) stmt (state.reading rest)

/-- Where nothing begins a statement, there is the empty one. -/
theorem empty_comes (ready : Ready 1 state) (ends : endsStmt (headKind rest) = true) :
    Comes (fun fuel => (stmtParsers ctx fuel).parseStatement) (state.reading rest) .null
      (state.reading rest) := by
  apply statement_comes ready
  intro _
  refine (Comes.pure _ (state.deeper.reading rest)).of_eq fun fuel => ?_
  unfold statementAt
  revert ends
  change endsStmt (rest.headD .eof).kind = true → _
  generalize (rest.headD .eof).kind = kind
  cases kind <;> first | exact fun _ => rfl | exact fun wrong => absurd wrong (by decide)

theorem null_reads : StmtReads ctx manner .null := by
  intro state rest ready ends _
  rw [writeStmt, List.nil_append]
  exact empty_comes ready ends

theorem reads_of_nested (deeper : stmt.depth ctx.opts.turbo = depth + 1)
    (body : ∀ (state : StmtState) rest, Ready depth state → endsStmt (headKind rest) = true →
      (stmt.isOpen = true → headKind rest ≠ .Else) →
        Comes (fun fuel => statementAt ctx (stmtParsers ctx fuel)
          ((writeStmt ctx manner stmt ++ rest).headD .eof))
          (state.reading (writeStmt ctx manner stmt ++ rest)) stmt (state.reading rest)) :
    StmtReads ctx manner stmt := by
  intro state rest ready ends alone
  rw [deeper] at ready
  exact statement_comes ready fun inner => body state.deeper rest inner ends alone

theorem reads_of_body (one : stmt.depth ctx.opts.turbo = 1)
    (body : ∀ (state : StmtState) rest, state.Idle → endsStmt (headKind rest) = true →
      Comes (fun fuel => statementAt ctx (stmtParsers ctx fuel)
        ((writeStmt ctx manner stmt ++ rest).headD .eof))
        (state.reading (writeStmt ctx manner stmt ++ rest)) stmt (state.reading rest)) :
    StmtReads ctx manner stmt :=
  reads_of_nested one fun state rest ready ends _ => body state rest ready.idle ends

/-! ### Statements without others in them -/

theorem finish_assign {target value : ExprNode} {word : Text}
    (present : hasExpr ctx manner 0 value = true) (idle : state.Idle)
    (ends : endsStmt (headKind rest) = true) :
    Comes (fun fuel => (stmtParsers ctx fuel).finishLvalueStatement target word)
      (state.reading (manner.token .Assign :: (manner.write 0 value ++ rest)))
      (.assign target value) (state.reading rest) :=
  .call (fun fuel => finishLvalueStatement (stmtParsers ctx fuel) target word) (fun _ => rfl)
    (taken ((expression_comes present idle (endsLevel_of_endsStmt ends)).bind (.pure _ _)))

theorem assign_reads {target value : ExprNode}
    (present : hasStmt ctx manner (.assign target value) = true) :
    StmtReads ctx manner (.assign target value) := by
  simp only [hasStmt, Bool.and_eq_true, Bool.not_eq_true'] at present
  obtain ⟨⟨target_present, uncalled⟩, value_present⟩ := present
  apply reads_of_body rfl
  intro state rest idle ends
  have further : beyond target (headKind
      (manner.token .Assign :: (manner.write 0 value ++ rest))) = true := by
    cases target <;> rfl
  rw [writeStmt, List.append_assoc, List.cons_append]
  cases reserved : startsReserved target with
  | false =>
      exact lvalue_comes target_present uncalled reserved idle further rfl fun word =>
        finish_assign value_present idle ends
  | true =>
      -- The conversion to a reserved type is read elsewhere than the other paths.
      have base := hasLvalue_root target_present
      rw [startsReserved] at reserved
      split at reserved
      · next name operand found =>
          rw [found, hasLvalue, Bool.and_eq_true] at base
          obtain ⟨cast, operand_present⟩ := base
          have turbo : ctx.opts.turbo = true := by
            simp only [isCastName, decide_eq_true_eq] at cast
            exact cast.1
          obtain ⟨module?, word⟩ := name
          simp only [Context.isReservedType, decide_eq_true_eq] at reserved
          obtain ⟨rfl, keyword⟩ := reserved
          have written : manner.name ⟨none, word⟩ = [⟨keywordKind word, word⟩] := by
            simp [Manner.name, Manner.word, keyword]
          have read := cast_comes found target_present operand_present idle further rfl
          rw [write_path, found, Manner.write, written, Manner.parens, Manner.brackets]
          simp only [List.cons_append, List.append_assoc, List.nil_append]
          have same : ∀ self, statementAt ctx self ⟨keywordKind word, word⟩ =
              reservedTypeStatement ctx self word := by
            intro self
            unfold statementAt
            generalize keywordKind word = kind at keyword
            cases kind <;> first | rfl | cases keyword
          change Comes (fun fuel => statementAt ctx (stmtParsers ctx fuel) ⟨keywordKind word, word⟩)
            _ _ _
          simp only [same]
          apply Comes.of_neg (by simp [turbo])
          refine advancing (checked (read.bind (taken ?_)) rfl)
          exact (expression_comes value_present idle (endsLevel_of_endsStmt ends)).bind (.pure _ _)
      · cases reserved

theorem call_reads {name : Name} {args : List Argument}
    (present : hasStmt ctx manner (.call name args) = true) :
    StmtReads ctx manner (.call name args) := by
  simp only [hasStmt, isCallee, Bool.decide_and, Bool.and_eq_true, decide_eq_true_eq] at present
  obtain ⟨⟨named, unconverted⟩, args_present⟩ := present
  apply reads_of_body rfl
  intro state rest idle ends
  have other : headKind rest ≠ .LeftParen := ne_of_endsStmt ends rfl
  have read := writeParens_comes args_present idle other
  have begins : headKind (writeParens manner args.isEmpty
      (withCommas manner (writeArgument manner) args) ++ rest) = .LeftParen ∨
        headKind (writeParens manner args.isEmpty
          (withCommas manner (writeArgument manner) args) ++ rest) = headKind rest := by
    unfold writeParens
    split
    · exact .inr rfl
    · exact .inl rfl
  rw [writeStmt, List.append_assoc]
  generalize writeParens manner args.isEmpty (withCommas manner (writeArgument manner) args) ++ rest =
    tokens at read begins
  apply identifier_comes named
  · refine ⟨fun _ turbo single => by simpa using unconverted turbo single, fun point => ?_⟩
    rcases begins with begins | begins
    · rw [begins] at point
      cases point
    · exact absurd (begins.symm.trans point) (ne_of_endsStmt ends rfl)
  · intro word
    refine (name_comes (begins.imp_right fun same => ?_)).bind (called_comes read ?_ ?_)
    · rw [same]
      exact follows_of_endsStmt ends
    · rcases begins with begins | begins
      · rw [begins]
        decide
      · rw [begins]
        exact ⟨ne_of_endsStmt ends rfl, ne_of_endsStmt ends rfl⟩
    · apply looking
      apply Comes.of_neg _ (.pure _ _)
      rintro (wrong | wrong | wrong)
      · exact ne_of_endsStmt ends rfl wrong
      · exact ne_of_endsStmt ends rfl wrong
      · exact ne_of_endsStmt ends rfl wrong

/-- A path that is called is a statement where no assignment follows it. -/
theorem finish_called {lval : ExprNode} {word : Text} (other : headKind rest ≠ .Assign)
    (same : ∀ self, calledStatement self lval word = pure stmt) :
    Comes (fun fuel => (stmtParsers ctx fuel).finishLvalueStatement lval word) (state.reading rest)
      stmt (state.reading rest) := by
  apply Comes.call (fun fuel => finishLvalueStatement (stmtParsers ctx fuel) lval word) fun _ => rfl
  apply passed other
  simp only [same]
  exact .pure _ _

theorem methodCall_reads {receiver : ExprNode} {method : Text} {args : List ExprNode}
    (present : hasStmt ctx manner (.methodCall receiver method args) = true) :
    StmtReads ctx manner (.methodCall receiver method args) := by
  simp only [hasStmt, Bool.and_eq_true, Bool.not_eq_true'] at present
  obtain ⟨path_present, unreserved⟩ := present
  apply reads_of_body rfl
  intro state rest idle ends
  have other : headKind rest ≠ .Assign := ne_of_endsStmt ends rfl
  rw [writeStmt]
  unfold writeParens
  split
  · next bare =>
      -- Without parentheses the method is read as a field.
      obtain rfl : args = [] := by simpa using bare.1
      have field_present : hasLvalue ctx manner (.field receiver method) = true := by
        simpa [hasLvalue] using path_present
      have written : manner.write 4 receiver ++ [manner.token .Dot, ⟨.Identifier, method⟩] =
          manner.write 4 (.field receiver method) := by rw [Manner.write]
      rw [written]
      exact lvalue_comes field_present rfl unreserved idle (beyond_of_endsStmt ends)
        (follows_of_endsStmt ends) fun word => finish_called other fun _ => rfl
  · have written : manner.write 4 receiver ++ manner.token .Dot :: ⟨.Identifier, method⟩ ::
        manner.parens (manner.writeAll .Comma args) =
          manner.write 4 (.methodCall receiver method args) := by rw [Manner.write]
    rw [written]
    exact lvalue_comes path_present rfl unreserved idle rfl (follows_of_endsStmt ends)
      fun word => finish_called other fun _ => rfl

theorem indirectCall_reads {callee : ExprNode} {args : List ExprNode}
    (present : hasStmt ctx manner (.indirectCall callee args) = true) :
    StmtReads ctx manner (.indirectCall callee args) := by
  simp only [hasStmt, Bool.and_eq_true, Bool.not_eq_true'] at present
  obtain ⟨path_present, unreserved⟩ := present
  apply reads_of_body rfl
  intro state rest idle ends
  have written : writeStmt ctx manner (.indirectCall callee args) =
      manner.write 4 (.indirectCall callee args) := by rw [writeStmt, Manner.write]
  rw [written]
  exact lvalue_comes path_present rfl unreserved idle rfl (follows_of_endsStmt ends)
    fun word => finish_called (ne_of_endsStmt ends rfl) fun _ => rfl

theorem inheritedCall_reads {method : Option Text} {args : List ExprNode}
    (present : hasStmt ctx manner (.inheritedCall method args) = true) :
    StmtReads ctx manner (.inheritedCall method args) := by
  simp only [hasStmt, Bool.and_eq_true, Bool.or_eq_true] at present
  obtain ⟨⟨-, some_or_empty⟩, args_present⟩ := present
  apply reads_of_body rfl
  intro state rest idle ends
  cases method with
  | none =>
      obtain rfl : args = [] := by simpa using some_or_empty
      rw [writeStmt]
      exact advancing (looking (.of_neg (ne_of_endsStmt ends rfl) (.pure _ _)))
  | some method =>
      rw [writeStmt, List.cons_append, List.cons_append]
      unfold writeParens
      split
      · next bare =>
          obtain rfl : args = [] := by simpa using bare.1
          exact advancing (looking (.of_pos rfl
            (advancing (passed (ne_of_endsStmt ends rfl) (.pure _ _)))))
      · rw [Manner.parens, Manner.brackets, List.cons_append]
        have read : Comes (fun fuel => lift (Context.argumentList (stmtParsers ctx fuel).exprs))
            (state.reading (manner.writeAll .Comma args ++ [manner.token .RightParen] ++ rest)) args
            (state.reading rest) := by
          have inside := argumentList_read manner.toManner (manner.spell .RightParen)
            (each_of_hasExpr args_present) (starts_of_all args_present) state.toParserState rest
            (idle.room (Nat.le_refl _) (Nat.le_refl _)) rfl
          rw [List.all_eq_true.mpr fun _ _ => rfl] at inside
          simp only [exprs_stmtParsers]
          exact lift_comes inside.comes
        exact advancing (looking (.of_pos rfl (advancing (taken (read.bind (.pure _ _))))))

theorem gotoStmt_reads {label : Text} (present : hasStmt ctx manner (.gotoStmt label) = true) :
    StmtReads ctx manner (.gotoStmt label) := by
  rw [hasStmt, decide_eq_true_eq] at present
  apply reads_of_body rfl
  intro state rest idle ends
  have label_kind : (labelToken label).kind = .IntLit ∨ (labelToken label).kind = .Identifier := by
    rw [labelToken]
    split
    · exact .inl rfl
    · exact .inr rfl
  have read : Comes (fun _ => (pure (.gotoStmt (canonicalLabel label)) : ParseStmt StmtNode))
      (state.reading rest) (.gotoStmt label) (state.reading rest) := by
    rw [present]
    exact .pure _ _
  rw [writeStmt, List.cons_append, List.singleton_append]
  exact advancing (looking (.of_pos label_kind (advancing read)))

end Plang.Statements
