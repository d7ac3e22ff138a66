import Plang.Parse.StmtSimple

/-!
# Statements with others in them

A structured statement is read back where the statements in it are.  Lists of statements leave out
the empty ones, and a case statement reads its arms up to the completer or the end.
-/

namespace Plang.Statements

open Expressions Fuel

variable {ctx : Context} {manner : StmtManner} {state after : StmtState}
  {tokens rest : List Expressions.Token} {kind : TokenKind} {text : Text} {expr : ExprNode}
  {stmt : StmtNode} {stmts : List StmtNode} {depth : Nat}

/-! ### Statements in statements -/

theorem whileStmt_reads {cond : ExprNode} {body : StmtNode}
    (present : hasExpr ctx manner 0 cond = true) (inner : StmtReads ctx manner body) :
    StmtReads ctx manner (.whileStmt cond body) := by
  apply reads_of_nested rfl
  intro state rest ready ends alone
  rw [writeStmt, List.cons_append, List.append_assoc, List.cons_append]
  change Comes (fun fuel => parseWhileStmt (stmtParsers ctx fuel)) _ _ _
  have whole := inner state rest ready ends alone
  exact expecting ((expression_comes present ready.idle rfl).bind
    (expecting (whole.bind (.pure _ _))))

theorem ifStmt_reads {cond : ExprNode} {thenStmt elseStmt : StmtNode}
    (present : hasExpr ctx manner 0 cond = true) (first : StmtReads ctx manner thenStmt)
    (second : StmtReads ctx manner elseStmt)
    (closed : elseStmt.isNull = true ∨ thenStmt.isOpen = false) :
    StmtReads ctx manner (.ifStmt cond thenStmt elseStmt) := by
  apply reads_of_nested rfl
  intro state rest ready ends alone
  have first_ready := ready.weaken (Nat.le_max_left _ (elseStmt.depth ctx.opts.turbo))
  have second_ready := ready.weaken (Nat.le_max_right (thenStmt.depth ctx.opts.turbo) _)
  rw [writeStmt, List.cons_append, List.append_assoc, List.cons_append, List.append_assoc]
  change Comes (fun fuel => parseIfStmt (stmtParsers ctx fuel)) _ _ _
  refine expecting ((expression_comes present ready.idle rfl).bind (expecting ?_))
  cases null : elseStmt.isNull with
  | true =>
      obtain rfl : elseStmt = .null := by
        cases elseStmt <;> first | rfl | cases null
      have other : headKind rest ≠ .Else := alone rfl
      exact (first state rest first_ready ends fun _ => other).bind
        ((passed other (.pure _ _)).bind (.pure _ _))
  | false =>
      have shut : thenStmt.isOpen = false := by simpa [null] using closed
      have alone : elseStmt.isOpen = true → headKind rest ≠ .Else := fun opened =>
        alone (by rw [StmtNode.isOpen, opened, Bool.or_true])
      have read := first state (manner.token .Else :: (writeStmt ctx manner elseStmt ++ rest))
        first_ready rfl fun opened => by rw [shut] at opened; cases opened
      exact read.bind ((taken (second state rest second_ready ends alone)).bind (.pure _ _))

theorem forStmt_reads {var : Text} {start limit : ExprNode} {downto : Bool} {body : StmtNode}
    (start_present : hasExpr ctx manner 0 start = true)
    (limit_present : hasExpr ctx manner 0 limit = true) (inner : StmtReads ctx manner body) :
    StmtReads ctx manner (.forStmt var start limit downto body) := by
  apply reads_of_nested rfl
  intro state rest ready ends alone
  rw [writeStmt, List.cons_append, List.cons_append, List.cons_append, List.append_assoc,
    List.cons_append, List.append_assoc, List.cons_append]
  change Comes (fun fuel => parseForStmt ctx (stmtParsers ctx fuel)) _ _ _
  have whole := inner state rest ready ends alone
  have behind : Comes (fun fuel => lift (stmtParsers ctx fuel).exprs.parseExpression >>= fun limit =>
      lift (expect .Do) >>= fun _ => (stmtParsers ctx fuel).parseStatement >>= fun body =>
        (pure (.forStmt var start limit downto body) : ParseStmt StmtNode))
      (state.reading (manner.write 0 limit ++ manner.token .Do ::
        (writeStmt ctx manner body ++ rest))) (.forStmt var start limit downto body)
      (state.reading rest) :=
    (expression_comes limit_present ready.idle rfl).bind
      (expecting (whole.bind (.pure _ _)))
  refine expecting (expecting (unchecked (by simp) (expecting ?_)))
  cases downto with
  | false =>
      exact (expression_comes start_present ready.idle rfl).bind
        (Comes.bind (taken (.pure _ _)) behind)
  | true =>
      exact (expression_comes start_present ready.idle rfl).bind
        (Comes.bind (passed (by simp) (taken (.pure _ _))) behind)

theorem forInStmt_reads {var : Text} {setExpr : ExprNode} {body : StmtNode}
    (extended : ctx.opts.extendedPascal = true) (present : hasExpr ctx manner 0 setExpr = true)
    (inner : StmtReads ctx manner body) : StmtReads ctx manner (.forInStmt var setExpr body) := by
  apply reads_of_nested rfl
  intro state rest ready ends alone
  have quiet : (!ctx.opts.extendedPascal) = false := by rw [extended, Bool.not_true]
  rw [writeStmt, List.cons_append, List.cons_append, List.cons_append, List.append_assoc,
    List.cons_append]
  change Comes (fun fuel => parseForStmt ctx (stmtParsers ctx fuel)) _ _ _
  have whole := inner state rest ready ends alone
  refine expecting (expecting (checked ?_ rfl))
  exact unreported quiet (advancing ((expression_comes present ready.idle rfl).bind
    (expecting (whole.bind (.pure _ _)))))

theorem withStmt_reads {records : List ExprNode} {body : StmtNode} (ne : records ≠ [])
    (present : records.all (hasExpr ctx manner 4) = true) (inner : StmtReads ctx manner body) :
    StmtReads ctx manner (.withStmt records body) := by
  apply reads_of_nested rfl
  intro state rest ready ends alone
  rw [writeStmt, List.cons_append, List.append_assoc, List.cons_append]
  change Comes (fun fuel => parseWithStmt (stmtParsers ctx fuel)) _ _ _
  have whole := inner state rest ready ends alone
  exact expecting ((withRecords_comes ne present ready.idle).bind
    (expecting (whole.bind (.pure _ _))))

/-! ### Lists of statements -/

/-- A list of statements ends in front of these. -/
def endsList : TokenKind → Bool
  | .End | .Until => true
  | _ => false

theorem endsStmt_of_endsList (ends : endsList kind = true) : endsStmt kind = true := by
  revert ends
  cases kind <;> decide

theorem ne_of_endsList {other : TokenKind} (ends : endsList kind = true)
    (never : endsList other = false) : kind ≠ other := by
  rintro rfl
  rw [ends] at never
  cases never

/-- The empty statement is left out of a list. -/
def Listed (ctx : Context) (manner : StmtManner) (stmts : List StmtNode) : Prop :=
  ∀ stmt ∈ stmts, stmt.isNull = false ∧ StmtReads ctx manner stmt

theorem pushed_of_isNull_false (null : stmt.isNull = false) : stmt.pushed stmts = stmt :: stmts := by
  rw [StmtNode.pushed, null]
  rfl

/-- Behind a statement of a list there is a semicolon, or the list ends. -/
theorem endsStmt_behind (ctx : Context) (manner : StmtManner) (stmts : List StmtNode)
    (ends : endsList (headKind rest) = true) :
    endsStmt (headKind (writeMore ctx manner stmts ++ (lastSemicolon manner ++ rest))) = true ∧
      headKind (writeMore ctx manner stmts ++ (lastSemicolon manner ++ rest)) ≠ .Else := by
  cases stmts with
  | nil =>
      rw [writeMore, List.nil_append]
      unfold lastSemicolon
      split
      · exact ⟨rfl, TokenKind.noConfusion⟩
      · exact ⟨endsStmt_of_endsList ends, ne_of_endsList ends rfl⟩
  | cons stmt stmts =>
      rw [writeMore]
      exact ⟨rfl, TokenKind.noConfusion⟩

theorem Ready.first (ready : Ready (max 1 (depths ctx.opts.turbo (stmt :: stmts))) state) :
    Ready (stmt.depth ctx.opts.turbo) state :=
  ready.weaken ((Nat.le_max_left _ _).trans (Nat.le_max_right 1 _))

theorem Ready.others (ready : Ready (max 1 (depths ctx.opts.turbo (stmt :: stmts))) state) :
    Ready (max 1 (depths ctx.opts.turbo stmts)) state :=
  ready.weaken (by rw [depths]; omega)

theorem emptyList_comes (ready : Ready 1 state) (ends : endsStmt (headKind tokens) = true)
    (more : Comes (fun fuel => (stmtParsers ctx fuel).moreStatements) (state.reading tokens) []
      (state.reading rest)) :
    Comes (fun fuel => statementList (stmtParsers ctx fuel)) (state.reading tokens) []
      (state.reading rest) :=
  (empty_comes ready ends).bind (more.bind (.pure _ _))

theorem listed_comes (reads : Listed ctx manner (stmt :: stmts))
    (ready : Ready (max 1 (depths ctx.opts.turbo (stmt :: stmts))) state)
    (ends : endsList (headKind rest) = true)
    (more : Comes (fun fuel => (stmtParsers ctx fuel).moreStatements)
      (state.reading (writeMore ctx manner stmts ++ (lastSemicolon manner ++ rest))) stmts
      (state.reading rest)) :
    Comes (fun fuel => statementList (stmtParsers ctx fuel))
      (state.reading (writeStmt ctx manner stmt ++
        (writeMore ctx manner stmts ++ (lastSemicolon manner ++ rest)))) (stmt :: stmts)
      (state.reading rest) := by
  obtain ⟨null, stmt_reads⟩ := reads stmt List.mem_cons_self
  have behind := endsStmt_behind ctx manner stmts ends
  have read := stmt_reads state _ ready.first behind.1 fun _ => behind.2
  rw [← pushed_of_isNull_false null]
  exact read.bind (more.bind (.pure _ _))

theorem moreStatements_comes (reads : Listed ctx manner stmts)
    (ready : Ready (max 1 (depths ctx.opts.turbo stmts)) state)
    (ends : endsList (headKind rest) = true) :
    Comes (fun fuel => (stmtParsers ctx fuel).moreStatements)
      (state.reading (writeMore ctx manner stmts ++ (lastSemicolon manner ++ rest))) stmts
      (state.reading rest) := by
  have done : Comes (fun fuel => (stmtParsers ctx fuel).moreStatements) (state.reading rest) []
      (state.reading rest) :=
    .call (fun fuel => moreStatements (stmtParsers ctx fuel)) (fun _ => rfl)
      (passed (ne_of_endsList ends rfl) (.pure _ _))
  induction stmts with
  | nil =>
      rw [writeMore, List.nil_append]
      unfold lastSemicolon
      split
      · -- What stands behind the last semicolon is the empty statement.
        exact .call (fun fuel => moreStatements (stmtParsers ctx fuel)) (fun _ => rfl)
          (taken (emptyList_comes (ready.weaken (Nat.le_max_left _ _))
            (endsStmt_of_endsList ends) done))
      · exact done
  | cons stmt stmts induction =>
      have more := induction (fun stmt listed => reads stmt (List.mem_cons_of_mem _ listed))
        ready.others
      rw [writeMore, List.cons_append, List.append_assoc]
      exact .call (fun fuel => moreStatements (stmtParsers ctx fuel)) (fun _ => rfl)
        (taken (listed_comes reads ready ends more))

theorem statementList_comes (reads : Listed ctx manner stmts)
    (ready : Ready (max 1 (depths ctx.opts.turbo stmts)) state)
    (ends : endsList (headKind rest) = true) :
    Comes (fun fuel => statementList (stmtParsers ctx fuel))
      (state.reading (writeStmts ctx manner stmts ++ (lastSemicolon manner ++ rest))) stmts
      (state.reading rest) := by
  cases stmts with
  | nil =>
      rw [writeStmts]
      have behind := endsStmt_behind ctx manner [] ends
      have more := moreStatements_comes reads ready ends
      rw [writeMore] at behind more
      exact emptyList_comes (ready.weaken (Nat.le_max_left _ _)) behind.1 more
  | cons stmt stmts =>
      have more := moreStatements_comes
        (fun stmt listed => reads stmt (List.mem_cons_of_mem _ listed)) ready.others ends
      rw [writeStmts, List.append_assoc]
      exact listed_comes reads ready ends more

theorem closeCompound_comes (ready : Ready depth state) :
    Comes (fun _ => closeCompound) (state.reading (manner.token .End :: rest)) ()
      (state.reading rest) := by
  have step : closeCompound (state.reading (manner.token .End :: rest)) =
      (lift (expect .End) >>= fun _ => (pure () : ParseStmt Unit))
        (state.reading (manner.token .End :: rest)) := by
    change (if state.stmtDepthLimitHit = true then _ else _ : ParseStmt Unit) _ = _
    rw [ready.limit]
    rfl
  exact (expecting (.pure () (state.reading rest))).of_eq fun _ => step

theorem compound_reads (reads : Listed ctx manner stmts) :
    StmtReads ctx manner (.compound stmts) := by
  apply reads_of_nested rfl
  intro state rest ready ends _
  rw [writeStmt, List.cons_append, List.append_assoc, List.append_assoc, List.singleton_append]
  change Comes (fun fuel => parseCompoundStmt (stmtParsers ctx fuel)) _ _ _
  exact expecting ((statementList_comes reads ready rfl).bind
    (Comes.bind (closeCompound_comes ready) (.pure _ _)))

theorem repeatStmt_reads {cond : ExprNode} (present : hasExpr ctx manner 0 cond = true)
    (reads : Listed ctx manner stmts) : StmtReads ctx manner (.repeatStmt stmts cond) := by
  apply reads_of_nested rfl
  intro state rest ready ends _
  rw [writeStmt, List.cons_append, List.append_assoc, List.append_assoc, List.cons_append]
  change Comes (fun fuel => parseRepeatStmt (stmtParsers ctx fuel)) _ _ _
  exact expecting ((statementList_comes reads ready rfl).bind
    (expecting ((expression_comes present ready.idle (endsLevel_of_endsStmt ends)).bind
      (.pure _ _))))

/-! ### Labels -/

theorem labeled_reads {label : Text} (canonical : canonicalLabel label = label)
    (inner : StmtReads ctx manner stmt) : StmtReads ctx manner (.labeled label stmt) := by
  apply reads_of_nested rfl
  intro state rest ready ends alone
  have whole := inner state rest ready ends alone
  have made : Comes (fun _ => (pure (.labeled (canonicalLabel label) stmt) : ParseStmt StmtNode))
      (state.reading rest) (.labeled label stmt) (state.reading rest) := by
    rw [canonical]
    exact .pure _ _
  rw [writeStmt, List.cons_append, List.cons_append]
  unfold labelToken
  split
  · change Comes (fun fuel => integerStatement (stmtParsers ctx fuel) label) _ _ _
    exact advancing (taken (whole.bind made))
  · apply word_comes ⟨fun wrong => TokenKind.noConfusion wrong,
      fun wrong => TokenKind.noConfusion wrong⟩
    refine (name_comes (.inr rfl)).bind ?_
    apply Comes.call
      (fun fuel => finishLvalueStatement (stmtParsers ctx fuel) (.ident ⟨none, label⟩) label)
      fun _ => rfl
    exact passed (by simp) (taken (whole.bind made))

/-! ### Case statements -/

/-- The arm of a case statement is read back. -/
def ArmReads (ctx : Context) (manner : StmtManner) (arm : StmtNode) : Prop :=
  ∃ labels body, arm = .arm labels body ∧ labels ≠ [] ∧
    labels.all (hasLabel ctx manner) = true ∧ StmtReads ctx manner body

/-- A case label begins with a factor or with its sign. -/
def beginsLabel (kind : TokenKind) : Bool := startsFactor kind || kind == .Minus

theorem beginsLabel_write {labels : List CaseLabel} (ne : labels ≠ [])
    (present : labels.all (hasLabel ctx manner) = true) (rest : List Expressions.Token) :
    beginsLabel (headKind (withCommas manner (writeLabel manner) labels ++ rest)) = true := by
  have constant : ∀ constant rest, hasConstant ctx manner constant = true →
      beginsLabel (headKind (writeConstant manner constant ++ rest)) = true := by
    intro constant rest present
    unfold writeConstant
    unfold hasConstant at present
    split at present
    · rfl
    · rw [beginsLabel, startsFactor_of_hasExpr present rest, Bool.true_or]
  obtain ⟨label, labels, rfl⟩ := List.exists_cons_of_ne_nil ne
  have label_present := List.all_eq_true.mp present label List.mem_cons_self
  rw [hasLabel, Bool.and_eq_true] at label_present
  obtain ⟨low, high⟩ := label
  rw [withCommas, List.append_assoc]
  cases high with
  | none => exact constant low _ label_present.1
  | some high =>
      rw [writeLabel, List.append_assoc]
      exact constant low _ label_present.1

theorem apart_of_beginsLabel (begins : beginsLabel kind = true) :
    ¬(kind = .End ∨ kind = .Eof) ∧ ¬(kind = .Else ∨ kind = .Otherwise) := by
  revert begins
  cases kind <;> decide

/-- The parts of a case statement that stand behind its arms. -/
structure Completed (ctx : Context) (parts : CaseParts) (state : StmtState)
    (close rest : List Expressions.Token) : Prop where
  comes : Comes (fun fuel => moreCaseParts (stmtParsers ctx fuel)) (state.reading close) parts
    (state.reading rest)
  ends : endsStmt (headKind close) = true
  other : headKind close ≠ .Else

section Arms

variable {arms : List StmtNode} {arm elseStmt : StmtNode} {hasElse : Bool}
  {close : List Expressions.Token}

theorem headKind_moreArms (completed : Completed ctx ⟨[], hasElse, elseStmt⟩ state close rest) :
    endsStmt (headKind (writeMore ctx manner arms ++ close)) = true ∧
      headKind (writeMore ctx manner arms ++ close) ≠ .Else := by
  cases arms with
  | nil => exact ⟨completed.ends, completed.other⟩
  | cons arm arms =>
      rw [writeMore]
      exact ⟨rfl, TokenKind.noConfusion⟩

/-- An arm is read where the parts behind it are. -/
theorem arm_comes (reads : ArmReads ctx manner arm)
    (ready : Ready (arm.depth ctx.opts.turbo) state)
    (ends : endsStmt (headKind tokens) = true ∧ headKind tokens ≠ .Else)
    (more : Comes (fun fuel => moreCaseParts (stmtParsers ctx fuel)) (state.reading tokens)
      ⟨arms, hasElse, elseStmt⟩ (state.reading rest)) :
    Comes (fun fuel => (stmtParsers ctx fuel).caseParts)
      (state.reading (writeStmt ctx manner arm ++ tokens)) ⟨arm :: arms, hasElse, elseStmt⟩
      (state.reading rest) := by
  obtain ⟨labels, body, rfl, ne, present, inner⟩ := reads
  have read := inner state tokens ready ends.1 fun _ => ends.2
  rw [writeStmt, List.append_assoc, List.cons_append]
  have apart := apart_of_beginsLabel (beginsLabel_write ne present
    (manner.token .Colon :: (writeStmt ctx manner body ++ tokens)))
  have whole : Comes (fun fuel => caseArm (stmtParsers ctx fuel))
      (state.reading (withCommas manner (writeLabel manner) labels ++
        manner.token .Colon :: (writeStmt ctx manner body ++ tokens)))
      ⟨.arm labels body :: arms, hasElse, elseStmt⟩ (state.reading rest) :=
    (caseLabels_comes ne present ready.idle).bind
      (expecting (read.bind (more.bind (.pure _ _))))
  exact .call (fun fuel => caseParts ctx (stmtParsers ctx fuel)) (fun _ => rfl)
    (looking (.of_neg apart.1 (.of_neg apart.2 whole)))

theorem moreArms_come (reads : ∀ arm ∈ arms, ArmReads ctx manner arm)
    (ready : Ready (depths ctx.opts.turbo arms) state)
    (completed : Completed ctx ⟨[], hasElse, elseStmt⟩ state close rest) :
    Comes (fun fuel => moreCaseParts (stmtParsers ctx fuel))
      (state.reading (writeMore ctx manner arms ++ close)) ⟨arms, hasElse, elseStmt⟩
      (state.reading rest) := by
  induction arms with
  | nil => exact completed.comes
  | cons arm arms induction =>
      have more := induction (fun arm listed => reads arm (List.mem_cons_of_mem _ listed))
        (ready.weaken (Nat.le_max_right _ _))
      have read := arm_comes (reads arm List.mem_cons_self) (ready.weaken (Nat.le_max_left _ _))
        (headKind_moreArms completed) more
      rw [writeMore, List.cons_append, List.append_assoc]
      exact taken read

theorem arms_come (ne : arms ≠ []) (reads : ∀ arm ∈ arms, ArmReads ctx manner arm)
    (ready : Ready (depths ctx.opts.turbo arms) state)
    (completed : Completed ctx ⟨[], hasElse, elseStmt⟩ state close rest) :
    Comes (fun fuel => (stmtParsers ctx fuel).caseParts)
      (state.reading (writeStmts ctx manner arms ++ close)) ⟨arms, hasElse, elseStmt⟩
      (state.reading rest) := by
  obtain ⟨arm, arms, rfl⟩ := List.exists_cons_of_ne_nil ne
  have more := moreArms_come (fun arm listed => reads arm (List.mem_cons_of_mem _ listed))
    (ready.weaken (Nat.le_max_right _ _)) completed
  rw [writeStmts, List.append_assoc]
  exact arm_comes (reads arm List.mem_cons_self) (ready.weaken (Nat.le_max_left _ _))
    (headKind_moreArms completed) more

end Arms

/-- A case statement whose arms are read up to its `end`. -/
theorem caseParts_end :
    Comes (fun fuel => (stmtParsers ctx fuel).caseParts) (state.reading (manner.token .End :: rest))
      ⟨[], false, .null⟩ (state.reading (manner.token .End :: rest)) :=
  .call (fun fuel => caseParts ctx (stmtParsers ctx fuel)) (fun _ => rfl)
    (looking (.of_pos (.inl rfl) (.pure _ _)))

theorem completed_end : Completed ctx ⟨[], false, .null⟩ state
    (lastSemicolon manner ++ manner.token .End :: rest) (manner.token .End :: rest) := by
  unfold lastSemicolon
  split
  · exact ⟨taken caseParts_end, rfl, TokenKind.noConfusion⟩
  · refine ⟨passed (by simp) (looking (.of_neg ?_ (.pure _ _))), rfl, TokenKind.noConfusion⟩
    rintro (wrong | wrong) <;> cases wrong

/-- Turbo Pascal reads the statements of a completer, and Extended Pascal one statement. -/
structure CompleterReads (ctx : Context) (manner : StmtManner) (stmt : StmtNode) : Prop where
  known : hasCaseDefaultArm ctx.opts = true
  reads : StmtReads ctx manner stmt
  listed : ctx.opts.turbo = true → ∃ stmts, stmt = .compound stmts ∧ Listed ctx manner stmts

def writeCompleter (ctx : Context) (manner : StmtManner) (stmt : StmtNode) :
    List Expressions.Token :=
  if ctx.opts.turbo then (writeStmt ctx manner stmt).tail.dropLast
  else writeStmt ctx manner stmt ++ lastSemicolon manner

theorem lastSemicolon_comes {α : Type} {next : Bounded StmtState α} {last : α}
    (other : headKind rest ≠ .Semicolon) (more : Comes next (state.reading rest) last after) :
    Comes (fun fuel => lift (accept .Semicolon) >>= fun _ => next fuel)
      (state.reading (lastSemicolon manner ++ rest)) last after := by
  have either : Comes (fun fuel => lift (accept .Semicolon) >>= fun taken =>
      if taken = true then next fuel else next fuel)
      (state.reading (lastSemicolon manner ++ rest)) last after := by
    unfold lastSemicolon
    split
    · exact taken more
    · exact passed other more
  simpa only [ite_self] using either

theorem completer_comes {token : Expressions.Token} (reads : CompleterReads ctx manner stmt)
    (ready : Ready (stmt.depth ctx.opts.turbo - if ctx.opts.turbo then 1 else 0) state) :
    Comes (fun fuel => completer ctx (stmtParsers ctx fuel))
      (state.reading (token :: (writeCompleter ctx manner stmt ++ manner.token .End :: rest)))
      ⟨[], true, stmt⟩ (state.reading (manner.token .End :: rest)) := by
  have quiet : (!hasCaseDefaultArm ctx.opts) = false := by rw [reads.known, Bool.not_true]
  unfold writeCompleter
  apply unreported quiet
  apply advancing
  by_cases turbo : ctx.opts.turbo = true
  · obtain ⟨stmts, rfl, listed⟩ := reads.listed turbo
    have inside : (writeStmt ctx manner (.compound stmts)).tail.dropLast =
        writeStmts ctx manner stmts ++ lastSemicolon manner := by
      rw [writeStmt, List.tail_cons, ← List.append_assoc, List.dropLast_concat]
    rw [if_pos turbo] at ready
    rw [if_pos turbo, inside, List.append_assoc]
    exact .of_pos turbo ((statementList_comes listed ready rfl).bind (.pure _ _))
  · have closes : endsList (headKind (manner.token .End :: rest)) = true := rfl
    have behind := endsStmt_behind ctx manner [] closes
    rw [writeMore, List.nil_append] at behind
    rw [if_neg turbo] at ready
    rw [if_neg turbo, List.append_assoc]
    exact .of_neg turbo ((reads.reads state _ ready behind.1 fun _ => behind.2).bind
      (lastSemicolon_comes (by simp) (.pure _ _)))

theorem caseParts_completer (rest : List Expressions.Token) {token : Expressions.Token}
    (word : token.kind = .Else ∨ token.kind = .Otherwise) (reads : CompleterReads ctx manner stmt)
    (ready : Ready (stmt.depth ctx.opts.turbo - if ctx.opts.turbo then 1 else 0) state) :
    Comes (fun fuel => (stmtParsers ctx fuel).caseParts)
      (state.reading (token :: (writeCompleter ctx manner stmt ++ manner.token .End :: rest)))
      ⟨[], true, stmt⟩ (state.reading (manner.token .End :: rest)) := by
  have open_parts : ¬(token.kind = .End ∨ token.kind = .Eof) := by
    rcases word with word | word <;> rw [word] <;> decide
  exact .call (fun fuel => caseParts ctx (stmtParsers ctx fuel)) (fun _ => rfl)
    (looking (.of_neg open_parts (.of_pos word (completer_comes reads ready))))

theorem caseStmt_reads {selector : ExprNode} {arms : List StmtNode} {hasElse : Bool}
    {elseStmt : StmtNode} (present : hasExpr ctx manner 0 selector = true)
    (arms_read : ∀ arm ∈ arms, ArmReads ctx manner arm)
    (completer_reads : hasElse = true → CompleterReads ctx manner elseStmt)
    (uncompleted : hasElse = false → elseStmt = .null) :
    StmtReads ctx manner (.caseStmt selector arms hasElse elseStmt) := by
  apply reads_of_nested rfl
  intro state rest ready ends _
  have parts : Comes (fun fuel => (stmtParsers ctx fuel).caseParts)
      (state.reading (writeStmts ctx manner arms ++
        ((if hasElse then
            (if arms.isEmpty then [] else [manner.token .Semicolon]) ++
              manner.token (if manner.otherwiseWord then .Otherwise else .Else) ::
                writeCompleter ctx manner elseStmt
          else if arms.isEmpty then [] else lastSemicolon manner) ++ manner.token .End :: rest)))
      ⟨arms, hasElse, elseStmt⟩ (state.reading (manner.token .End :: rest)) := by
    have arms_ready := ready.weaken (Nat.le_max_left _ _)
    cases hasElse with
    | false =>
        obtain rfl := uncompleted rfl
        cases arms with
        | nil =>
            rw [writeStmts]
            exact caseParts_end
        | cons arm arms => exact arms_come (List.cons_ne_nil _ _) arms_read arms_ready completed_end
    | true =>
        have word : (manner.token (if manner.otherwiseWord then .Otherwise else .Else)).kind = .Else ∨
            (manner.token (if manner.otherwiseWord then .Otherwise else .Else)).kind =
              .Otherwise := by
          cases manner.otherwiseWord
          · exact .inl rfl
          · exact .inr rfl
        have completer := caseParts_completer rest word (completer_reads rfl)
          (ready.weaken (Nat.le_max_right _ _))
        cases arms with
        | nil =>
            rw [writeStmts]
            exact completer
        | cons arm arms =>
            exact arms_come (List.cons_ne_nil _ _) arms_read arms_ready
              ⟨taken completer, rfl, TokenKind.noConfusion⟩
  rw [writeStmt, List.cons_append, List.append_assoc, List.cons_append, List.append_assoc,
    List.append_assoc, List.singleton_append]
  change Comes (fun fuel => parseCaseStmt (stmtParsers ctx fuel)) _ _ _
  exact expecting ((expression_comes present ready.idle rfl).bind (expecting
    (parts.bind (expecting (.pure _ _)))))

end Plang.Statements
