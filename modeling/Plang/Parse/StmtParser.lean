import Plang.Parse.ExprParser

/-!
# The statement parser

Statements by recursive descent over the parser of expressions.  One activation nests in another
for each statement in a statement, and a ceiling bounds how many there are at once.
-/

namespace Plang.Statements

open Expressions

/-! ### Trees -/

/-- An argument of a call by name; those of the write procedures may have a width and decimals. -/
inductive Argument where
  | expr (value : ExprNode)
  | writeParam (value width : ExprNode) (decimals : Option ExprNode)

/-- A case constant, or a range from the first to the second. -/
structure CaseLabel where
  low : ExprNode
  high : Option ExprNode

/-- Statements, with the arms that stand in some of them. -/
inductive StmtNode where
  /-- No statement at all, which is the empty one. -/
  | null
  | compound (stmts : List StmtNode)
  | assign (target value : ExprNode)
  | call (name : Name) (args : List Argument)
  | methodCall (receiver : ExprNode) (method : Text) (args : List ExprNode)
  | indirectCall (callee : ExprNode) (args : List ExprNode)
  /-- Without a method where the word stands alone. -/
  | inheritedCall (method : Option Text) (args : List ExprNode)
  | ifStmt (cond : ExprNode) (thenStmt elseStmt : StmtNode)
  | whileStmt (cond : ExprNode) (body : StmtNode)
  | repeatStmt (stmts : List StmtNode) (cond : ExprNode)
  | forStmt (var : Text) (start limit : ExprNode) (downto : Bool) (body : StmtNode)
  | forInStmt (var : Text) (setExpr : ExprNode) (body : StmtNode)
  | withStmt (records : List ExprNode) (body : StmtNode)
  | caseStmt (selector : ExprNode) (arms : List StmtNode) (hasElse : Bool) (elseStmt : StmtNode)
  | arm (labels : List CaseLabel) (body : StmtNode)
  | gotoStmt (label : Text)
  | labeled (label : Text) (stmt : StmtNode)

def StmtNode.isNull : StmtNode → Bool
  | .null => true
  | _ => false

/-- `if (S) Stmts.push_back(std::move(S))`. -/
def StmtNode.pushed (stmt : StmtNode) (stmts : List StmtNode) : List StmtNode :=
  if stmt.isNull then stmts else stmt :: stmts

/-- The errors of the statement parser besides those of `ParseError`. -/
inductive StmtError where
  | err_stmt_too_deeply_nested
  | err_expected_goto_label (got : TokenKind)
  | err_unexpected_int_literal
  | err_expected_assign_after_var
  | err_ep_for_in
  | err_expected_to_or_downto (got : TokenKind)
  | err_ep_case_otherwise
  | err_ep_case_range
  deriving DecidableEq

/-! ### The state of the parser -/

structure StmtState extends ParserState where
  /-- Each with how many of the others were reported before it. -/
  stmtErrors : List (Nat × StmtError)
  stmtDepth : Nat
  stmtDepthLimitHit : Bool

abbrev ParseStmt := StateT StmtState Option

/-- A function that knows nothing of statements. -/
def lift {α : Type} (run : Parse α) : ParseStmt α := fun state =>
  (run state.toParserState).map fun ended => (ended.1, { state with toParserState := ended.2 })

def report (error : StmtError) : ParseStmt Unit := fun state =>
  some ((), { state with stmtErrors := state.stmtErrors ++ [(state.errors.length, error)] })

def reportWhen (condition : Bool) (error : StmtError) : ParseStmt Unit :=
  if condition then report error else return ()

def MaxStmtDepth : Nat := 500

/-- The constructor and the destructor of `StmtDepthScope`. -/
def enterStmtDepth : ParseStmt Unit := fun state =>
  some ((), { state with stmtDepth := state.stmtDepth + 1 })

def leaveStmtDepth : ParseStmt Unit := fun state =>
  some ((), { state with
    stmtDepth := state.stmtDepth - 1
    stmtDepthLimitHit := if state.stmtDepth - 1 = 0 then false else state.stmtDepthLimitHit })

/-- `StmtDepthScope` around an activation. -/
def stmtDepthScope (run : ParseStmt StmtNode) : ParseStmt StmtNode := do
  enterStmtDepth
  let stmt ← run
  leaveStmtDepth
  return stmt

/-- The text of a label: the apparent integral value, or a word in lower case. -/
def canonicalLabel (lexeme : Text) : Text :=
  if lexeme.all Char.isDigit then
    if lexeme.all (· == '0') then "0".toList else lexeme.dropWhile (· == '0')
  else toLower lexeme

/-- `CaseDefaultArm` and `CaseConstantRanges` are features of the same dialects. -/
def hasCaseDefaultArm (opts : LangOptions) : Bool := opts.extendedPascal || opts.turbo

def hasCaseConstantRanges (opts : LangOptions) : Bool := opts.extendedPascal || opts.turbo

/-- The procedures whose arguments are write parameters. -/
def isWrite (name : Name) : Bool :=
  let lo := toLower name.spelling
  lo = "write".toList ∨ lo = "writeln".toList ∨ lo = "writestr".toList ∨ lo = "str".toList

/-- The argument in a call that is an expression.  `ExprNode.call` has no place for the width and the
decimals of a write parameter, which the source keeps there: they are left out. -/
def Argument.value : Argument → ExprNode
  | .expr value => value
  | .writeParam value _ _ => value

/-! ### The functions of the parser -/

/-- The arms and the completer that `parseCaseStmt` reads between `of` and `end`. -/
structure CaseParts where
  arms : List StmtNode
  hasElse : Bool
  elseStmt : StmtNode

/-- The functions that call each other, with the loops in them. -/
structure StmtParsers where
  exprs : Parsers
  parseStatement : ParseStmt StmtNode
  /-- `while (match(Semicolon))` behind the first statement of a list. -/
  moreStatements : ParseStmt (List StmtNode)
  finishLvalueStatement (lval : ExprNode) (word : Text) : ParseStmt StmtNode
  /-- `parseWriteArg` or `parseExpression` once, and again behind each comma. -/
  callArguments (write : Bool) : ParseStmt (List Argument)
  /-- `parseFactor` once, and again behind each comma. -/
  withRecords : ParseStmt (List ExprNode)
  /-- `parseCaseLabel` once, and again behind each comma. -/
  caseLabels : ParseStmt (List CaseLabel)
  /-- `while (!check(End) && !check(Eof))` of `parseCaseStmt`. -/
  caseParts : ParseStmt CaseParts

variable (ctx : Context) (self : StmtParsers)

/-! ### Lists -/

def moreStatements : ParseStmt (List StmtNode) := do
  if ← lift (accept .Semicolon) then
    let stmt ← self.parseStatement
    let stmts ← self.moreStatements
    return stmt.pushed stmts
  else return []

/-- The statements of a compound statement, a loop or a completer. -/
def statementList : ParseStmt (List StmtNode) := do
  let stmt ← self.parseStatement
  let stmts ← self.moreStatements
  return stmt.pushed stmts

/-- The colon and the decimals behind a width. -/
def decimals : ParseStmt (Option ExprNode) := do
  if ← lift (accept .Colon) then
    let decimals ← lift self.exprs.parseExpression
    return some decimals
  else return none

def parseWriteArg : ParseStmt Argument := do
  let value ← lift self.exprs.parseExpression
  if ← lift (accept .Colon) then
    let width ← lift self.exprs.parseExpression
    let decimals ← decimals self
    return .writeParam value width decimals
  else return .expr value

def callArgument (write : Bool) : ParseStmt Argument :=
  if write then parseWriteArg self
  else do
    let value ← lift self.exprs.parseExpression
    return .expr value

def moreCallArguments (write : Bool) : ParseStmt (List Argument) := do
  if ← lift (accept .Comma) then self.callArguments write else return []

def callArguments (write : Bool) : ParseStmt (List Argument) := do
  let arg ← callArgument self write
  let args ← moreCallArguments self write
  return arg :: args

def moreWithRecords : ParseStmt (List ExprNode) := do
  if ← lift (accept .Comma) then self.withRecords else return []

def withRecords : ParseStmt (List ExprNode) := do
  let record ← lift self.exprs.parseFactor
  let records ← moreWithRecords self
  return record :: records

/-! ### What begins with a variable or a name -/

/-- `match(LeftParen)` of a call, with the arguments and the right parenthesis. -/
def callParens (name : Name) : ParseStmt (List Argument) := do
  if ← lift (accept .LeftParen) then
    if ← lift (check .RightParen) then
      let _ ← lift (expect .RightParen)
      return []
    else
      let args ← self.callArguments (isWrite name)
      let _ ← lift (expect .RightParen)
      return args
  else return []

/-- A call, or a statement that begins with a selection from its result. -/
def behindCall (name : Name) (args : List Argument) (word : Text) : ParseStmt StmtNode := do
  let token ← lift current
  if token.kind = .Dot ∨ token.kind = .Caret ∨ token.kind = .LeftBracket then
    let lval ← lift (self.exprs.parsePostfix (.call name (args.map Argument.value)))
    self.finishLvalueStatement lval word
  else return .call name args

/-- A name behind which there is no assignment: a label, or the procedure of a call. -/
def namedStatement (name : Name) (word : Text) : ParseStmt StmtNode := do
  if ← lift (accept .Colon) then
    let stmt ← self.parseStatement
    return .labeled (canonicalLabel word) stmt
  else
    let args ← callParens self name
    behindCall self name args word

/-- The statement of an expression that no assignment follows. -/
def calledStatement (lval : ExprNode) (word : Text) : ParseStmt StmtNode :=
  match lval with
  | .ident name => namedStatement self name word
  | .methodCall receiver method args => return .methodCall receiver method args
  | .field record field => return .methodCall record field []
  | .indirectCall callee args => return .indirectCall callee args
  | _ => do
      report .err_expected_assign_after_var
      return .null

def finishLvalueStatement (lval : ExprNode) (word : Text) : ParseStmt StmtNode := do
  if ← lift (accept .Assign) then
    let value ← lift self.exprs.parseExpression
    return .assign lval value
  else calledStatement self lval word

/-- A statement from an identifier on. -/
def identifierStatement (word : Text) : ParseStmt StmtNode := do
  lift advance
  let next ← lift current
  if ctx.opts.turbo ∧ ctx.namesAType ⟨none, word⟩ ∧ next.kind = .LeftParen then
    let lval ← lift (Context.castOperand self.exprs ⟨none, word⟩)
    self.finishLvalueStatement lval word
  else
    let name ← lift (ctx.qualifiedName word)
    let lval ← lift (self.exprs.parsePostfix (.ident name))
    self.finishLvalueStatement lval word

/-- Only an assignment may begin with one of the reserved type names. -/
def reservedTypeStatement (word : Text) : ParseStmt StmtNode := do
  if !ctx.opts.turbo then return .null
  else
    lift advance
    if ← lift (check .LeftParen) then
      let lval ← lift (Context.castOperand self.exprs ⟨none, word⟩)
      if ← lift (accept .Assign) then
        let value ← lift self.exprs.parseExpression
        return .assign lval value
      else
        report .err_expected_assign_after_var
        return .null
    else return .null

/-- `inherited` and the method behind it. -/
def inheritedStatement : ParseStmt StmtNode := do
  lift advance
  let token ← lift current
  if token.kind = .Identifier then
    lift advance
    if ← lift (accept .LeftParen) then
      let args ← lift (Context.argumentList self.exprs)
      return .inheritedCall (some token.lexeme) args
    else return .inheritedCall (some token.lexeme) []
  else return .inheritedCall none []

/-! ### Labels and gotos -/

def gotoStatement : ParseStmt StmtNode := do
  lift advance
  let token ← lift current
  if token.kind = .IntLit ∨ token.kind = .Identifier then
    lift advance
    return .gotoStmt (canonicalLabel token.lexeme)
  else
    report (.err_expected_goto_label token.kind)
    return .gotoStmt []

def integerStatement (lexeme : Text) : ParseStmt StmtNode := do
  lift advance
  if ← lift (accept .Colon) then
    let stmt ← self.parseStatement
    return .labeled (canonicalLabel lexeme) stmt
  else
    report .err_unexpected_int_literal
    return .null

/-! ### Structured statements -/

/-- `end` is not missed on the way out of too many statements. -/
def closeCompound : ParseStmt Unit := do
  let state ← get
  if state.stmtDepthLimitHit then
    let _ ← lift (accept .End)
    return ()
  else
    let _ ← lift (expect .End)
    return ()

def parseCompoundStmt : ParseStmt StmtNode := do
  let _ ← lift (expect .Begin)
  let stmts ← statementList self
  closeCompound
  return .compound stmts

def elseBranch : ParseStmt StmtNode := do
  if ← lift (accept .Else) then self.parseStatement else return .null

def parseIfStmt : ParseStmt StmtNode := do
  let _ ← lift (expect .If)
  let cond ← lift self.exprs.parseExpression
  let _ ← lift (expect .Then)
  let thenStmt ← self.parseStatement
  let elseStmt ← elseBranch self
  return .ifStmt cond thenStmt elseStmt

def parseWhileStmt : ParseStmt StmtNode := do
  let _ ← lift (expect .While)
  let cond ← lift self.exprs.parseExpression
  let _ ← lift (expect .Do)
  let body ← self.parseStatement
  return .whileStmt cond body

/-- `to` or `downto`; the one is taken for granted where neither is there. -/
def direction : ParseStmt Bool := do
  if ← lift (accept .To) then return false
  else if ← lift (accept .Downto) then return true
  else
    let token ← lift current
    report (.err_expected_to_or_downto token.kind)
    return false

/-- A loop over the members of a set. -/
def forIn (var : Text) : ParseStmt StmtNode := do
  reportWhen (!ctx.opts.extendedPascal) .err_ep_for_in
  lift advance
  let setExpr ← lift self.exprs.parseExpression
  let _ ← lift (expect .Do)
  let body ← self.parseStatement
  return .forInStmt var setExpr body

/-- A loop from one value to another. -/
def forTo (var : Text) : ParseStmt StmtNode := do
  let _ ← lift (expect .Assign)
  let start ← lift self.exprs.parseExpression
  let downto ← direction
  let limit ← lift self.exprs.parseExpression
  let _ ← lift (expect .Do)
  let body ← self.parseStatement
  return .forStmt var start limit downto body

def parseForStmt : ParseStmt StmtNode := do
  let _ ← lift (expect .For)
  let var ← lift (expect .Identifier)
  if ← lift (check .In) then forIn ctx self var.lexeme else forTo self var.lexeme

def parseRepeatStmt : ParseStmt StmtNode := do
  let _ ← lift (expect .Repeat)
  let stmts ← statementList self
  let _ ← lift (expect .Until)
  let cond ← lift self.exprs.parseExpression
  return .repeatStmt stmts cond

def parseWithStmt : ParseStmt StmtNode := do
  let _ ← lift (expect .With)
  let records ← self.withRecords
  let _ ← lift (expect .Do)
  let body ← self.parseStatement
  return .withStmt records body

/-! ### Case statements -/

/-- A factor that may have a sign; that of a positive one leaves no trace. -/
def parseCaseConstant : ParseStmt ExprNode := do
  if ← lift (accept .Plus) then lift self.exprs.parseFactor
  else if ← lift (accept .Minus) then
    let operand ← lift self.exprs.parseFactor
    return .unary .Minus operand
  else lift self.exprs.parseFactor

/-- The high end of a label's range, where there is one. -/
def highEnd : ParseStmt (Option ExprNode) := do
  if ← lift (check .DotDot) then
    reportWhen (!hasCaseConstantRanges ctx.opts) .err_ep_case_range
    lift advance
    let high ← parseCaseConstant self
    return some high
  else return none

def parseCaseLabel : ParseStmt CaseLabel := do
  let low ← parseCaseConstant self
  let high ← highEnd ctx self
  return ⟨low, high⟩

def moreCaseLabels : ParseStmt (List CaseLabel) := do
  if ← lift (accept .Comma) then self.caseLabels else return []

def caseLabels : ParseStmt (List CaseLabel) := do
  let label ← parseCaseLabel ctx self
  let labels ← moreCaseLabels self
  return label :: labels

/-- The completer: a list of statements in Turbo Pascal, and one statement in Extended Pascal. -/
def completer : ParseStmt CaseParts := do
  reportWhen (!hasCaseDefaultArm ctx.opts) .err_ep_case_otherwise
  lift advance
  if ctx.opts.turbo then
    let stmts ← statementList self
    return ⟨[], true, .compound stmts⟩
  else
    let stmt ← self.parseStatement
    let _ ← lift (accept .Semicolon)
    return ⟨[], true, stmt⟩

/-- The arms behind an arm: a semicolon may be missing in front of the completer only. -/
def moreCaseParts : ParseStmt CaseParts := do
  if ← lift (accept .Semicolon) then self.caseParts
  else
    let token ← lift current
    if token.kind = .Otherwise ∨ token.kind = .Else then self.caseParts
    else return ⟨[], false, .null⟩

def caseArm : ParseStmt CaseParts := do
  let labels ← self.caseLabels
  let _ ← lift (expect .Colon)
  let body ← self.parseStatement
  let parts ← moreCaseParts self
  return { parts with arms := .arm labels body :: parts.arms }

def caseParts : ParseStmt CaseParts := do
  let token ← lift current
  if token.kind = .End ∨ token.kind = .Eof then return ⟨[], false, .null⟩
  else if token.kind = .Else ∨ token.kind = .Otherwise then completer ctx self
  else caseArm self

def parseCaseStmt : ParseStmt StmtNode := do
  let _ ← lift (expect .Case)
  let selector ← lift self.exprs.parseExpression
  let _ ← lift (expect .Of)
  let parts ← self.caseParts
  let _ ← lift (expect .End)
  return .caseStmt selector parts.arms parts.hasElse parts.elseStmt

/-! ### Statements -/

/-- The statement that begins with a token. -/
def statementAt (token : Expressions.Token) : ParseStmt StmtNode :=
  match token.kind with
  | .Begin => parseCompoundStmt self
  | .If => parseIfStmt self
  | .While => parseWhileStmt self
  | .For => parseForStmt ctx self
  | .Repeat => parseRepeatStmt self
  | .With => parseWithStmt self
  | .Case => parseCaseStmt self
  | .Goto => gotoStatement
  | .IntLit => integerStatement self token.lexeme
  | .Identifier => identifierStatement ctx self token.lexeme
  | .Inherited => inheritedStatement self
  | kind => if isTypeKeyword kind then reservedTypeStatement ctx self token.lexeme else return .null

/-- The ceiling is looked at behind the count of the activation itself.  The stack never runs
short. -/
def boundedStatement : ParseStmt StmtNode := do
  let state ← get
  if MaxStmtDepth < state.stmtDepth then
    reportWhen (!state.stmtDepthLimitHit) .err_stmt_too_deeply_nested
    modify fun state => { state with stmtDepthLimitHit := true }
    return .null
  else statementAt ctx self state.current

def parseStatement : ParseStmt StmtNode := stmtDepthScope (boundedStatement ctx self)

/-- The parser with a bound on the calls that it nests. -/
def stmtParsers : Nat → StmtParsers
  | 0 =>
      { exprs := ctx.parsers 0
        parseStatement := failure
        moreStatements := failure
        finishLvalueStatement := fun _ _ => failure
        callArguments := fun _ => failure
        withRecords := failure
        caseLabels := failure
        caseParts := failure }
  | fuel + 1 =>
      let self := stmtParsers fuel
      { exprs := ctx.parsers (fuel + 1)
        parseStatement := parseStatement ctx self
        moreStatements := moreStatements self
        finishLvalueStatement := finishLvalueStatement self
        callArguments := callArguments self
        withRecords := withRecords self
        caseLabels := caseLabels ctx self
        caseParts := caseParts ctx self }

end Plang.Statements
