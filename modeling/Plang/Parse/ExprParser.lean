import Plang.Library.Fuel
import Plang.Parse.IntLiterals

/-!
# The expression parser

Expressions by recursive descent, one function for each level of precedence, with the structured
values of Extended Pascal.  The calls of each function go through a table of all of them, which is
tied to itself as often as there is fuel.
-/

namespace Plang.Expressions

open IntLiterals (IntLitExpr LiteralError parseIntLit)

/-! ### Tokens and trees -/

/-- A token without its position. -/
structure Token where
  kind : TokenKind
  lexeme : Text
  deriving DecidableEq

def Token.eof : Token := ⟨.Eof, []⟩

/-- The kind of the first of the tokens. -/
def headKind (tokens : List Token) : TokenKind := (tokens.headD .eof).kind

@[simp] theorem headKind_cons {token : Token} {tokens : List Token} :
    headKind (token :: tokens) = token.kind := rfl

/-- The kinds with one spelling. -/
def hasFixedSpelling : TokenKind → Bool
  | .IntLit | .RealLit | .StringLit | .Identifier | .Eof | .Error => false
  | _ => true

/-- A name, with the module in front of it where that is imported `qualified`. -/
structure Name where
  module? : Option Text
  word : Text
  deriving DecidableEq

/-- The spelling of a name in the source. -/
def Name.spelling (name : Name) : Text :=
  match name.module? with
  | none => name.word
  | some module => module ++ '.' :: name.word

/-- Expressions, with the ranges and arms that stand in some of them. -/
inductive ExprNode where
  | intLit (node : IntLitExpr)
  /-- The value is that of the lexeme. -/
  | realLit (lexeme : Text)
  | stringLit (value : Text)
  | nil
  | boolLit (value : Bool)
  | ident (name : Name)
  | unary (op : TokenKind) (operand : ExprNode)
  | binary (op : TokenKind) (left right : ExprNode)
  | index (array index : ExprNode)
  | field (record : ExprNode) (field : Text)
  | deref (pointer : ExprNode)
  | substring (str low high : ExprNode)
  | call (name : Name) (args : List ExprNode)
  | methodCall (receiver : ExprNode) (method : Text) (args : List ExprNode)
  | indirectCall (callee : ExprNode) (args : List ExprNode)
  /-- Without a method where the word stands alone. -/
  | inheritedCall (method : Option Text) (args : List ExprNode)
  | typeCast (typeName : Name) (operand : ExprNode)
  | setLiteral (typeName : Option Name) (elements : List ExprNode)
  | setRange (low high : ExprNode)
  | structuredValue (typeName : Option Name) (arms : List ExprNode)
  | arm (labels : List ExprNode) (isOtherwise : Bool) (value : ExprNode)

def ExprNode.isIdent : ExprNode → Bool
  | .ident _ => true
  | _ => false

/-- The errors that the parser of expressions reports. -/
inductive ParseError where
  | err_expected_token (wanted got : TokenKind)
  | err_expected_token_got_lexeme (wanted got : TokenKind) (lexeme : Text)
  | err_expected_expr (got : TokenKind)
  | err_ep_operator (op : Text)
  | err_expr_too_deeply_nested
  | err_value_too_deeply_nested
  | literal (error : LiteralError)
  | err_real_literal_out_of_range (lexeme : Text)
  deriving DecidableEq

/-! ### Tokens are taken one by one -/

/-- The dialect, and the names in lower case that tell one reading of a token from another. -/
structure Context where
  opts : LangOptions
  qualifiedModules : Text → Bool
  typeNames : Text → Bool
  varNames : Text → Bool
  /-- `std::from_chars` of a double finds the literal too large or too small. -/
  realOutOfRange : Text → Bool

structure ParserState where
  /-- The first one is `Current`. -/
  tokens : List Token
  errors : List ParseError
  exprDepth : Nat
  exprDepthLimitHit : Bool
  valueDepth : Nat
  valueDepthLimitHit : Bool

abbrev Parse := StateT ParserState Option

def ParserState.current (state : ParserState) : Token := state.tokens.headD .eof

def current : Parse Token := fun state => some (state.current, state)

def advance : Parse Unit := fun state => some ((), { state with tokens := state.tokens.tail })

def emitError (error : ParseError) : Parse Unit := fun state =>
  some ((), { state with errors := state.errors ++ [error] })

def reportIf (condition : Bool) (error : ParseError) : Parse Unit :=
  if condition then emitError error else return ()

def check (kind : TokenKind) : Parse Bool := fun state => some (state.current.kind == kind, state)

/-- `match`: takes the token if it has the kind. -/
def accept (kind : TokenKind) : Parse Bool := do
  if ← check kind then
    advance
    return true
  else return false

/-- Without the token it is taken as read, and what stands there is left. -/
def expect (kind : TokenKind) : Parse Token := do
  let token ← current
  if token.kind = kind then
    advance
    return token
  else
    emitError
      (if hasFixedSpelling token.kind || token.lexeme.isEmpty then
        .err_expected_token kind token.kind
      else .err_expected_token_got_lexeme kind token.kind token.lexeme)
    return ⟨kind, []⟩

def isRelop : TokenKind → Bool
  | .Equal | .NotEqual | .LessThan | .LessThanOrEqual | .GreaterThan | .GreaterThanOrEqual
  | .In => true
  | _ => false

def isAddop : TokenKind → Bool
  | .Plus | .Minus | .Or | .OrElse | .SymDiff | .Xor => true
  | _ => false

def isMulop : TokenKind → Bool
  | .Times | .Divide | .Div | .Mod | .And | .AndThen | .Shl | .Shr => true
  | _ => false

def isExpop : TokenKind → Bool
  | .StarStar | .Pow => true
  | _ => false

/-- The names of standard types that are reserved words. -/
def isTypeKeyword : TokenKind → Bool
  | .Integer | .Real | .Boolean | .Char | .String => true
  | _ => false

def MaxExprDepth : Nat := 500

def MaxValueDepth : Nat := 500

/-- The constructor and the destructor of `ExprDepthScope`. -/
def enterExprDepth : Parse Unit := fun state =>
  some ((), { state with exprDepth := state.exprDepth + 1 })

def leaveExprDepth : Parse Unit := fun state =>
  some ((), { state with
    exprDepth := state.exprDepth - 1
    exprDepthLimitHit := if state.exprDepth - 1 = 0 then false else state.exprDepthLimitHit })

/-- `ExprDepthScope` around the rest of an activation. -/
def exprDepthScope {α : Type} (run : Parse α) : Parse α := do
  enterExprDepth
  let result ← run
  leaveExprDepth
  return result

/-- The constructor and the destructor of `ValueDepthScope`. -/
def enterValueDepth : Parse Unit := fun state =>
  some ((), { state with valueDepth := state.valueDepth + 1 })

def leaveValueDepth : Parse Unit := fun state =>
  some ((), { state with
    valueDepth := state.valueDepth - 1
    valueDepthLimitHit := if state.valueDepth - 1 = 0 then false else state.valueDepthLimitHit })

/-- `ValueDepthScope` around the rest of an activation. -/
def valueDepthScope {α : Type} (run : Parse α) : Parse α := do
  enterValueDepth
  let result ← run
  leaveValueDepth
  return result

/-- The bracket behind a parenthesized expression: it is not missed on the way out of too many. -/
def closeParen : Parse Unit := do
  let state ← get
  if state.exprDepthLimitHit then
    let _ ← accept .RightParen
    return ()
  else
    let _ ← expect .RightParen
    return ()

/-- The bracket behind a structured value. -/
def closeValue : Parse Unit := do
  let state ← get
  if state.valueDepthLimitHit then
    let _ ← accept .RightBracket
    return ()
  else
    let _ ← expect .RightBracket
    return ()

/-! ### The functions of the parser -/

/-- The functions that call each other, with the loops in them. -/
structure Parsers where
  parseExpression : Parse ExprNode
  parseSimpleExpr : Parse ExprNode
  /-- `while (isAddop(Current.Kind))` of `parseSimpleExpr`. -/
  moreTerms (left : ExprNode) : Parse ExprNode
  parseTerm : Parse ExprNode
  /-- `while (isMulop(Current.Kind))` of `parseTerm`. -/
  moreFactors (left : ExprNode) : Parse ExprNode
  parsePower : Parse ExprNode
  parsePostfix (expr : ExprNode) : Parse ExprNode
  /-- `do ... while (match(Comma))` of `parsePostfix`. -/
  subscripts (expr : ExprNode) : Parse ExprNode
  parseFactor : Parse ExprNode
  /-- `parseExpression` once, and again behind each comma. -/
  arguments : Parse (List ExprNode)
  parseComponentValue : Parse ExprNode
  parseValueLabels : Parse (List ExprNode)
  parseValueArms : Parse (List ExprNode)
  parseVariantPartValue : Parse (List ExprNode)
  parseFieldListValue : Parse (List ExprNode)
  /-- `while (match(Semicolon))` of `parseStructuredValueOrIndex`. -/
  moreArms : Parse (List ExprNode)
  parseStructuredValueOrIndex (name : Name) : Parse ExprNode

namespace Context

variable (ctx : Context) (self : Parsers)

/-- The rest of a relation behind its left operand. -/
def relation (left : ExprNode) : Parse ExprNode := do
  let op ← current
  if isRelop op.kind then
    advance
    let right ← self.parseSimpleExpr
    return .binary op.kind left right
  else return left

def parseExpression : Parse ExprNode := do
  let left ← self.parseSimpleExpr
  relation self left

def parseSimpleExpr : Parse ExprNode := do
  let sign ← current
  if sign.kind = .Plus ∨ sign.kind = .Minus then
    advance
    let operand ← self.parseTerm
    self.moreTerms (.unary sign.kind operand)
  else
    let left ← self.parseTerm
    self.moreTerms left

/-- An operator of Extended Pascal in two words, told by the token behind the first one. -/
def secondWord (op first second both : TokenKind) : Parse TokenKind := do
  let next ← current
  if op = first ∧ next.kind = second ∧ ctx.opts.extendedPascal then
    advance
    return both
  else return op

def moreTerms (left : ExprNode) : Parse ExprNode := do
  let op ← current
  if isAddop op.kind then
    reportIf (op.kind == .SymDiff && !ctx.opts.extendedPascal) (.err_ep_operator "><".toList)
    advance
    let kind ← ctx.secondWord op.kind .Or .Else .OrElse
    let right ← self.parseTerm
    self.moreTerms (.binary kind left right)
  else return left

def parseTerm : Parse ExprNode := do
  let left ← self.parsePower
  self.moreFactors left

def moreFactors (left : ExprNode) : Parse ExprNode := do
  let op ← current
  if isMulop op.kind then
    advance
    let kind ← ctx.secondWord op.kind .And .Then .AndThen
    let right ← self.parsePower
    self.moreFactors (.binary kind left right)
  else return left

/-- The rest of an exponentiation behind its left operand.  The stack never runs short. -/
def exponentiation (left : ExprNode) : Parse ExprNode := do
  let op ← current
  if isExpop op.kind then
    reportIf (!ctx.opts.extendedPascal) (.err_ep_operator op.lexeme)
    advance
    let right ← self.parsePower
    return .binary op.kind left right
  else return left

def parsePower : Parse ExprNode := do
  let left ← self.parseFactor
  ctx.exponentiation self left

def moreSubscripts (selected : ExprNode) : Parse ExprNode := do
  if ← accept .Comma then self.subscripts selected else return selected

/-- A range selects a substring, and a single index a component. -/
def subscript (expr idxOrLow : ExprNode) : Parse ExprNode := do
  if ← accept .DotDot then
    let high ← self.parseExpression
    moreSubscripts self (.substring expr idxOrLow high)
  else moreSubscripts self (.index expr idxOrLow)

def subscripts (expr : ExprNode) : Parse ExprNode := do
  let idxOrLow ← self.parseExpression
  subscript self expr idxOrLow

def moreArguments : Parse (List ExprNode) := do
  if ← accept .Comma then self.arguments else return []

def arguments : Parse (List ExprNode) := do
  let arg ← self.parseExpression
  let args ← moreArguments self
  return arg :: args

/-- The arguments between the parentheses of a call, and the right parenthesis. -/
def argumentList : Parse (List ExprNode) := do
  if ← check .RightParen then
    let _ ← expect .RightParen
    return []
  else
    let args ← self.arguments
    let _ ← expect .RightParen
    return args

def parsePostfix (expr : ExprNode) : Parse ExprNode := do
  let token ← current
  match token.kind with
  | .LeftBracket =>
      advance
      let selected ← self.subscripts expr
      let _ ← expect .RightBracket
      self.parsePostfix selected
  | .Dot =>
      advance
      let fieldName ← expect .Identifier
      if ← accept .LeftParen then
        let args ← argumentList self
        self.parsePostfix (.methodCall expr fieldName.lexeme args)
      else self.parsePostfix (.field expr fieldName.lexeme)
  | .Caret =>
      advance
      self.parsePostfix (.deref expr)
  | .LeftParen =>
      if expr.isIdent then return expr
      else
        advance
        let args ← argumentList self
        self.parsePostfix (.indirectCall expr args)
  | _ => return expr

/-! ### Structured values -/

def moreLabels : Parse (List ExprNode) := do
  if ← accept .Comma then self.parseValueLabels else return []

/-- A value, or a range. -/
def label (low : ExprNode) : Parse ExprNode := do
  if ← accept .DotDot then
    let high ← self.parseExpression
    return .setRange low high
  else return low

def parseOneLabel : Parse ExprNode := do
  let low ← self.parseExpression
  label self low

def parseValueLabels : Parse (List ExprNode) := do
  let first ← parseOneLabel self
  let labels ← moreLabels self
  return first :: labels

/-- The rest of an arm behind its labels. -/
def armBehind (labels : List ExprNode) : Parse ExprNode := do
  let _ ← expect .Colon
  let value ← self.parseComponentValue
  return .arm labels false value

def labelledArm : Parse ExprNode := do
  let labels ← self.parseValueLabels
  armBehind self labels

/-- `if (match(Semicolon)) parseValueArms(*Node)`. -/
def moreValueArms : Parse (List ExprNode) := do
  if ← accept .Semicolon then self.parseValueArms else return []

/-- The colon behind the labels tells a structured value from a set. -/
def arrayOrSet (first : List ExprNode) : Parse ExprNode := do
  if ← accept .Colon then
    let value ← self.parseComponentValue
    let arms ← moreValueArms self
    closeValue
    return .structuredValue none (.arm first false value :: arms)
  else
    let _ ← expect .RightBracket
    return .setLiteral none first

/-- A component value behind its left bracket. -/
def bracketedValue : Parse ExprNode := do
  if ← accept .RightBracket then return .structuredValue none []
  else
    let token ← current
    if token.kind = .Case ∨ token.kind = .Otherwise then
      let arms ← self.parseValueArms
      closeValue
      return .structuredValue none arms
    else
      let first ← self.parseValueLabels
      arrayOrSet self first

def componentValue : Parse ExprNode := do
  if ← accept .LeftBracket then bracketedValue self else self.parseExpression

def parseComponentValue : Parse ExprNode := do
  let state ← get
  if MaxValueDepth ≤ state.valueDepth then
    reportIf (!state.valueDepthLimitHit) .err_value_too_deeply_nested
    modify fun state => { state with valueDepthLimitHit := true }
    return .intLit {}
  else valueDepthScope (componentValue self)

/-- The completer; a colon behind the word is passed over. -/
def otherwiseArm (parseValue : Parse ExprNode) : Parse ExprNode := do
  advance
  let _ ← accept .Colon
  let value ← parseValue
  let _ ← accept .Semicolon
  return .arm [] true value

def parseValueArms : Parse (List ExprNode) := do
  let token ← current
  match token.kind with
  | .RightBracket => return []
  | .Eof => return []
  | .Case =>
      let arms ← self.parseVariantPartValue
      let others ← moreValueArms self
      return arms ++ others
  | .Otherwise =>
      let arm ← otherwiseArm self.parseComponentValue
      return [arm]
  | _ =>
      let arm ← labelledArm self
      let others ← moreValueArms self
      return arm :: others

def moreFields : Parse (List ExprNode) := do
  if ← accept .Semicolon then self.parseFieldListValue else return []

def parseFieldListValue : Parse (List ExprNode) := do
  let token ← current
  match token.kind with
  | .RightBracket => return []
  | .Eof => return []
  | .Case =>
      let arms ← self.parseVariantPartValue
      let others ← moreFields self
      return arms ++ others
  | _ =>
      let labels ← self.arguments
      let _ ← expect .Colon
      let value ← self.parseExpression
      let others ← moreFields self
      return .arm labels false value :: others

/-- The arms of a variant part: the expression read first is the name of the tag field where a colon
is behind it, and else its value. -/
def tagArm (first : ExprNode) : Parse (List ExprNode) := do
  if ← accept .Colon then
    let value ← self.parseExpression
    return [.arm [first] false value]
  else return []

/-- A variant part, from its first word on. -/
def variantPart : Parse (List ExprNode) := do
  advance
  let first ← self.parseExpression
  let tag ← tagArm self first
  let _ ← expect .Of
  let _ ← expect .LeftBracket
  let fields ← self.parseFieldListValue
  closeValue
  return tag ++ fields

def parseVariantPartValue : Parse (List ExprNode) := do
  let state ← get
  if MaxValueDepth ≤ state.valueDepth then
    reportIf (!state.valueDepthLimitHit) .err_value_too_deeply_nested
    modify fun state => { state with valueDepthLimitHit := true }
    return []
  else valueDepthScope (variantPart self)

def moreArms : Parse (List ExprNode) := do
  if ← accept .Semicolon then
    let token ← current
    match token.kind with
    | .RightBracket => return []
    | .Eof => return []
    | .Otherwise =>
        let arm ← otherwiseArm self.parseComponentValue
        return [arm]
    | .Case =>
        let arms ← self.parseVariantPartValue
        let others ← self.moreArms
        return arms ++ others
    | _ =>
        let arm ← labelledArm self
        let others ← self.moreArms
        return arm :: others
  else return []

/-- The name is that of a type, and not of a variable too. -/
def namesAType (name : Name) : Bool :=
  ctx.typeNames (toLower name.spelling) && !ctx.varNames (toLower name.spelling)

/-- The node for brackets without a colon behind a name. -/
def setOrIndex (name : Name) (labels : List ExprNode) : Parse ExprNode :=
  if 1 < labels.length ∧ !ctx.namesAType name then
    self.parsePostfix (labels.foldl .index (.ident name))
  else if labels.length = 1 ∧ ctx.namesAType name then return .setLiteral (some name) labels
  else
    match labels with
    | [.setRange low high] => return .substring (.ident name) low high
    | [label] => self.parsePostfix (.index (.ident name) label)
    | labels => return .setLiteral (some name) labels

/-- The node for a name and labels in brackets; the token behind the labels tells a structured value
from the others. -/
def constructorOrIndex (name : Name) (labels : List ExprNode) : Parse ExprNode := do
  if ← accept .Colon then
    let value ← self.parseComponentValue
    let arms ← self.moreArms
    closeValue
    self.parsePostfix (.structuredValue (some name) (.arm labels false value :: arms))
  else if ← accept .RightBracket then ctx.setOrIndex self name labels
  else
    let token ← current
    emitError (.err_expected_token .RightBracket token.kind)
    return .ident name

def parseStructuredValueOrIndex (name : Name) : Parse ExprNode := do
  advance
  let token ← current
  match token.kind with
  | .RightBracket =>
      advance
      return .setLiteral (some name) []
  | .Case =>
      let arms ← self.parseVariantPartValue
      let _ ← accept .Semicolon
      closeValue
      self.parsePostfix (.structuredValue (some name) arms)
  | .Otherwise =>
      let arm ← otherwiseArm self.parseExpression
      let _ ← expect .RightBracket
      self.parsePostfix (.structuredValue (some name) [arm])
  | _ =>
      let labels ← self.parseValueLabels
      ctx.constructorOrIndex self name labels

/-! ### Factors -/

/-- A call of one of the three functions that take a type. -/
def takesType (callee : Name) : Bool :=
  let lo := toLower callee.spelling
  lo = "sizeof".toList ∨ lo = "high".toList ∨ lo = "low".toList

/-- The first argument of `sizeof`, `high` and `low` may be one of the reserved type names. -/
def parseSizeHighLowArg (callee : Name) : Parse ExprNode := do
  let token ← current
  if takesType callee ∧ isTypeKeyword token.kind then
    advance
    return .ident ⟨none, token.lexeme⟩
  else self.parseExpression

/-- The name behind an identifier that was taken. -/
def qualifiedName (word : Text) : Parse Name := do
  let token ← current
  if token.kind = .Dot ∧ ctx.qualifiedModules (toLower word) then
    advance
    let member ← expect .Identifier
    return ⟨some word, member.lexeme⟩
  else return ⟨none, word⟩

def castOperand (typeName : Name) : Parse ExprNode := do
  advance
  let operand ← self.parseExpression
  let _ ← expect .RightParen
  self.parsePostfix (.typeCast typeName operand)

/-- The arguments of a call by name, whose left parenthesis was taken. -/
def callArguments (name : Name) : Parse (List ExprNode) := do
  if ← check .RightParen then
    let _ ← expect .RightParen
    return []
  else
    let arg ← parseSizeHighLowArg self name
    let args ← moreArguments self
    let _ ← expect .RightParen
    return arg :: args

/-- The rest of a factor that begins with a name. -/
def behindName (name : Name) : Parse ExprNode := do
  let token ← current
  if ctx.opts.turbo ∧ ctx.namesAType name ∧ token.kind = .LeftParen then castOperand self name
  else if token.kind = .LeftParen then
    advance
    let args ← callArguments self name
    self.parsePostfix (.call name args)
  else if ctx.opts.extendedPascal ∧ token.kind = .LeftBracket then
    self.parseStructuredValueOrIndex name
  else self.parsePostfix (.ident name)

/-- An identifier that was taken. -/
def parseIdentifier (word : Text) : Parse ExprNode := do
  let name ← ctx.qualifiedName word
  ctx.behindName self name

/-- `inherited` was taken. -/
def parseInherited : Parse ExprNode := do
  let token ← current
  if token.kind = .Identifier then
    advance
    if ← accept .LeftParen then
      let args ← argumentList self
      self.parsePostfix (.inheritedCall (some token.lexeme) args)
    else self.parsePostfix (.inheritedCall (some token.lexeme) [])
  else self.parsePostfix (.inheritedCall none [])

/-- A set literal whose left bracket was taken. -/
def parseSetLiteral : Parse ExprNode := do
  let token ← current
  if token.kind = .RightBracket then
    let _ ← expect .RightBracket
    return .setLiteral none []
  else
    let elements ← self.parseValueLabels
    let _ ← expect .RightBracket
    return .setLiteral none elements

def parseIntLiteral (lexeme : Text) : Parse ExprNode := do
  let (node, errors) := parseIntLit lexeme
  modify fun state => { state with errors := state.errors ++ errors.map .literal }
  advance
  return .intLit node

def parseRealLiteral (lexeme : Text) : Parse ExprNode := do
  if ctx.realOutOfRange lexeme then
    emitError (.err_real_literal_out_of_range lexeme)
    advance
    return .realLit "0.0".toList
  else
    advance
    return .realLit lexeme

/-- An unexpected token is passed over. -/
def skip (kind : TokenKind) : Parse Unit := if kind = .Eof then return () else advance

/-- The factor that begins with a token. -/
def factorAt (token : Token) : Parse ExprNode :=
  match token.kind with
  | .IntLit => parseIntLiteral token.lexeme
  | .RealLit => ctx.parseRealLiteral token.lexeme
  | .StringLit => do
      advance
      return .stringLit token.lexeme
  | .Nil => do
      advance
      return .nil
  | .True => do
      advance
      return .boolLit true
  | .False => do
      advance
      return .boolLit false
  | .Not => do
      advance
      let operand ← self.parseFactor
      return .unary .Not operand
  | .At => do
      advance
      let operand ← self.parseFactor
      return .unary .At operand
  | .LeftParen => do
      advance
      let expr ← self.parseExpression
      closeParen
      return expr
  | .LeftBracket => do
      advance
      parseSetLiteral self
  | .Inherited => do
      advance
      parseInherited self
  | .Identifier => do
      advance
      ctx.parseIdentifier self token.lexeme
  | kind => do
      if isTypeKeyword kind then
        advance
        let next ← current
        if ctx.opts.turbo ∧ next.kind = .LeftParen then castOperand self ⟨none, token.lexeme⟩
        else
          emitError (.err_expected_expr kind)
          return .intLit {}
      else
        emitError (.err_expected_expr kind)
        skip kind
        return .intLit {}

def parseFactor : Parse ExprNode := do
  let state ← get
  if MaxExprDepth ≤ state.exprDepth then
    reportIf (!state.exprDepthLimitHit) .err_expr_too_deeply_nested
    modify fun state => { state with exprDepthLimitHit := true }
    return .intLit {}
  else exprDepthScope (ctx.factorAt self state.current)

/-- The parser with a bound on the calls that it nests. -/
def parsers (ctx : Context) : Nat → Parsers
  | 0 =>
      { parseExpression := failure
        parseSimpleExpr := failure
        moreTerms := fun _ => failure
        parseTerm := failure
        moreFactors := fun _ => failure
        parsePower := failure
        parsePostfix := fun _ => failure
        subscripts := fun _ => failure
        parseFactor := failure
        arguments := failure
        parseComponentValue := failure
        parseValueLabels := failure
        parseValueArms := failure
        parseVariantPartValue := failure
        parseFieldListValue := failure
        moreArms := failure
        parseStructuredValueOrIndex := fun _ => failure }
  | fuel + 1 =>
      let self := ctx.parsers fuel
      { parseExpression := parseExpression self
        parseSimpleExpr := parseSimpleExpr self
        moreTerms := ctx.moreTerms self
        parseTerm := parseTerm self
        moreFactors := ctx.moreFactors self
        parsePower := ctx.parsePower self
        parsePostfix := parsePostfix self
        subscripts := subscripts self
        parseFactor := ctx.parseFactor self
        arguments := arguments self
        parseComponentValue := parseComponentValue self
        parseValueLabels := parseValueLabels self
        parseValueArms := parseValueArms self
        parseVariantPartValue := parseVariantPartValue self
        parseFieldListValue := parseFieldListValue self
        moreArms := moreArms self
        parseStructuredValueOrIndex := ctx.parseStructuredValueOrIndex self }

end Context

end Plang.Expressions
