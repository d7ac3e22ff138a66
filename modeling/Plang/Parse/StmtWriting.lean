import Plang.Parse.ExprWriting
import Plang.Parse.StmtParser

/-!
# Statements and how they are written

A statement is written as its tree says.  A conditional whose first branch would take its `else` is
no statement, and nor is what begins with a variable that the parser takes for something else.
-/

namespace Plang.Statements

open Expressions

/-- The choices that a writer of statements has. -/
structure StmtManner extends Manner where
  /-- `otherwise` in front of a completer, and not `else`. -/
  otherwiseWord : Bool
  /-- A semicolon behind the last of several statements. -/
  lastSemicolon : Bool

section Writing

variable (ctx : Context) (manner : StmtManner)

/-! ### Writing -/

/-- The tokens of several more items, each behind a comma. -/
def behindComma {α : Type} (write : α → List Expressions.Token) (items : List α) :
    List Expressions.Token :=
  items.flatMap fun item => manner.token .Comma :: write item

def withCommas {α : Type} (write : α → List Expressions.Token) : List α → List Expressions.Token
  | [] => []
  | item :: items => write item ++ behindComma manner write items

def writeArgument : Argument → List Expressions.Token
  | .expr value => manner.write 0 value
  | .writeParam value width none =>
      manner.write 0 value ++ manner.token .Colon :: manner.write 0 width
  | .writeParam value width (some decimals) =>
      manner.write 0 value ++ manner.token .Colon ::
        (manner.write 0 width ++ manner.token .Colon :: manner.write 0 decimals)

/-- The parentheses behind a call; without arguments they may be left out. -/
def writeParens (empty : Bool) (inside : List Expressions.Token) : List Expressions.Token :=
  if empty ∧ !manner.emptyParens then [] else manner.parens inside

/-- A negative constant is written with its sign in front. -/
def writeConstant : ExprNode → List Expressions.Token
  | .unary .Minus operand => manner.token .Minus :: manner.write 4 operand
  | constant => manner.write 4 constant

def writeLabel (label : CaseLabel) : List Expressions.Token :=
  match label.high with
  | none => writeConstant manner label.low
  | some high => writeConstant manner label.low ++ manner.token .DotDot :: writeConstant manner high

/-- The number or the word of a label. -/
def labelToken (label : Text) : Expressions.Token :=
  ⟨if label.all Char.isDigit then .IntLit else .Identifier, label⟩

def lastSemicolon : List Expressions.Token :=
  if manner.lastSemicolon then [manner.token .Semicolon] else []

mutual

def writeStmt : StmtNode → List Expressions.Token
  | .null => []
  | .compound stmts =>
      manner.token .Begin :: (writeStmts stmts ++ (lastSemicolon manner ++ [manner.token .End]))
  | .assign target value => manner.write 4 target ++ manner.token .Assign :: manner.write 0 value
  | .call name args =>
      manner.name name ++
        writeParens manner args.isEmpty (withCommas manner (writeArgument manner) args)
  | .methodCall receiver method args =>
      manner.write 4 receiver ++ manner.token .Dot :: ⟨.Identifier, method⟩ ::
        writeParens manner args.isEmpty (manner.writeAll .Comma args)
  | .indirectCall callee args => manner.write 4 callee ++ manner.parens
    (manner.writeAll .Comma args)
  | .inheritedCall none _ => [manner.token .Inherited]
  | .inheritedCall (some method) args =>
      manner.token .Inherited :: ⟨.Identifier, method⟩ ::
        writeParens manner args.isEmpty (manner.writeAll .Comma args)
  | .ifStmt cond thenStmt elseStmt =>
      manner.token .If :: (manner.write 0 cond ++ manner.token .Then :: (writeStmt thenStmt ++
        if elseStmt.isNull then [] else manner.token .Else :: writeStmt elseStmt))
  | .whileStmt cond body =>
      manner.token .While :: (manner.write 0 cond ++ manner.token .Do :: writeStmt body)
  | .repeatStmt stmts cond =>
      manner.token .Repeat :: (writeStmts stmts ++
        (lastSemicolon manner ++ manner.token .Until :: manner.write 0 cond))
  | .forStmt var start limit downto body =>
      manner.token .For :: ⟨.Identifier, var⟩ :: manner.token .Assign ::
        (manner.write 0 start ++ manner.token (if downto then .Downto else .To) ::
          (manner.write 0 limit ++ manner.token .Do :: writeStmt body))
  | .forInStmt var setExpr body =>
      manner.token .For :: ⟨.Identifier, var⟩ :: manner.token .In ::
        (manner.write 0 setExpr ++ manner.token .Do :: writeStmt body)
  | .withStmt records body =>
      manner.token .With ::
        (withCommas manner (manner.write 4) records ++ manner.token .Do :: writeStmt body)
  | .caseStmt selector arms hasElse elseStmt =>
      manner.token .Case :: (manner.write 0 selector ++ manner.token .Of :: (writeStmts arms ++
        ((if hasElse then
            (if arms.isEmpty then [] else [manner.token .Semicolon]) ++
              manner.token (if manner.otherwiseWord then .Otherwise else .Else) ::
                -- Turbo Pascal has the statements of the completer without words around them.
                if ctx.opts.turbo then (writeStmt elseStmt).tail.dropLast
                else writeStmt elseStmt ++ lastSemicolon manner
          else if arms.isEmpty then [] else lastSemicolon manner) ++ [manner.token .End])))
  | .arm labels body =>
      withCommas manner (writeLabel manner) labels ++ manner.token .Colon :: writeStmt body
  | .gotoStmt label => [manner.token .Goto, labelToken label]
  | .labeled label stmt => labelToken label :: manner.token .Colon :: writeStmt stmt

/-- Several statements, with a semicolon between each two. -/
def writeStmts : List StmtNode → List Expressions.Token
  | [] => []
  | stmt :: stmts => writeStmt stmt ++ writeMore stmts

def writeMore : List StmtNode → List Expressions.Token
  | [] => []
  | stmt :: stmts => manner.token .Semicolon :: (writeStmt stmt ++ writeMore stmts)

end

end Writing

/-! ### How deeply statements are nested -/

mutual

/-- How many activations of `parseStatement` what is written needs at once. -/
def StmtNode.depth (turbo : Bool) : StmtNode → Nat
  | .compound stmts => max 1 (depths turbo stmts) + 1
  | .ifStmt _ thenStmt elseStmt => max (thenStmt.depth turbo) (elseStmt.depth turbo) + 1
  | .whileStmt _ body => body.depth turbo + 1
  | .repeatStmt stmts _ => max 1 (depths turbo stmts) + 1
  | .forStmt _ _ _ _ body => body.depth turbo + 1
  | .forInStmt _ _ body => body.depth turbo + 1
  | .withStmt _ body => body.depth turbo + 1
  | .caseStmt _ arms hasElse elseStmt =>
      max (depths turbo arms)
        (if hasElse then elseStmt.depth turbo - (if turbo then 1 else 0) else 0) + 1
  | .arm _ body => body.depth turbo
  | .labeled _ stmt => stmt.depth turbo + 1
  | .null => 1
  | .assign _ _ => 1
  | .call _ _ => 1
  | .methodCall _ _ _ => 1
  | .indirectCall _ _ => 1
  | .inheritedCall _ _ => 1
  | .gotoStmt _ => 1

def depths (turbo : Bool) : List StmtNode → Nat
  | [] => 0
  | stmt :: stmts => max (stmt.depth turbo) (depths turbo stmts)

end

/-! ### The statements of a dialect -/

/-- An `else` behind the statement would be taken for one of its own. -/
def StmtNode.isOpen : StmtNode → Bool
  | .ifStmt _ _ elseStmt => elseStmt.isNull || elseStmt.isOpen
  | .whileStmt _ body => body.isOpen
  | .forStmt _ _ _ _ body => body.isOpen
  | .forInStmt _ _ body => body.isOpen
  | .withStmt _ body => body.isOpen
  | .labeled _ stmt => stmt.isOpen
  | _ => false

def StmtNode.isArm : StmtNode → Bool
  | .arm _ _ => true
  | _ => false

/-- The innermost variable of a path. -/
def root : ExprNode → ExprNode
  | .index array _ => root array
  | .field record _ => root record
  | .deref pointer => root pointer
  | .substring str _ _ => root str
  | .methodCall receiver _ _ => root receiver
  | .indirectCall callee _ => root callee
  | expr => expr

section Dialect

variable (ctx : Context) (manner : StmtManner)

/-- The expression is read back where it is written at a level, from no depth on. -/
def hasExpr (level : Nat) (expr : ExprNode) : Bool :=
  ctx.has manner.toManner .expression expr && ctx.recovers manner.toManner .expression expr &&
    decide (manner.factorDepth level expr ≤ MaxExprDepth ∧ expr.valueDepth ≤ MaxValueDepth)

/-- A point belongs to the name of a module in front of it, and a parenthesis to a name. -/
def goesBehind (kind : TokenKind) : ExprNode → Bool
  | .ident name =>
      kind ≠ .LeftParen ∧
        (kind = .Dot → name.module?.isSome ∨ !ctx.qualifiedModules (toLower name.word))
  | .field _ _ => kind ≠ .LeftParen
  | .call _ _ => kind ≠ .LeftParen
  | _ => true

/-- A conversion of a variable begins with the name of a type, which may be reserved. -/
def isCastName (name : Name) : Bool :=
  ctx.opts.turbo ∧ (Context.isReservedType name ∨
    name.module? = none ∧ ctx.hasName name ∧ ctx.namesAType name)

/-- A name that a parenthesis may follow. -/
def isCallee (name : Name) : Bool :=
  ctx.hasName name ∧ (ctx.opts.turbo → name.module? = none → !ctx.namesAType name)

/-- The expressions that a statement may begin with. -/
def hasLvalue : ExprNode → Bool
  | .ident name => ctx.hasName name
  | .typeCast typeName operand => isCastName ctx typeName && hasExpr ctx manner 0 operand
  | .call name args => isCallee ctx name && args.all (hasExpr ctx manner 0)
  | .index array index =>
      goesBehind ctx .LeftBracket array && hasLvalue array && hasExpr ctx manner 0 index
  | .field record _ => goesBehind ctx .Dot record && hasLvalue record
  | .deref pointer => goesBehind ctx .Caret pointer && hasLvalue pointer
  | .substring str low high =>
      goesBehind ctx .LeftBracket str && hasLvalue str && hasExpr ctx manner 0 low &&
        hasExpr ctx manner 0 high
  | .methodCall receiver _ args =>
      goesBehind ctx .Dot receiver && hasLvalue receiver && args.all (hasExpr ctx manner 0)
  | .indirectCall callee args =>
      goesBehind ctx .LeftParen callee && hasLvalue callee && args.all (hasExpr ctx manner 0)
  | _ => false

def isCall : ExprNode → Bool
  | .call _ _ => true
  | _ => false

/-- Only an assignment begins with a reserved type. -/
def startsReserved (expr : ExprNode) : Bool :=
  match root expr with
  | .typeCast typeName _ => Context.isReservedType typeName
  | _ => false

def hasArgument (write : Bool) : Argument → Bool
  | .expr value => hasExpr ctx manner 0 value
  | .writeParam value width decimals =>
      write && hasExpr ctx manner 0 value && hasExpr ctx manner 0 width &&
        decimals.all (hasExpr ctx manner 0)

def hasConstant : ExprNode → Bool
  | .unary .Minus operand => hasExpr ctx manner 4 operand
  | constant => hasExpr ctx manner 4 constant

def hasLabel (label : CaseLabel) : Bool :=
  hasConstant ctx manner label.low &&
    label.high.all fun high => hasCaseConstantRanges ctx.opts && hasConstant ctx manner high

def isCompound : StmtNode → Bool
  | .compound _ => true
  | _ => false

mutual

/-- The dialect has the statement. -/
def hasStmt : StmtNode → Bool
  | .null => true
  | .compound stmts => hasStmts stmts && stmts.all fun stmt => !stmt.isNull && !stmt.isArm
  | .assign target value =>
      hasLvalue ctx manner target && !isCall target && hasExpr ctx manner 0 value
  | .call name args => isCallee ctx name && args.all (hasArgument ctx manner (isWrite name))
  | .methodCall receiver method args =>
      hasLvalue ctx manner (.methodCall receiver method args) && !startsReserved receiver
  | .indirectCall callee args =>
      hasLvalue ctx manner (.indirectCall callee args) && !startsReserved callee
  | .inheritedCall method args =>
      ctx.opts.turbo && (method.isSome || args.isEmpty) && args.all (hasExpr ctx manner 0)
  | .ifStmt cond thenStmt elseStmt =>
      hasExpr ctx manner 0 cond && hasStmt thenStmt && hasStmt elseStmt &&
        !thenStmt.isArm && !elseStmt.isArm && (elseStmt.isNull || !thenStmt.isOpen)
  | .whileStmt cond body => hasExpr ctx manner 0 cond && hasStmt body && !body.isArm
  | .repeatStmt stmts cond =>
      hasStmts stmts && (stmts.all fun stmt => !stmt.isNull && !stmt.isArm) &&
        hasExpr ctx manner 0 cond
  | .forStmt _ start limit _ body =>
      hasExpr ctx manner 0 start && hasExpr ctx manner 0 limit && hasStmt body && !body.isArm
  | .forInStmt _ setExpr body =>
      ctx.opts.extendedPascal && hasExpr ctx manner 0 setExpr && hasStmt body && !body.isArm
  | .withStmt records body =>
      !records.isEmpty && records.all (hasExpr ctx manner 4) && hasStmt body && !body.isArm
  | .caseStmt selector arms hasElse elseStmt =>
      hasExpr ctx manner 0 selector && hasStmts arms && arms.all StmtNode.isArm &&
        hasStmt elseStmt && !elseStmt.isArm &&
        if hasElse then
          hasCaseDefaultArm ctx.opts && (!ctx.opts.turbo || isCompound elseStmt)
        else elseStmt.isNull
  | .arm labels body =>
      !labels.isEmpty && labels.all (hasLabel ctx manner) && hasStmt body && !body.isArm
  | .gotoStmt label => canonicalLabel label = label
  | .labeled label stmt => canonicalLabel label = label && hasStmt stmt && !stmt.isArm

def hasStmts : List StmtNode → Bool
  | [] => true
  | stmt :: stmts => hasStmt stmt && hasStmts stmts

end

end Dialect

attribute [grind =] writeStmt StmtNode.depth root hasStmt hasLvalue

end Plang.Statements
