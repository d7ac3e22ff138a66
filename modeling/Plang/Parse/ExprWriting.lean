import Plang.Parse.ExprParser

/-!
# Expressions and how they are written

An expression is written with parentheses around each operand whose operator binds less tightly than
its place needs.  What the dialect has no way to write is no expression of it.
-/

namespace Plang.Expressions

open IntLiterals (IntLitExpr)

/-- The choices that a writer of expressions has. -/
structure Manner where
  /-- How a token with one spelling is written, in capitals or small letters. -/
  spell : TokenKind → Text
  /-- `and then` and `or else` in two words each. -/
  twoWords : Bool
  /-- No parentheses around an exponentiation that is a right operand of another one. -/
  chained : Bool
  /-- Parentheses behind the name of an inherited method without arguments. -/
  emptyParens : Bool

/-! ### Writing -/

/-- The relational operators bind least tightly, the exponentiating ones most. -/
def precedence (op : TokenKind) : Nat :=
  if isRelop op then 0 else if isAddop op then 1 else if isMulop op then 2 else 3

def isSign (op : TokenKind) : Bool := op = .Plus ∨ op = .Minus

/-- The precedence of what the operator of an expression begins, with 4 for a factor. -/
def ExprNode.level : ExprNode → Nat
  | .binary op _ _ => precedence op
  | .unary op _ => if isSign op then 1 else 4
  | _ => 4

namespace Manner

variable (manner : Manner)

def token (kind : TokenKind) : Token := ⟨kind, manner.spell kind⟩

/-- Only the relational operators take a left operand that binds more tightly. -/
def leftLevel (op : TokenKind) : Nat :=
  if isRelop op then 1 else if isAddop op then 1 else if isMulop op then 2 else 4

def rightLevel (op : TokenKind) : Nat :=
  if isRelop op then 1 else if isAddop op then 2 else if isMulop op then 3
  else if manner.chained then 3 else 4

def operator (op : TokenKind) : List Token :=
  if manner.twoWords ∧ op = .AndThen then [manner.token .And, manner.token .Then]
  else if manner.twoWords ∧ op = .OrElse then [manner.token .Or, manner.token .Else]
  else [manner.token op]

/-- A name may be that of a reserved type. -/
def word (text : Text) : Token :=
  ⟨if isTypeKeyword (keywordKind text) then keywordKind text else .Identifier, text⟩

def name (name : Name) : List Token :=
  match name.module? with
  | none => [word name.word]
  | some module => [⟨.Identifier, module⟩, manner.token .Dot, ⟨.Identifier, name.word⟩]

def brackets (left right : TokenKind) (inside : List Token) : List Token :=
  manner.token left :: (inside ++ [manner.token right])

def parens (inside : List Token) : List Token := manner.brackets .LeftParen .RightParen inside

def wrap (needed : Bool) (inside : List Token) : List Token :=
  if needed then manner.parens inside else inside

mutual

/-- The tokens of an expression where what binds less tightly than a level is put in parentheses. -/
def write (level : Nat) : ExprNode → List Token
  | .intLit node => [⟨.IntLit, Nat.toDigits 10 node.denoted.toNat⟩]
  | .realLit lexeme => [⟨.RealLit, lexeme⟩]
  | .stringLit value => [⟨.StringLit, value⟩]
  | .nil => [manner.token .Nil]
  | .boolLit value => [manner.token (if value then .True else .False)]
  | .ident name => manner.name name
  | .unary op operand =>
      if isSign op then manner.wrap (1 < level) (manner.token op :: write 2 operand)
      else manner.token op :: write 4 operand
  | .binary op left right =>
      manner.wrap (precedence op < level)
        (write (leftLevel op) left ++ (manner.operator op ++ write (manner.rightLevel op) right))
  | .index array index =>
      write 4 array ++ manner.brackets .LeftBracket .RightBracket (write 0 index)
  | .field record field => write 4 record ++ [manner.token .Dot, ⟨.Identifier, field⟩]
  | .deref pointer => write 4 pointer ++ [manner.token .Caret]
  | .substring str low high =>
      write 4 str ++ manner.brackets .LeftBracket .RightBracket
        (write 0 low ++ manner.token .DotDot :: write 0 high)
  | .call name args => manner.name name ++ manner.parens (writeAll .Comma args)
  | .methodCall receiver method args =>
      write 4 receiver ++ manner.token .Dot :: ⟨.Identifier, method⟩ ::
        manner.parens (writeAll .Comma args)
  | .indirectCall callee args => write 4 callee ++ manner.parens (writeAll .Comma args)
  | .inheritedCall none _ => [manner.token .Inherited]
  | .inheritedCall (some method) args =>
      manner.token .Inherited :: ⟨.Identifier, method⟩ ::
        if args.isEmpty ∧ !manner.emptyParens then [] else manner.parens (writeAll .Comma args)
  | .typeCast typeName operand => manner.name typeName ++ manner.parens (write 0 operand)
  | .setLiteral typeName elements =>
      (typeName.map manner.name).getD [] ++
        manner.brackets .LeftBracket .RightBracket (writeAll .Comma elements)
  | .setRange low high => write 0 low ++ manner.token .DotDot :: write 0 high
  | .structuredValue typeName arms =>
      (typeName.map manner.name).getD [] ++
        manner.brackets .LeftBracket .RightBracket (writeAll .Semicolon arms)
  | .arm labels isOtherwise value =>
      if isOtherwise then manner.token .Otherwise :: write 0 value
      else writeAll .Comma labels ++ manner.token .Colon :: write 0 value

/-- Several of them, with a separator between each two. -/
def writeAll (separator : TokenKind) : List ExprNode → List Token
  | [] => []
  | expr :: exprs => write 0 expr ++ writeMore separator exprs

def writeMore (separator : TokenKind) : List ExprNode → List Token
  | [] => []
  | expr :: exprs => manner.token separator :: (write 0 expr ++ writeMore separator exprs)

end

end Manner

/-! ### How deeply what is written is nested -/

/-- A set or a constructor, which stands between brackets as a whole. -/
def ExprNode.isBracketed : ExprNode → Bool
  | .setLiteral none _ => true
  | .structuredValue none _ => true
  | _ => false

/-- The value of a completer with no arm in front of it, which is read as an expression in a
structured value with a type. -/
def onlyCompleter : List ExprNode → Option ExprNode
  | [.arm _ true value] => some value
  | _ => none

namespace Manner

variable (manner : Manner)

mutual

/-- How many activations of `parseFactor` what is written needs at once; a component between brackets
is read without one. -/
def factorDepth (level : Nat) : ExprNode → Nat
  | .unary op operand =>
      if isSign op then factorDepth 2 operand + (if 1 < level then 1 else 0)
      else factorDepth 4 operand + 1
  | .binary op left right =>
      max (factorDepth (leftLevel op) left) (factorDepth (manner.rightLevel op) right) +
        (if precedence op < level then 1 else 0)
  | .index array index => max (factorDepth 4 array) (factorDepth 0 index + 1)
  | .field record _ => factorDepth 4 record
  | .deref pointer => factorDepth 4 pointer
  | .substring str low high =>
      max (factorDepth 4 str) (max (factorDepth 0 low) (factorDepth 0 high) + 1)
  | .call _ args => factorDepths args + 1
  | .methodCall receiver _ args => max (factorDepth 4 receiver) (factorDepths args + 1)
  | .indirectCall callee args => max (factorDepth 4 callee) (factorDepths args + 1)
  | .inheritedCall _ args => factorDepths args + 1
  | .typeCast _ operand => factorDepth 0 operand + 1
  | .setLiteral _ elements => factorDepths elements + 1
  | .setRange low high => max (factorDepth 0 low) (factorDepth 0 high)
  | .structuredValue none arms => factorDepths arms + 1
  | .structuredValue (some _) arms =>
      factorDepths arms + 1 + (if (onlyCompleter arms).any ExprNode.isBracketed then 1 else 0)
  | .arm labels _ value =>
      max (factorDepths labels) (factorDepth 0 value - (if value.isBracketed then 1 else 0))
  | .intLit _ => 1
  | .realLit _ => 1
  | .stringLit _ => 1
  | .nil => 1
  | .boolLit _ => 1
  | .ident _ => 1

def factorDepths : List ExprNode → Nat
  | [] => 0
  | expr :: exprs => max (factorDepth 0 expr) (factorDepths exprs)

end

end Manner

mutual

/-- How many activations of `parseComponentValue` what is written needs at once. -/
def ExprNode.valueDepth : ExprNode → Nat
  | .unary _ operand => operand.valueDepth
  | .binary _ left right => max left.valueDepth right.valueDepth
  | .index array index => max array.valueDepth index.valueDepth
  | .field record _ => record.valueDepth
  | .deref pointer => pointer.valueDepth
  | .substring str low high => max str.valueDepth (max low.valueDepth high.valueDepth)
  | .call _ args => valueDepths args
  | .methodCall receiver _ args => max receiver.valueDepth (valueDepths args)
  | .indirectCall callee args => max callee.valueDepth (valueDepths args)
  | .inheritedCall _ args => valueDepths args
  | .typeCast _ operand => operand.valueDepth
  | .setLiteral _ elements => valueDepths elements
  | .setRange low high => max low.valueDepth high.valueDepth
  | .structuredValue none arms => valueDepths arms
  | .structuredValue (some _) arms =>
      valueDepths arms - (if (onlyCompleter arms).isSome then 1 else 0)
  | .arm labels _ value => max (valueDepths labels) (value.valueDepth + 1)
  | .intLit _ => 0
  | .realLit _ => 0
  | .stringLit _ => 0
  | .nil => 0
  | .boolLit _ => 0
  | .ident _ => 0

def valueDepths : List ExprNode → Nat
  | [] => 0
  | expr :: exprs => max expr.valueDepth (valueDepths exprs)

end

/-! ### The expressions of a dialect -/

/-- The arm for what no label names. -/
def ExprNode.isCompleter : ExprNode → Bool
  | .arm _ isOtherwise _ => isOtherwise
  | _ => false

/-- The places at which an expression stands. -/
inductive Place where
  | expression
  /-- A set may have ranges in it, and so may a list of labels. -/
  | element
  /-- The first argument of `sizeof`, `high` and `low` may be a reserved type. -/
  | sizeArgument
  /-- A component of a structured value may be one without a type. -/
  | component
  /-- The value of a completer in front of which there is nothing. -/
  | onlyComponent
  | arm
  | firstArm
  deriving DecidableEq

namespace Context

variable (ctx : Context) (manner : Manner)

def hasUnary (op : TokenKind) : Bool :=
  isSign op ∨ op = .Not ∨ op = .At ∧ ctx.opts.turbo

def hasBinary (op : TokenKind) : Bool :=
  if isRelop op then true
  else
    match op with
    | .Plus | .Minus | .Or | .Times | .Divide | .Div | .Mod | .And => true
    | .OrElse | .SymDiff | .AndThen | .StarStar | .Pow => ctx.opts.extendedPascal
    | .Xor | .Shl | .Shr => ctx.opts.turbo
    | _ => false

/-- A name is a word that is not reserved; a module in front of it is one that is imported
`qualified`. -/
def hasName (name : Name) : Bool :=
  match name.module? with
  | none => !isTypeKeyword (keywordKind name.word)
  | some module => ctx.qualifiedModules (toLower module)

/-- One of the reserved types. -/
def isReservedType (name : Name) : Bool :=
  name.module? = none ∧ isTypeKeyword (keywordKind name.word)

/-- The operator of a selection behind an expression is one of it.  A name with a bracket behind it
may be a type's, a parenthesis belongs to the name in front of it, and so does the point behind the
name of a module. -/
def selects (kind : TokenKind) : ExprNode → Bool
  | .ident name =>
      match kind with
      | .LeftParen => false
      | .LeftBracket => !ctx.opts.extendedPascal || !ctx.namesAType name
      | .Dot => name.module?.isSome || !ctx.qualifiedModules (toLower name.word)
      | _ => true
  | .field _ _ => kind ≠ .LeftParen
  | .inheritedCall (some _) args => !(kind = .LeftParen ∧ args.isEmpty ∧ !manner.emptyParens)
  | .inheritedCall none _ => true
  | .index _ _ => true
  | .deref _ => true
  | .substring _ _ _ => true
  | .call _ _ => true
  | .methodCall _ _ _ => true
  | .indirectCall _ _ => true
  | .typeCast _ _ => true
  | .structuredValue (some _) _ => true
  | _ => false

mutual

/-- The dialect has the expression at a place. -/
def has (place : Place) : ExprNode → Bool
  | .intLit node =>
      place ∉ [.arm, .firstArm] ∧ 0 ≤ node.denoted ∧
        (node.ExceedsInt64 ↔ (INT64_MAX : Int) < node.denoted)
  | .realLit lexeme => place ∉ [.arm, .firstArm] ∧ !ctx.realOutOfRange lexeme
  | .stringLit _ => place ∉ [.arm, .firstArm]
  | .nil => place ∉ [.arm, .firstArm]
  | .boolLit _ => place ∉ [.arm, .firstArm]
  | .ident name =>
      place ∉ [.arm, .firstArm] ∧
        (ctx.hasName name ∨ place = .sizeArgument ∧ isReservedType name)
  | .unary op operand =>
      place ∉ [.arm, .firstArm] ∧ ctx.hasUnary op ∧ has .expression operand
  | .binary op left right =>
      place ∉ [.arm, .firstArm] ∧ ctx.hasBinary op ∧ has .expression left ∧ has .expression right
  | .index array index =>
      place ∉ [.arm, .firstArm] ∧ ctx.selects manner .LeftBracket array ∧ has .expression array ∧
        has .expression index
  | .field record _ =>
      place ∉ [.arm, .firstArm] ∧ ctx.selects manner .Dot record ∧ has .expression record
  | .deref pointer =>
      place ∉ [.arm, .firstArm] ∧ ctx.selects manner .Caret pointer ∧ has .expression pointer
  | .substring str low high =>
      place ∉ [.arm, .firstArm] ∧ ctx.selects manner .LeftBracket str ∧ has .expression str ∧
        has .expression low ∧ has .expression high
  | .call name args =>
      place ∉ [.arm, .firstArm] ∧ ctx.hasName name ∧ (ctx.opts.turbo → !ctx.namesAType name) ∧
        hasAll (if takesType name then .sizeArgument else .expression) .expression args
  | .methodCall receiver _ args =>
      place ∉ [.arm, .firstArm] ∧ ctx.selects manner .Dot receiver ∧ has .expression receiver ∧
        hasAll .expression .expression args
  | .indirectCall callee args =>
      place ∉ [.arm, .firstArm] ∧ ctx.selects manner .LeftParen callee ∧ has .expression callee ∧
        hasAll .expression .expression args
  | .inheritedCall method args =>
      place ∉ [.arm, .firstArm] ∧ ctx.opts.turbo ∧ (method.isNone → args.isEmpty) ∧
        hasAll .expression .expression args
  | .typeCast typeName operand =>
      place ∉ [.arm, .firstArm] ∧ ctx.opts.turbo ∧
        (isReservedType typeName ∨ ctx.hasName typeName ∧ ctx.namesAType typeName) ∧
        has .expression operand
  | .setLiteral none elements =>
      place ∉ [.arm, .firstArm] ∧ (place = .component → !elements.isEmpty) ∧
        hasAll .element .element elements
  | .setLiteral (some typeName) elements =>
      place ∉ [.arm, .firstArm] ∧ ctx.opts.extendedPascal ∧ ctx.hasName typeName ∧
        (!elements.isEmpty → ctx.namesAType typeName) ∧ hasAll .element .element elements
  | .setRange low high => place = .element ∧ has .expression low ∧ has .expression high
  | .structuredValue none arms =>
      (place = .component ∨ place = .onlyComponent ∧ !arms.isEmpty) ∧ hasAll .arm .arm arms
  | .structuredValue (some typeName) arms =>
      place ∉ [.arm, .firstArm] ∧ ctx.opts.extendedPascal ∧ ctx.hasName typeName ∧
        !arms.isEmpty ∧ hasAll .firstArm .arm arms
  | .arm labels isOtherwise value =>
      place ∈ [.arm, .firstArm] ∧ isOtherwise = labels.isEmpty ∧ hasAll .element .element labels ∧
        has (if place = .firstArm ∧ isOtherwise then .onlyComponent else .component) value

/-- All expressions of a list can be written, the first one at one place and the others at another;
a completer is the last arm. -/
def hasAll (first more : Place) : List ExprNode → Bool
  | [] => true
  | expr :: exprs =>
      has first expr && hasAll more more exprs && (!expr.isCompleter || exprs.isEmpty)

end

/-! ### The expressions that the parser reads as they are -/

/-- Extended Pascal does not go on behind a substring of a plain name. -/
def stops : ExprNode → Bool
  | .substring (.ident _) _ _ => ctx.opts.extendedPascal
  | _ => false

end Context

/-- A structured value without a type. -/
def ExprNode.isUntypedValue : ExprNode → Bool
  | .structuredValue none _ => true
  | _ => false

/-- The first token of what is written is not taken for something else: for the name of a type
behind `sizeof`, `high` and `low`, and for a set or a structured value as a component. -/
def Manner.opens (manner : Manner) (expr : ExprNode) : Place → Bool
  | .sizeArgument => expr.isIdent || !isTypeKeyword (headKind (manner.write 0 expr))
  | .component => expr.isBracketed || headKind (manner.write 0 expr) != .LeftBracket
  | .onlyComponent => !expr.isUntypedValue
  | _ => true

namespace Context

variable (ctx : Context) (manner : Manner)

mutual

/-- The parser reads what is written as the expression, and reads all of it. -/
def recovers (place : Place) : ExprNode → Bool
  | .unary _ operand => recovers .expression operand
  | .binary _ left right => recovers .expression left && recovers .expression right
  | .index array index =>
      !ctx.stops array && (recovers .expression array && recovers .expression index)
  | .field record _ => !ctx.stops record && recovers .expression record
  | .deref pointer => !ctx.stops pointer && recovers .expression pointer
  | .substring str low high =>
      !ctx.stops str &&
        (recovers .expression str && (recovers .expression low && recovers .expression high))
  | .call name args =>
      recoversAll (if takesType name then .sizeArgument else .expression) .expression args
  | .methodCall receiver _ args =>
      !ctx.stops receiver &&
        (recovers .expression receiver && recoversAll .expression .expression args)
  | .indirectCall callee args =>
      !ctx.stops callee &&
        (recovers .expression callee && recoversAll .expression .expression args)
  | .inheritedCall _ args => recoversAll .expression .expression args
  | .typeCast _ operand => recovers .expression operand
  | .setLiteral _ elements => recoversAll .element .element elements
  | .setRange low high => recovers .expression low && recovers .expression high
  | .structuredValue none arms => recoversAll .arm .arm arms
  | .structuredValue (some _) arms => recoversAll .firstArm .arm arms
  | .arm labels isOtherwise value =>
      recoversAll .element .element labels &&
        (manner.opens value
            (if place = .firstArm ∧ isOtherwise then .onlyComponent else .component) &&
          recovers (if place = .firstArm ∧ isOtherwise then .onlyComponent else .component) value)
  | .intLit _ => true
  | .realLit _ => true
  | .stringLit _ => true
  | .nil => true
  | .boolLit _ => true
  | .ident _ => true

def recoversAll (first more : Place) : List ExprNode → Bool
  | [] => true
  | expr :: exprs =>
      manner.opens expr first && (recovers first expr && recoversAll more more exprs)

end

end Context

attribute [grind =] Manner.write Manner.factorDepth ExprNode.valueDepth Context.has Context.recovers

end Plang.Expressions
