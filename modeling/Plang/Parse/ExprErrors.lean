import Plang.Parse.ExprParser

/-!
# What the expression parser reports is not taken back

Every function of the parser leaves what was reported before it.  Where a token stands that cannot
follow what was read, what is expected behind it is reported.
-/

namespace Plang.Expressions

open Fuel

/-- More was reported than that many errors. -/
def Grown (errors : Nat) (state : ParserState) : Prop := errors < state.errors.length

/-- Nothing more was reported, and the next token is one that cannot follow. -/
structure Stuck (follows : TokenKind → Bool) (errors : Nat) (state : ParserState) : Prop where
  same : errors = state.errors.length
  gone : follows state.current.kind = false
  exprLimit : state.exprDepthLimitHit = false
  valueLimit : state.valueDepthLimitHit = false

def Lost (follows : TokenKind → Bool) (errors : Nat) (state : ParserState) : Prop :=
  Grown errors state ∨ Stuck follows errors state

/-- No report is taken back. -/
def Mono {α : Type} (run : Parse α) : Prop := ∀ errors, Turns (Grown errors) (Grown errors) run

namespace Mono

variable {α β : Type}

theorem pure (result : α) : Mono (Pure.pure result : Parse α) := fun _ => .pure result

theorem bind {run : Parse α} {next : α → Parse β} (first : Mono run)
    (second : ∀ result, Mono (next result)) : Mono (run >>= next) :=
  fun errors => .bind (first errors) fun result => second result errors

theorem failure : Mono (failure : Parse α) := fun _ => .failure

theorem ite {condition : Prop} [Decidable condition] {left right : Parse α} (first : Mono left)
    (second : Mono right) : Mono (if condition then left else right) :=
  fun errors => .ite (first errors) (second errors)

/-- A function that leaves what was reported. -/
theorem of_errors {run : Parse α} (leaves : ∀ state result final,
    run state = some (result, final) → state.errors.length ≤ final.errors.length) : Mono run :=
  fun _ state result final grown ended => Nat.lt_of_lt_of_le grown (leaves state result final ended)

theorem current : Mono current := of_errors (by rintro state _ _ ⟨⟩; exact Nat.le_refl _)

theorem get : Mono (get : Parse ParserState) :=
  of_errors (by rintro state _ _ ⟨⟩; exact Nat.le_refl _)

theorem advance : Mono advance := of_errors (by rintro state _ _ ⟨⟩; exact Nat.le_refl _)

theorem check (kind : TokenKind) : Mono (check kind) :=
  of_errors (by rintro state _ _ ⟨⟩; exact Nat.le_refl _)

theorem emitError (error : ParseError) : Mono (emitError error) := by
  apply of_errors
  rintro state _ _ ⟨⟩
  simp

theorem reportIf (condition : Bool) (error : ParseError) : Mono (reportIf condition error) :=
  ite (emitError error) (pure ())

theorem accept (kind : TokenKind) : Mono (accept kind) :=
  bind (check kind) fun _ => ite (bind advance fun _ => pure true) (pure false)

theorem expect (kind : TokenKind) : Mono (expect kind) :=
  bind current fun token => ite (bind advance fun _ => pure token)
    (bind (emitError _) fun _ => pure _)

/-- A change of something else than the reports. -/
theorem modify {change : ParserState → ParserState}
    (leaves : ∀ state, (change state).errors = state.errors) :
    Mono (modify change : Parse PUnit) := by
  apply of_errors
  rintro state _ _ ⟨⟩
  exact Nat.le_of_eq (congrArg List.length (leaves state)).symm

theorem exprDepthScope {run : Parse α} (mono : Mono run) : Mono (exprDepthScope run) :=
  bind (of_errors (by rintro state _ _ ⟨⟩; exact Nat.le_refl _)) fun _ => bind mono fun _ =>
    bind (of_errors (by rintro state _ _ ⟨⟩; exact Nat.le_refl _)) fun _ => pure _

theorem valueDepthScope {run : Parse α} (mono : Mono run) : Mono (valueDepthScope run) :=
  bind (of_errors (by rintro state _ _ ⟨⟩; exact Nat.le_refl _)) fun _ => bind mono fun _ =>
    bind (of_errors (by rintro state _ _ ⟨⟩; exact Nat.le_refl _)) fun _ => pure _

theorem closeParen : Mono closeParen :=
  bind get fun _ => ite (bind (accept _) fun _ => pure ()) (bind (expect _) fun _ => pure ())

theorem closeValue : Mono closeValue :=
  bind get fun _ => ite (bind (accept _) fun _ => pure ()) (bind (expect _) fun _ => pure ())

end Mono

/-- No function of the table takes a report back. -/
structure Parsers.Mono (table : Parsers) : Prop where
  parseExpression : Expressions.Mono table.parseExpression
  parseSimpleExpr : Expressions.Mono table.parseSimpleExpr
  moreTerms : ∀ left, Expressions.Mono (table.moreTerms left)
  parseTerm : Expressions.Mono table.parseTerm
  moreFactors : ∀ left, Expressions.Mono (table.moreFactors left)
  parsePower : Expressions.Mono table.parsePower
  parsePostfix : ∀ expr, Expressions.Mono (table.parsePostfix expr)
  subscripts : ∀ expr, Expressions.Mono (table.subscripts expr)
  parseFactor : Expressions.Mono table.parseFactor
  arguments : Expressions.Mono table.arguments
  parseComponentValue : Expressions.Mono table.parseComponentValue
  parseValueLabels : Expressions.Mono table.parseValueLabels
  parseValueArms : Expressions.Mono table.parseValueArms
  parseVariantPartValue : Expressions.Mono table.parseVariantPartValue
  parseFieldListValue : Expressions.Mono table.parseFieldListValue
  moreArms : Expressions.Mono table.moreArms
  parseStructuredValueOrIndex : ∀ name, Expressions.Mono (table.parseStructuredValueOrIndex name)

namespace Context

variable (ctx : Context) {self : Parsers} (mono : self.Mono)

include mono

theorem mono_relation (left : ExprNode) : Mono (relation self left) :=
  .bind .current fun _ =>
    .ite (.bind .advance fun _ => .bind mono.parseSimpleExpr fun _ => .pure _) (.pure _)

theorem mono_parseExpression : Mono (parseExpression self) :=
  .bind mono.parseSimpleExpr fun _ => mono_relation mono _

theorem mono_parseSimpleExpr : Mono (parseSimpleExpr self) :=
  .bind .current fun _ => .ite
    (.bind .advance fun _ => .bind mono.parseTerm fun _ => mono.moreTerms _)
    (.bind mono.parseTerm fun _ => mono.moreTerms _)

omit mono in
theorem mono_secondWord (op first second both : TokenKind) :
    Mono (ctx.secondWord op first second both) :=
  .bind .current fun _ => .ite (.bind .advance fun _ => .pure _) (.pure _)

theorem mono_moreTerms (left : ExprNode) : Mono (ctx.moreTerms self left) :=
  .bind .current fun _ => .ite
    (.bind (.reportIf _ _) fun _ => .bind .advance fun _ => .bind (ctx.mono_secondWord _ _ _ _)
      fun _ => .bind mono.parseTerm fun _ => mono.moreTerms _)
    (.pure _)

theorem mono_parseTerm : Mono (parseTerm self) := .bind mono.parsePower fun _ => mono.moreFactors _

theorem mono_moreFactors (left : ExprNode) : Mono (ctx.moreFactors self left) :=
  .bind .current fun _ => .ite
    (.bind .advance fun _ => .bind (ctx.mono_secondWord _ _ _ _) fun _ =>
      .bind mono.parsePower fun _ => mono.moreFactors _)
    (.pure _)

theorem mono_exponentiation (left : ExprNode) : Mono (ctx.exponentiation self left) :=
  .bind .current fun _ => .ite
    (.bind (.reportIf _ _) fun _ => .bind .advance fun _ => .bind mono.parsePower fun _ => .pure _)
    (.pure _)

theorem mono_parsePower : Mono (ctx.parsePower self) :=
  .bind mono.parseFactor fun _ => ctx.mono_exponentiation mono _

theorem mono_moreSubscripts (selected : ExprNode) : Mono (moreSubscripts self selected) :=
  .bind (.accept _) fun _ => .ite (mono.subscripts _) (.pure _)

theorem mono_subscript (expr idxOrLow : ExprNode) : Mono (subscript self expr idxOrLow) :=
  .bind (.accept _) fun _ => .ite
    (.bind mono.parseExpression fun _ => mono_moreSubscripts mono _) (mono_moreSubscripts mono _)

theorem mono_subscripts (expr : ExprNode) : Mono (subscripts self expr) :=
  .bind mono.parseExpression fun _ => mono_subscript mono _ _

theorem mono_moreArguments : Mono (moreArguments self) :=
  .bind (.accept _) fun _ => .ite mono.arguments (.pure _)

theorem mono_arguments : Mono (arguments self) :=
  .bind mono.parseExpression fun _ => .bind (mono_moreArguments mono) fun _ => .pure _

theorem mono_argumentList : Mono (argumentList self) :=
  .bind (.check _) fun _ => .ite (.bind (.expect _) fun _ => .pure _)
    (.bind mono.arguments fun _ => .bind (.expect _) fun _ => .pure _)

theorem mono_parsePostfix (expr : ExprNode) : Mono (parsePostfix self expr) := by
  refine .bind .current fun token => ?_
  split
  · exact .bind .advance fun _ => .bind (mono.subscripts _) fun _ => .bind (.expect _) fun _ =>
      mono.parsePostfix _
  · exact .bind .advance fun _ => .bind (.expect _) fun _ => .bind (.accept _) fun _ =>
      .ite (.bind (mono_argumentList mono) fun _ => mono.parsePostfix _) (mono.parsePostfix _)
  · exact .bind .advance fun _ => mono.parsePostfix _
  · exact .ite (.pure _) (.bind .advance fun _ => .bind (mono_argumentList mono) fun _ =>
      mono.parsePostfix _)
  · exact .pure _

theorem mono_moreLabels : Mono (moreLabels self) :=
  .bind (.accept _) fun _ => .ite mono.parseValueLabels (.pure _)

theorem mono_label (low : ExprNode) : Mono (label self low) :=
  .bind (.accept _) fun _ => .ite (.bind mono.parseExpression fun _ => .pure _) (.pure _)

theorem mono_parseOneLabel : Mono (parseOneLabel self) :=
  .bind mono.parseExpression fun _ => mono_label mono _

theorem mono_parseValueLabels : Mono (parseValueLabels self) :=
  .bind (mono_parseOneLabel mono) fun _ => .bind (mono_moreLabels mono) fun _ => .pure _

theorem mono_armBehind (labels : List ExprNode) : Mono (armBehind self labels) :=
  .bind (.expect _) fun _ => .bind mono.parseComponentValue fun _ => .pure _

theorem mono_labelledArm : Mono (labelledArm self) :=
  .bind mono.parseValueLabels fun _ => mono_armBehind mono _

theorem mono_moreValueArms : Mono (moreValueArms self) :=
  .bind (.accept _) fun _ => .ite mono.parseValueArms (.pure _)

theorem mono_arrayOrSet (first : List ExprNode) : Mono (arrayOrSet self first) :=
  .bind (.accept _) fun _ => .ite
    (.bind mono.parseComponentValue fun _ => .bind (mono_moreValueArms mono) fun _ =>
      .bind .closeValue fun _ => .pure _)
    (.bind (.expect _) fun _ => .pure _)

theorem mono_bracketedValue : Mono (bracketedValue self) :=
  .bind (.accept _) fun _ => .ite (.pure _) (.bind .current fun _ => .ite
    (.bind mono.parseValueArms fun _ => .bind .closeValue fun _ => .pure _)
    (.bind mono.parseValueLabels fun _ => mono_arrayOrSet mono _))

theorem mono_componentValue : Mono (componentValue self) :=
  .bind (.accept _) fun _ => .ite (mono_bracketedValue mono) mono.parseExpression

theorem mono_parseComponentValue : Mono (parseComponentValue self) :=
  .bind .get fun _ => .ite
    (.bind (.reportIf _ _) fun _ => .bind (.modify fun _ => rfl) fun _ => .pure _)
    (.valueDepthScope (mono_componentValue mono))

omit mono in
theorem mono_otherwiseArm {parseValue : Parse ExprNode} (value : Mono parseValue) :
    Mono (otherwiseArm parseValue) :=
  .bind .advance fun _ => .bind (.accept _) fun _ => .bind value fun _ => .bind (.accept _) fun _ =>
    .pure _

theorem mono_parseValueArms : Mono (parseValueArms self) := by
  refine .bind .current fun token => ?_
  split
  · exact .pure _
  · exact .pure _
  · exact .bind mono.parseVariantPartValue fun _ => .bind (mono_moreValueArms mono) fun _ => .pure _
  · exact .bind (mono_otherwiseArm mono.parseComponentValue) fun _ => .pure _
  · exact .bind (mono_labelledArm mono) fun _ => .bind (mono_moreValueArms mono) fun _ => .pure _

theorem mono_moreFields : Mono (moreFields self) :=
  .bind (.accept _) fun _ => .ite mono.parseFieldListValue (.pure _)

theorem mono_parseFieldListValue : Mono (parseFieldListValue self) := by
  refine .bind .current fun token => ?_
  split
  · exact .pure _
  · exact .pure _
  · exact .bind mono.parseVariantPartValue fun _ => .bind (mono_moreFields mono) fun _ => .pure _
  · exact .bind mono.arguments fun _ => .bind (.expect _) fun _ =>
      .bind mono.parseExpression fun _ => .bind (mono_moreFields mono) fun _ => .pure _

theorem mono_tagArm (first : ExprNode) : Mono (tagArm self first) :=
  .bind (.accept _) fun _ => .ite (.bind mono.parseExpression fun _ => .pure _) (.pure _)

theorem mono_variantPart : Mono (variantPart self) :=
  .bind .advance fun _ => .bind mono.parseExpression fun _ => .bind (mono_tagArm mono _) fun _ =>
    .bind (.expect _) fun _ => .bind (.expect _) fun _ => .bind mono.parseFieldListValue fun _ =>
      .bind .closeValue fun _ => .pure _

theorem mono_parseVariantPartValue : Mono (parseVariantPartValue self) :=
  .bind .get fun _ => .ite
    (.bind (.reportIf _ _) fun _ => .bind (.modify fun _ => rfl) fun _ => .pure _)
    (.valueDepthScope (mono_variantPart mono))

theorem mono_moreArms : Mono (moreArms self) := by
  refine .bind (.accept _) fun _ => .ite (.bind .current fun token => ?_) (.pure _)
  split
  · exact .pure _
  · exact .pure _
  · exact .bind (mono_otherwiseArm mono.parseComponentValue) fun _ => .pure _
  · exact .bind mono.parseVariantPartValue fun _ => .bind mono.moreArms fun _ => .pure _
  · exact .bind (mono_labelledArm mono) fun _ => .bind mono.moreArms fun _ => .pure _

theorem mono_setOrIndex (name : Name) (labels : List ExprNode) :
    Mono (ctx.setOrIndex self name labels) := by
  refine .ite (mono.parsePostfix _) (.ite (.pure _) ?_)
  split
  · exact .pure _
  · exact mono.parsePostfix _
  · exact .pure _

theorem mono_constructorOrIndex (name : Name) (labels : List ExprNode) :
    Mono (ctx.constructorOrIndex self name labels) :=
  .bind (.accept _) fun _ => .ite
    (.bind mono.parseComponentValue fun _ => .bind mono.moreArms fun _ =>
      .bind .closeValue fun _ => mono.parsePostfix _)
    (.bind (.accept _) fun _ => .ite (ctx.mono_setOrIndex mono name _)
      (.bind .current fun _ => .bind (.emitError _) fun _ => .pure _))

theorem mono_parseStructuredValueOrIndex (name : Name) :
    Mono (ctx.parseStructuredValueOrIndex self name) := by
  refine .bind .advance fun _ => .bind .current fun token => ?_
  split
  · exact .bind .advance fun _ => .pure _
  · exact .bind mono.parseVariantPartValue fun _ => .bind (.accept _) fun _ =>
      .bind .closeValue fun _ => mono.parsePostfix _
  · exact .bind (mono_otherwiseArm mono.parseExpression) fun _ => .bind (.expect _) fun _ =>
      mono.parsePostfix _
  · exact .bind mono.parseValueLabels fun _ => ctx.mono_constructorOrIndex mono name _

theorem mono_parseSizeHighLowArg (callee : Name) : Mono (parseSizeHighLowArg self callee) :=
  .bind .current fun _ => .ite (.bind .advance fun _ => .pure _) mono.parseExpression

omit mono in
theorem mono_qualifiedName (word : Text) : Mono (ctx.qualifiedName word) :=
  .bind .current fun _ =>
    .ite (.bind .advance fun _ => .bind (.expect _) fun _ => .pure _) (.pure _)

theorem mono_castOperand (typeName : Name) : Mono (castOperand self typeName) :=
  .bind .advance fun _ => .bind mono.parseExpression fun _ => .bind (.expect _) fun _ =>
    mono.parsePostfix _

theorem mono_callArguments (name : Name) : Mono (callArguments self name) :=
  .bind (.check _) fun _ => .ite (.bind (.expect _) fun _ => .pure _)
    (.bind (mono_parseSizeHighLowArg mono name) fun _ => .bind (mono_moreArguments mono) fun _ =>
      .bind (.expect _) fun _ => .pure _)

theorem mono_behindName (name : Name) : Mono (ctx.behindName self name) :=
  .bind .current fun _ =>
    .ite (mono_castOperand mono _) (.ite
      (.bind .advance fun _ => .bind (mono_callArguments mono _) fun _ => mono.parsePostfix _)
      (.ite (mono.parseStructuredValueOrIndex _) (mono.parsePostfix _)))

theorem mono_parseIdentifier (word : Text) : Mono (ctx.parseIdentifier self word) :=
  .bind (ctx.mono_qualifiedName word) fun _ => ctx.mono_behindName mono _

theorem mono_parseInherited : Mono (parseInherited self) :=
  .bind .current fun _ => .ite
    (.bind .advance fun _ => .bind (.accept _) fun _ =>
      .ite (.bind (mono_argumentList mono) fun _ => mono.parsePostfix _) (mono.parsePostfix _))
    (mono.parsePostfix _)

theorem mono_parseSetLiteral : Mono (parseSetLiteral self) :=
  .bind .current fun _ => .ite (.bind (.expect _) fun _ => .pure _)
    (.bind mono.parseValueLabels fun _ => .bind (.expect _) fun _ => .pure _)

omit mono in
theorem mono_parseIntLiteral (lexeme : Text) : Mono (parseIntLiteral lexeme) := by
  apply Mono.of_errors
  rintro state _ _ ⟨⟩
  simp

omit mono in
theorem mono_parseRealLiteral (lexeme : Text) : Mono (ctx.parseRealLiteral lexeme) :=
  .ite (.bind (.emitError _) fun _ => .bind .advance fun _ => .pure _)
    (.bind .advance fun _ => .pure _)

theorem mono_factorAt (token : Token) : Mono (ctx.factorAt self token) := by
  unfold factorAt
  split
  · exact mono_parseIntLiteral _
  · exact ctx.mono_parseRealLiteral _
  · exact .bind .advance fun _ => .pure _
  · exact .bind .advance fun _ => .pure _
  · exact .bind .advance fun _ => .pure _
  · exact .bind .advance fun _ => .pure _
  · exact .bind .advance fun _ => .bind mono.parseFactor fun _ => .pure _
  · exact .bind .advance fun _ => .bind mono.parseFactor fun _ => .pure _
  · exact .bind .advance fun _ => .bind mono.parseExpression fun _ => .bind .closeParen fun _ =>
      .pure _
  · exact .bind .advance fun _ => mono_parseSetLiteral mono
  · exact .bind .advance fun _ => mono_parseInherited mono
  · exact .bind .advance fun _ => ctx.mono_parseIdentifier mono _
  · refine .ite (.bind .advance fun _ => .bind .current fun _ => .ite (mono_castOperand mono _)
      (.bind (.emitError _) fun _ => .pure _)) (.bind (.emitError _) fun _ => .bind ?_ fun _ =>
        .pure _)
    exact .ite (.pure _) .advance

theorem mono_parseFactor : Mono (ctx.parseFactor self) :=
  .bind .get fun _ => .ite
    (.bind (.reportIf _ _) fun _ => .bind (.modify fun _ => rfl) fun _ => .pure _)
    (.exprDepthScope (ctx.mono_factorAt mono _))

omit mono in
/-- No function of the parser takes a report back. -/
theorem mono_parsers (fuel : Nat) : (ctx.parsers fuel).Mono := by
  induction fuel with
  | zero =>
      constructor <;> intros <;> exact .failure
  | succ fuel mono =>
      exact
        { parseExpression := mono_parseExpression mono
          parseSimpleExpr := mono_parseSimpleExpr mono
          moreTerms := ctx.mono_moreTerms mono
          parseTerm := mono_parseTerm mono
          moreFactors := ctx.mono_moreFactors mono
          parsePower := ctx.mono_parsePower mono
          parsePostfix := mono_parsePostfix mono
          subscripts := mono_subscripts mono
          parseFactor := ctx.mono_parseFactor mono
          arguments := mono_arguments mono
          parseComponentValue := mono_parseComponentValue mono
          parseValueLabels := mono_parseValueLabels mono
          parseValueArms := mono_parseValueArms mono
          parseVariantPartValue := mono_parseVariantPartValue mono
          parseFieldListValue := mono_parseFieldListValue mono
          moreArms := mono_moreArms mono
          parseStructuredValueOrIndex := ctx.mono_parseStructuredValueOrIndex mono }

end Context

end Plang.Expressions
