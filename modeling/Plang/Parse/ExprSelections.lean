import Plang.Parse.ExprFactors

/-!
# Reading selections

The loop behind a factor takes one selection after the other: subscripts, fields, dereferences and
calls.
-/

namespace Plang.Expressions

open Fuel

variable {ctx : Context} {tokens : List Token} {expr : ExprNode} {factors values errors : Nat}
  {good : Bool}

/-- A selection turns an expression into another one, with which the loop goes on. -/
def Context.Selection (ctx : Context) (expr : ExprNode) (tokens : List Token) (selected : ExprNode)
    (before : TokenKind → Bool) (factors values : Nat) (good : Bool) : Prop :=
  ReadsOn (fun fuel => (ctx.parsers fuel).parsePostfix expr)
    (fun expr fuel => (ctx.parsers fuel).parsePostfix expr) tokens selected before factors values
    good

/-- A factor with which the loop goes on. -/
def Context.BaseReads (ctx : Context) (tokens : List Token) (expr : ExprNode)
    (before : TokenKind → Bool) (factors values : Nat) (good : Bool) : Prop :=
  ReadsOn (fun fuel => ctx.currentFactor (ctx.parsers fuel))
    (fun expr fuel => (ctx.parsers fuel).parsePostfix expr) tokens expr before factors values good

theorem parsePostfix_of_follows {self : Parsers} (expr : ExprNode) {state : ParserState}
    (ends : follows state.current.kind = true) :
    Context.parsePostfix self expr state = some (expr, state) := by
  rw [Context.parsePostfix, bind_apply, current_apply, Option.bind_some]
  dsimp only
  generalize state.current.kind = kind at ends
  cases kind <;> first | rfl | exact absurd ends (by decide)

/-- Behind a token that is no selector the loop is over. -/
theorem postfix_ends (expr : ExprNode) {state : ParserState} {rest : List Token}
    (ends : follows (headKind rest) = true) :
    Ends (Lost follows errors) (fun fuel => (ctx.parsers fuel).parsePostfix expr)
      (state.reading rest) expr (state.reading rest) true := by
  apply Ends.call (fun fuel => Context.parsePostfix (ctx.parsers fuel) expr) fun _ => rfl
  exact Ends.of_eq (Ends.pure expr (state.reading rest)) fun fuel => parsePostfix_of_follows expr ends

theorem Context.BaseReads.body {before : TokenKind → Bool}
    (reads : ctx.BaseReads tokens expr before factors values good)
    (ends : ∀ kind, follows kind = true → before kind = true) :
    ctx.BodyReads tokens expr factors values good := by
  intro state rest room follow
  rw [← Bool.and_true good]
  exact reads state rest expr (state.reading rest) true room (ends _ follow)
    (postfix_ends expr follow)

/-- A selection behind a factor. -/
theorem Context.BaseReads.select {before after : TokenKind → Bool} {selection : List Token}
    {selected : ExprNode} {fine : Bool}
    (reads : ctx.BaseReads tokens expr before factors values good)
    (selects : ctx.Selection expr selection selected after factors values fine)
    (taken : ∀ rest, before (headKind (selection ++ rest)) = true) :
    ctx.BaseReads (tokens ++ selection) selected after factors values (good && fine) := by
  intro state rest last final sound room follow goes
  have more := selects state rest last final sound room follow goes
  have whole := reads state (selection ++ rest) last final (fine && sound) room (taken rest) more
  rw [Bool.and_assoc, List.append_assoc]
  exact whole

/-! ### Subscripts -/

theorem turns_moreSubscripts (selected : ExprNode) (fuel : Nat) :
    Turns (Lost follows errors) (Lost (only .RightBracket) errors)
      (Context.moreSubscripts (ctx.parsers fuel) selected) := by
  apply turns_accept (by decide) ((ctx.mono_parsers fuel).subscripts selected)
  apply turns_pure
  intro kind
  cases kind <;> decide

theorem turns_subscript (expr idxOrLow : ExprNode) (fuel : Nat) :
    Turns (Lost follows errors) (Lost (only .RightBracket) errors)
      (Context.subscript (ctx.parsers fuel) expr idxOrLow) :=
  turns_accept (by decide)
    (.bind (ctx.mono_parsers fuel).parseExpression fun _ =>
      Context.mono_moreSubscripts (ctx.mono_parsers fuel) _)
    (turns_moreSubscripts _ fuel)

/-- Behind one subscript the right bracket ends the list of them. -/
theorem moreSubscripts_ends (selected : ExprNode) {state : ParserState} {rest : List Token}
    (text : Text) :
    Ends (Lost (only .RightBracket) errors)
      (fun fuel => Context.moreSubscripts (ctx.parsers fuel) selected)
      (state.reading (⟨.RightBracket, text⟩ :: rest)) selected
      (state.reading (⟨.RightBracket, text⟩ :: rest)) true :=
  Ends.of_eq (Ends.pure selected _) fun _ => rfl

theorem Context.ExprReads.subscript (reads : ctx.ExprReads tokens expr factors values good)
    (array : ExprNode) (text : Text) {state : ParserState} {rest : List Token}
    (room : Room factors values state) :
    Ends (Lost (only .RightBracket) state.errors.length)
      (fun fuel => (ctx.parsers fuel).subscripts array)
      (state.reading (tokens ++ ⟨.RightBracket, text⟩ :: rest)) (.index array expr)
      (state.reading (⟨.RightBracket, text⟩ :: rest)) good := by
  have begun := reads state (⟨.RightBracket, text⟩ :: rest) room rfl
  have beyond : Ends (Lost (only .RightBracket) state.errors.length)
      (fun fuel => Context.moreSubscripts (ctx.parsers fuel) (.index array expr))
      (state.reading (⟨.RightBracket, text⟩ :: rest)) (.index array expr)
      (state.reading (⟨.RightBracket, text⟩ :: rest)) true :=
    moreSubscripts_ends (.index array expr) text
  have done : Ends (Lost (only .RightBracket) state.errors.length)
      (fun fuel => Context.subscript (ctx.parsers fuel) array expr)
      (state.reading (⟨.RightBracket, text⟩ :: rest)) (.index array expr)
      (state.reading (⟨.RightBracket, text⟩ :: rest)) true := beyond.of_eq fun _ => rfl
  rw [← Bool.and_true good]
  exact .call _ (fun _ => rfl) (begun.bind done (turns_subscript array))

theorem Context.ExprReads.slice {others : List Token} {low high : ExprNode} {fine : Bool}
    (first : ctx.ExprReads tokens low factors values good)
    (second : ctx.ExprReads others high factors values fine) (str : ExprNode) (text dots : Text)
    {state : ParserState} {rest : List Token} (room : Room factors values state) :
    Ends (Lost (only .RightBracket) state.errors.length)
      (fun fuel => (ctx.parsers fuel).subscripts str)
      (state.reading (tokens ++ ⟨.DotDot, dots⟩ :: (others ++ ⟨.RightBracket, text⟩ :: rest)))
      (.substring str low high) (state.reading (⟨.RightBracket, text⟩ :: rest))
      (good && fine) := by
  have begun := first state
    (⟨.DotDot, dots⟩ :: (others ++ ⟨.RightBracket, text⟩ :: rest)) room rfl
  have goes := second state (⟨.RightBracket, text⟩ :: rest) room rfl
  have tail : Ends (Lost (only .RightBracket) state.errors.length)
      (fun fuel => (ctx.parsers fuel).parseExpression >>= fun high =>
        Context.moreSubscripts (ctx.parsers fuel) (.substring str low high))
      (state.reading (others ++ ⟨.RightBracket, text⟩ :: rest)) (.substring str low high)
      (state.reading (⟨.RightBracket, text⟩ :: rest)) (fine && true) :=
    goes.bind (moreSubscripts_ends (.substring str low high) text) fun _ => turns_moreSubscripts _
  rw [Bool.and_true] at tail
  have done : Ends (Lost (only .RightBracket) state.errors.length)
      (fun fuel => Context.subscript (ctx.parsers fuel) str low)
      (state.reading (⟨.DotDot, dots⟩ :: (others ++ ⟨.RightBracket, text⟩ :: rest)))
      (.substring str low high) (state.reading (⟨.RightBracket, text⟩ :: rest)) fine := by
    apply tail.of_eq
    intro fuel
    change (accept .DotDot >>= _) _ = _
    rw [bind_apply, accept_reading]
    rfl
  exact .call _ (fun _ => rfl) (begun.bind done (turns_subscript str))

/-- What is read between brackets is selected. -/
theorem selection_of_subscripts {selected : ExprNode} (left right : Text)
    (reads : ∀ (state : ParserState) rest, Room factors values state →
      Ends (Lost (only .RightBracket) state.errors.length)
        (fun fuel => (ctx.parsers fuel).subscripts expr)
        (state.reading (tokens ++ ⟨.RightBracket, right⟩ :: rest)) selected
        (state.reading (⟨.RightBracket, right⟩ :: rest)) good) :
    ctx.Selection expr (⟨.LeftBracket, left⟩ :: (tokens ++ [⟨.RightBracket, right⟩])) selected
      (fun _ => true) factors values good := by
  intro state rest last final fine room _ goes
  have inside := reads state rest room
  have closed : Ends (Lost follows state.errors.length)
      (fun fuel => expect .RightBracket >>= fun _ => (ctx.parsers fuel).parsePostfix selected)
      (state.reading (⟨.RightBracket, right⟩ :: rest)) last final fine := by
    apply goes.of_eq
    intro fuel
    rw [bind_apply, expect_reading]
    rfl
  have whole : Ends (Lost follows state.errors.length)
      (fun fuel => (ctx.parsers fuel).subscripts expr >>= fun selected =>
        expect .RightBracket >>= fun _ => (ctx.parsers fuel).parsePostfix selected)
      (state.reading (tokens ++ ⟨.RightBracket, right⟩ :: rest)) last final (good && fine) :=
    inside.bind closed fun selected fuel => turns_expect_bind (by decide) fun _ =>
      (ctx.mono_parsers fuel).parsePostfix selected
  apply Ends.call (fun fuel => Context.parsePostfix (ctx.parsers fuel) expr) fun _ => rfl
  apply whole.of_eq
  intro fuel
  rw [List.cons_append, List.append_assoc]
  rfl

/-! ### Fields, dereferences and calls -/

theorem selection_deref (text : Text) :
    ctx.Selection expr [⟨.Caret, text⟩] (.deref expr) (fun _ => true) 0 0 true := by
  intro state rest last final fine room _ goes
  rw [Bool.true_and]
  apply Ends.call (fun fuel => Context.parsePostfix (ctx.parsers fuel) expr) fun _ => rfl
  exact goes.of_eq fun _ => rfl

theorem selection_field (field text : Text) :
    ctx.Selection expr [⟨.Dot, text⟩, ⟨.Identifier, field⟩] (.field expr field)
      (fun kind => kind ≠ .LeftParen) 0 0 true := by
  intro state rest last final fine room follow goes
  rw [Bool.true_and]
  have other : (state.reading rest).current.kind ≠ .LeftParen := of_decide_eq_true follow
  apply Ends.call (fun fuel => Context.parsePostfix (ctx.parsers fuel) expr) fun _ => rfl
  apply goes.of_eq
  intro fuel
  simp only [Context.parsePostfix, bind_apply, current_apply, Option.bind_some, List.cons_append,
    List.nil_append, current_reading_cons, advance_reading, expect_reading, accept_of_ne other,
    Bool.false_eq_true, if_false]

section Calls

variable (manner : Manner) {exprs : List ExprNode} {sound : ExprNode → Bool}
  (each : ∀ expr ∈ exprs, ctx.ExprReads (manner.write 0 expr) expr factors values (sound expr))
  (starts : ∀ expr ∈ exprs, ∀ rest, startsExpr (headKind (manner.write 0 expr ++ rest)) = true)

include each starts

/-- What is called with arguments goes on as the call. -/
theorem called_reads (make : List ExprNode → ExprNode) (text : Text) {state : ParserState}
    {rest : List Token} {last : ExprNode} {final : ParserState} {fine : Bool}
    (room : Room factors values state)
    (goes : Ends (Lost follows state.errors.length)
      (fun fuel => (ctx.parsers fuel).parsePostfix (make exprs)) (state.reading rest) last final
      fine) :
    Ends (Lost follows state.errors.length)
      (fun fuel => Context.argumentList (ctx.parsers fuel) >>= fun args =>
        (ctx.parsers fuel).parsePostfix (make args))
      (state.reading (manner.writeAll .Comma exprs ++ [⟨.RightParen, text⟩] ++ rest)) last final
      (exprs.all sound && fine) :=
  (argumentList_read manner text each starts state rest room rfl).bind goes fun args fuel =>
    turns_of_stuck ((ctx.mono_parsers fuel).parsePostfix _) fun _ stuck =>
      absurd stuck.gone (by decide)

theorem selection_methodCall (method : Text) :
    ctx.Selection expr
      (manner.token .Dot :: ⟨.Identifier, method⟩ :: manner.parens (manner.writeAll .Comma exprs))
      (.methodCall expr method exprs) (fun _ => true) factors values (exprs.all sound) := by
  intro state rest last final fine room _ goes
  have whole := called_reads manner each starts (ExprNode.methodCall expr method)
    (manner.spell .RightParen) room goes
  apply Ends.call (fun fuel => Context.parsePostfix (ctx.parsers fuel) expr) fun _ => rfl
  apply whole.of_eq
  intro fuel
  rfl

theorem selection_indirectCall (other : expr.isIdent = false) :
    ctx.Selection expr (manner.parens (manner.writeAll .Comma exprs)) (.indirectCall expr exprs)
      (fun _ => true) factors values (exprs.all sound) := by
  intro state rest last final fine room _ goes
  have whole := called_reads manner each starts (ExprNode.indirectCall expr)
    (manner.spell .RightParen) room goes
  apply Ends.call (fun fuel => Context.parsePostfix (ctx.parsers fuel) expr) fun _ => rfl
  apply whole.of_eq
  intro fuel
  change (if expr.isIdent then _ else _ : Parse ExprNode) _ = _
  rw [other]
  rfl

end Calls

end Plang.Expressions
