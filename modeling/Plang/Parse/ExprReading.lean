import Plang.Parse.ExprErrors

/-!
# Reading expressions level by level

What each function of the parser reads of the tokens of an expression, from what the functions that
it calls read of the tokens of its parts.  A token that belongs to a selection stops every level
where the selection was not taken.
-/

namespace Plang.Expressions

open Fuel

/-! ### Tokens in front of the parser -/

section Tokens

variable {α : Type} {state : ParserState} {token : Token} {tokens rest : List Token}
  {kind : TokenKind}

def ParserState.reading (state : ParserState) (tokens : List Token) : ParserState :=
  { state with tokens }

@[simp] theorem current_apply : current state = some (state.current, state) := rfl

@[simp] theorem check_apply : check kind state = some (state.current.kind == kind, state) := rfl

@[simp] theorem current_reading_cons : (state.reading (token :: tokens)).current = token := rfl

theorem kind_current_reading : (state.reading tokens).current.kind = headKind tokens := rfl

@[simp] theorem errors_reading : (state.reading tokens).errors = state.errors := rfl

@[simp] theorem advance_reading :
    advance (state.reading (token :: tokens)) = some ((), state.reading tokens) := rfl

theorem accept_of_eq (same : token.kind = kind) :
    accept kind (state.reading (token :: tokens)) = some (true, state.reading tokens) := by
  simp only [accept, bind_apply, check_apply, current_reading_cons, same, beq_self_eq_true,
    Option.bind_some, if_true, advance_reading, pure_apply]

@[simp] theorem accept_reading (text : Text) :
    accept kind (state.reading (⟨kind, text⟩ :: tokens)) = some (true, state.reading tokens) :=
  accept_of_eq rfl

theorem accept_of_ne (other : state.current.kind ≠ kind) :
    accept kind state = some (false, state) := by
  simp only [accept, bind_apply, check_apply, beq_eq_false_iff_ne.mpr other, Option.bind_some,
    Bool.false_eq_true, if_false, pure_apply]

theorem expect_of_eq (same : token.kind = kind) :
    expect kind (state.reading (token :: tokens)) = some (token, state.reading tokens) := by
  simp only [expect, bind_apply, current_apply, current_reading_cons, same, Option.bind_some,
    if_true, advance_reading, pure_apply]

@[simp] theorem expect_reading (text : Text) :
    expect kind (state.reading (⟨kind, text⟩ :: tokens)) =
      some (⟨kind, text⟩, state.reading tokens) :=
  expect_of_eq rfl

/-- A token that is missing is reported. -/
theorem expect_of_ne (other : state.current.kind ≠ kind) {result : Token} {final : ParserState}
    (ended : expect kind state = some (result, final)) : Grown state.errors.length final := by
  simp only [expect, bind_apply, current_apply, Option.bind_some, if_neg other] at ended
  obtain ⟨-, rfl⟩ := Prod.mk.inj (Option.some.inj ended)
  simp [Grown]

/-- What follows a state that is lost: what was reported is not taken back, and the rest is about a
token that cannot follow. -/
theorem turns_of_stuck {follows after : TokenKind → Bool} {errors : Nat} {run : Parse α}
    (mono : Mono run) (stuck : ∀ state, Stuck follows errors state →
      ∀ result final, run state = some (result, final) → Lost after errors final) :
    Turns (Lost follows errors) (Lost after errors) run := by
  rintro state result final (grown | gone) ended
  · exact .inl (mono errors state result final grown ended)
  · exact stuck state gone result final ended

/-- Where another token is expected than one that can follow, that is reported. -/
theorem turns_expect {follows : TokenKind → Bool} {errors : Nat} (expected : follows kind = true) :
    Turns (Lost follows errors) (Grown errors) (expect kind) := by
  rintro state result final (grown | stuck) ended
  · exact Mono.expect kind errors state result final grown ended
  · rw [stuck.same]
    apply expect_of_ne _ ended
    rintro rfl
    exact absurd expected (by simp [stuck.gone])

theorem turns_pure {before after : TokenKind → Bool} {errors : Nat} (result : α)
    (fewer : ∀ kind, before kind = false → after kind = false) :
    Turns (Lost before errors) (Lost after errors) (pure result : Parse α) := by
  rintro state _ final (grown | stuck) ⟨⟩
  · exact .inl grown
  · exact .inr ⟨stuck.same, fewer _ stuck.gone, stuck.exprLimit, stuck.valueLimit⟩

/-- A token that may follow is not the one that stands there. -/
theorem turns_accept {before after : TokenKind → Bool} {errors : Nat} {yes no : Parse α}
    (expected : before kind = true) (mono : Mono yes)
    (turns : Turns (Lost before errors) (Lost after errors) no) :
    Turns (Lost before errors) (Lost after errors)
      (accept kind >>= fun taken => if taken = true then yes else no) := by
  rintro state result final (grown | stuck) ended
  · rw [bind_apply] at ended
    obtain ⟨⟨taken, middle⟩, begun, ended⟩ := Option.bind_eq_some_iff.mp ended
    have still := Mono.accept kind errors state taken middle grown begun
    cases taken with
    | false => exact turns middle result final (.inl still) ended
    | true => exact .inl (mono errors middle result final still ended)
  · have other : state.current.kind ≠ kind := by
      rintro rfl
      exact absurd expected (by simp [stuck.gone])
    rw [bind_apply, accept_of_ne other] at ended
    exact turns state result final (.inr stuck) ended

/-- What is behind a token that is expected does not matter where another one stands. -/
theorem turns_expect_bind {before after : TokenKind → Bool} {errors : Nat} {β : Type}
    {next : Token → Parse β} (expected : before kind = true) (mono : ∀ token, Mono (next token)) :
    Turns (Lost before errors) (Lost after errors) (expect kind >>= next) :=
  .bind (turns_expect expected) fun token => (mono token errors).weaken fun _ => .inl

theorem turns_closeParen {before : TokenKind → Bool} {errors : Nat}
    (expected : before .RightParen = true) :
    Turns (Lost before errors) (Grown errors) closeParen := by
  rintro state result final (grown | stuck) ended
  · exact Mono.closeParen errors state result final grown ended
  · have closed : (expect .RightParen >>= fun _ => (pure () : Parse Unit)) state =
        some (result, final) := by
      rw [← ended]
      exact (congrFun (if_neg (by simp [stuck.exprLimit])) state).symm
    exact Turns.bind (turns_expect expected) (fun _ => .pure ()) state result final (.inr stuck)
      closed

theorem turns_closeValue {before : TokenKind → Bool} {errors : Nat}
    (expected : before .RightBracket = true) :
    Turns (Lost before errors) (Grown errors) closeValue := by
  rintro state result final (grown | stuck) ended
  · exact Mono.closeValue errors state result final grown ended
  · have closed : (expect .RightBracket >>= fun _ => (pure () : Parse Unit)) state =
        some (result, final) := by
      rw [← ended]
      exact (congrFun (if_neg (by simp [stuck.valueLimit])) state).symm
    exact Turns.bind (turns_expect expected) (fun _ => .pure ()) state result final (.inr stuck)
      closed

end Tokens

/-! ### What may follow an expression -/

/-- The tokens that go on with a factor: the operators of selections, and the name behind
`inherited`. -/
def isSelector : TokenKind → Bool
  | .LeftBracket | .Dot | .Caret | .LeftParen | .Identifier => true
  | _ => false

/-- The token ends an expression of a level: it is no operator of that level or of a tighter one. -/
def endsLevel (level : Nat) (kind : TokenKind) : Bool :=
  !isSelector kind && (3 < level || !isExpop kind) && (2 < level || !isMulop kind) &&
    (1 < level || !isAddop kind) && (0 < level || !isRelop kind)

/-- Behind an expression there is no selector left. -/
def follows : TokenKind → Bool := endsLevel 4

theorem endsLevel_mono {level tighter : Nat} {kind : TokenKind} (le : level ≤ tighter)
    (ends : endsLevel level kind = true) : endsLevel tighter kind = true := by
  simp only [endsLevel, Bool.and_eq_true, Bool.or_eq_true, decide_eq_true_eq] at ends ⊢
  obtain ⟨⟨⟨⟨selector, expop⟩, mulop⟩, addop⟩, relop⟩ := ends
  refine ⟨⟨⟨⟨selector, ?_⟩, ?_⟩, ?_⟩, ?_⟩
  · exact expop.imp_left (Nat.lt_of_lt_of_le · le)
  · exact mulop.imp_left (Nat.lt_of_lt_of_le · le)
  · exact addop.imp_left (Nat.lt_of_lt_of_le · le)
  · exact relop.imp_left (Nat.lt_of_lt_of_le · le)

theorem not_isExpop_of_endsLevel {kind : TokenKind} (ends : endsLevel 3 kind = true) :
    isExpop kind = false := by
  revert ends
  cases kind <;> decide

theorem not_isMulop_of_endsLevel {kind : TokenKind} (ends : endsLevel 2 kind = true) :
    isMulop kind = false := by
  revert ends
  cases kind <;> decide

theorem not_isAddop_of_endsLevel {kind : TokenKind} (ends : endsLevel 1 kind = true) :
    isAddop kind = false := by
  revert ends
  cases kind <;> decide

theorem not_isRelop_of_endsLevel {kind : TokenKind} (ends : endsLevel 0 kind = true) :
    isRelop kind = false := by
  revert ends
  cases kind <;> decide

/-! ### What a function reads -/

/-- The state has room for so many activations more. -/
structure Room (factors values : Nat) (state : ParserState) : Prop where
  factors_le : state.exprDepth + factors ≤ MaxExprDepth
  values_le : state.valueDepth + values ≤ MaxValueDepth
  exprLimit : state.exprDepthLimitHit = false
  valueLimit : state.valueDepthLimitHit = false

theorem Room.weaken {factors values fewer less : Nat} {state : ParserState}
    (room : Room factors values state) (few : fewer ≤ factors) (le : less ≤ values) :
    Room fewer less state :=
  ⟨by have := room.factors_le; omega, by have := room.values_le; omega, room.exprLimit,
    room.valueLimit⟩

/-- A function reads tokens as a result, in front of a token of some kind. -/
def Reads {α : Type} (run : Bounded ParserState α) (after : TokenKind → Bool)
    (tokens : List Token) (result : α) (before : TokenKind → Bool) (factors values : Nat)
    (good : Bool) : Prop :=
  ∀ state rest, Room factors values state → before (headKind rest) = true →
    Ends (Lost after state.errors.length) run (state.reading (tokens ++ rest)) result
      (state.reading rest) good

/-- A function reads tokens as an expression and goes on with it as its loop does. -/
def ReadsOn (run : Bounded ParserState ExprNode)
    (loop : ExprNode → Bounded ParserState ExprNode) (tokens : List Token) (expr : ExprNode)
    (before : TokenKind → Bool) (factors values : Nat) (good : Bool) : Prop :=
  ∀ state rest last final fine, Room factors values state → before (headKind rest) = true →
    Ends (Lost follows state.errors.length) (loop expr) (state.reading rest) last final fine →
      Ends (Lost follows state.errors.length) run (state.reading (tokens ++ rest)) last final
        (good && fine)

namespace Context

variable (ctx : Context)

def FactorReads (tokens : List Token) (expr : ExprNode) (factors values : Nat) (good : Bool) :
    Prop :=
  Reads (fun fuel => (ctx.parsers fuel).parseFactor) follows tokens expr follows factors values good

def PowerReads (tokens : List Token) (expr : ExprNode) (factors values : Nat) (good : Bool) : Prop :=
  Reads (fun fuel => (ctx.parsers fuel).parsePower) follows tokens expr (endsLevel 3) factors values
    good

def TermReads (tokens : List Token) (expr : ExprNode) (factors values : Nat) (good : Bool) : Prop :=
  ReadsOn (fun fuel => (ctx.parsers fuel).parseTerm)
    (fun left fuel => (ctx.parsers fuel).moreFactors left) tokens expr (endsLevel 3) factors values
    good

def SimpleReads (tokens : List Token) (expr : ExprNode) (factors values : Nat) (good : Bool) :
    Prop :=
  ReadsOn (fun fuel => (ctx.parsers fuel).parseSimpleExpr)
    (fun left fuel => (ctx.parsers fuel).moreTerms left) tokens expr (endsLevel 2) factors values
    good

def ExprReads (tokens : List Token) (expr : ExprNode) (factors values : Nat) (good : Bool) : Prop :=
  Reads (fun fuel => (ctx.parsers fuel).parseExpression) follows tokens expr (endsLevel 0) factors
    values good

end Context

/-! ### From one level to the next -/

section Levels

variable {ctx : Context} {tokens : List Token} {expr : ExprNode} {factors values errors : Nat}
  {good : Bool}

/-- The loop over the operators of multiplication does not take a selector. -/
theorem turns_moreFactors (left : ExprNode) (fuel : Nat) :
    Turns (Lost follows errors) (Lost follows errors) ((ctx.parsers fuel).moreFactors left) := by
  apply turns_of_stuck ((ctx.mono_parsers fuel).moreFactors left)
  intro state stuck result final ended
  cases fuel with
  | zero => cases ended
  | succ fuel =>
      have other : isMulop state.current.kind = false := by
        have gone := stuck.gone
        revert gone
        cases state.current.kind <;> decide
      simp only [Context.parsers, Context.moreFactors, bind_apply, current_apply, Option.bind_some,
        other, Bool.false_eq_true, if_false] at ended
      obtain ⟨-, rfl⟩ := Prod.mk.inj (Option.some.inj ended)
      exact .inr stuck

theorem turns_moreTerms (left : ExprNode) (fuel : Nat) :
    Turns (Lost follows errors) (Lost follows errors) ((ctx.parsers fuel).moreTerms left) := by
  apply turns_of_stuck ((ctx.mono_parsers fuel).moreTerms left)
  intro state stuck result final ended
  cases fuel with
  | zero => cases ended
  | succ fuel =>
      have other : isAddop state.current.kind = false := by
        have gone := stuck.gone
        revert gone
        cases state.current.kind <;> decide
      simp only [Context.parsers, Context.moreTerms, bind_apply, current_apply, Option.bind_some,
        other, Bool.false_eq_true, if_false] at ended
      obtain ⟨-, rfl⟩ := Prod.mk.inj (Option.some.inj ended)
      exact .inr stuck

theorem turns_relation (left : ExprNode) (fuel : Nat) :
    Turns (Lost follows errors) (Lost follows errors)
      (Context.relation (ctx.parsers fuel) left) := by
  apply turns_of_stuck (Context.mono_relation (ctx.mono_parsers fuel) left)
  intro state stuck result final ended
  have other : isRelop state.current.kind = false := by
    have gone := stuck.gone
    revert gone
    cases state.current.kind <;> decide
  simp only [Context.relation, bind_apply, current_apply, Option.bind_some, other,
    Bool.false_eq_true, if_false] at ended
  obtain ⟨-, rfl⟩ := Prod.mk.inj (Option.some.inj ended)
  exact .inr stuck

theorem turns_exponentiation (left : ExprNode) (fuel : Nat) :
    Turns (Lost follows errors) (Lost follows errors)
      (ctx.exponentiation (ctx.parsers fuel) left) := by
  apply turns_of_stuck (ctx.mono_exponentiation (ctx.mono_parsers fuel) left)
  intro state stuck result final ended
  have other : isExpop state.current.kind = false := by
    have gone := stuck.gone
    revert gone
    cases state.current.kind <;> decide
  simp only [Context.exponentiation, bind_apply, current_apply, Option.bind_some, other,
    Bool.false_eq_true, if_false] at ended
  obtain ⟨-, rfl⟩ := Prod.mk.inj (Option.some.inj ended)
  exact .inr stuck

/-- A factor that no exponentiating operator follows. -/
theorem Context.FactorReads.power (reads : ctx.FactorReads tokens expr factors values good) :
    ctx.PowerReads tokens expr factors values good := by
  intro state rest room ends
  have first := reads state rest room (endsLevel_mono (by decide) ends)
  have second : Ends (Lost follows state.errors.length)
      (fun fuel => ctx.exponentiation (ctx.parsers fuel) expr) (state.reading rest) expr
      (state.reading rest) true := by
    apply Ends.of_eq (Ends.pure expr (state.reading rest))
    intro fuel
    have other : isExpop (state.reading rest).current.kind = false := not_isExpop_of_endsLevel ends
    simp only [Context.exponentiation, bind_apply, current_apply, Option.bind_some, other,
      Bool.false_eq_true, if_false]
  rw [← Bool.and_true good]
  exact .call _ (fun _ => rfl) (first.bind second turns_exponentiation)

theorem Context.PowerReads.term (reads : ctx.PowerReads tokens expr factors values good) :
    ctx.TermReads tokens expr factors values good := by
  intro state rest last final fine room ends more
  exact .call _ (fun _ => rfl) ((reads state rest room ends).bind more turns_moreFactors)

/-- A term that no operator of multiplication follows. -/
theorem Context.TermReads.ends (reads : ctx.TermReads tokens expr factors values good) :
    Reads (fun fuel => (ctx.parsers fuel).parseTerm) follows tokens expr (endsLevel 2) factors values
      good := by
  intro state rest room ends
  have more : Ends (Lost follows state.errors.length)
      (fun fuel => (ctx.parsers fuel).moreFactors expr) (state.reading rest) expr
      (state.reading rest) true := by
    apply Ends.call (fun fuel => ctx.moreFactors (ctx.parsers fuel) expr) fun _ => rfl
    apply Ends.of_eq (Ends.pure expr (state.reading rest))
    intro fuel
    have other : isMulop (state.reading rest).current.kind = false := not_isMulop_of_endsLevel ends
    simp only [Context.moreFactors, bind_apply, current_apply, Option.bind_some, other,
      Bool.false_eq_true, if_false]
  rw [← Bool.and_true good]
  exact reads state rest expr (state.reading rest) true room (endsLevel_mono (by decide) ends) more

theorem Context.SimpleReads.ends (reads : ctx.SimpleReads tokens expr factors values good) :
    Reads (fun fuel => (ctx.parsers fuel).parseSimpleExpr) follows tokens expr (endsLevel 1) factors
      values good := by
  intro state rest room ends
  have more : Ends (Lost follows state.errors.length)
      (fun fuel => (ctx.parsers fuel).moreTerms expr) (state.reading rest) expr
      (state.reading rest) true := by
    apply Ends.call (fun fuel => ctx.moreTerms (ctx.parsers fuel) expr) fun _ => rfl
    apply Ends.of_eq (Ends.pure expr (state.reading rest))
    intro fuel
    have other : isAddop (state.reading rest).current.kind = false := not_isAddop_of_endsLevel ends
    simp only [Context.moreTerms, bind_apply, current_apply, Option.bind_some, other,
      Bool.false_eq_true, if_false]
  rw [← Bool.and_true good]
  exact reads state rest expr (state.reading rest) true room (endsLevel_mono (by decide) ends) more

/-- A term without a sign. -/
theorem Context.TermReads.simple (reads : ctx.TermReads tokens expr factors values good)
    (plain : ∀ rest, headKind (tokens ++ rest) ≠ .Plus ∧ headKind (tokens ++ rest) ≠ .Minus) :
    ctx.SimpleReads tokens expr factors values good := by
  intro state rest last final fine room ends more
  have first := reads.ends state rest room ends
  apply Ends.call (fun fuel => Context.parseSimpleExpr (ctx.parsers fuel)) fun _ => rfl
  apply (first.bind more turns_moreTerms).of_eq
  intro fuel
  have unsigned : ¬((state.reading (tokens ++ rest)).current.kind = .Plus ∨
      (state.reading (tokens ++ rest)).current.kind = .Minus) :=
    not_or.mpr (plain rest)
  simp only [Context.parseSimpleExpr, bind_apply, current_apply, Option.bind_some, if_neg unsigned]

/-- A simple expression that no relational operator follows. -/
theorem Context.SimpleReads.expression (reads : ctx.SimpleReads tokens expr factors values good) :
    ctx.ExprReads tokens expr factors values good := by
  intro state rest room ends
  have first := reads.ends state rest room (endsLevel_mono (by decide) ends)
  have second : Ends (Lost follows state.errors.length)
      (fun fuel => Context.relation (ctx.parsers fuel) expr) (state.reading rest) expr
      (state.reading rest) true := by
    apply Ends.of_eq (Ends.pure expr (state.reading rest))
    intro fuel
    have other : isRelop (state.reading rest).current.kind = false := not_isRelop_of_endsLevel ends
    simp only [Context.relation, bind_apply, current_apply, Option.bind_some, other,
      Bool.false_eq_true, if_false]
  rw [← Bool.and_true good]
  exact .call _ (fun _ => rfl) (first.bind second turns_relation)

end Levels

/-! ### Operators -/

section Operators

variable {ctx : Context} {tokens others ops : List Token} {left right expr : ExprNode}
  {op : TokenKind} {factors values more less : Nat} {good fine : Bool}

theorem Reads.deepen {α : Type} {run : Bounded ParserState α} {after before : TokenKind → Bool}
    {result : α} (reads : Reads run after tokens result before factors values good)
    (le : factors ≤ more) (few : values ≤ less) :
    Reads run after tokens result before more less good :=
  fun state rest room => reads state rest (room.weaken le few)

theorem ReadsOn.deepen {run : Bounded ParserState ExprNode}
    {loop : ExprNode → Bounded ParserState ExprNode} {before : TokenKind → Bool}
    (reads : ReadsOn run loop tokens expr before factors values good) (le : factors ≤ more)
    (few : values ≤ less) : ReadsOn run loop tokens expr before more less good :=
  fun state rest last final fine room => reads state rest last final fine (room.weaken le few)

/-- A relation has two simple expressions as its operands. -/
theorem Context.SimpleReads.relation (first : ctx.SimpleReads tokens left factors values good)
    (second : ctx.SimpleReads others right factors values fine) (text : Text)
    (relop : isRelop op = true) :
    ctx.ExprReads (tokens ++ ⟨op, text⟩ :: others) (.binary op left right) factors values
      (good && fine) := by
  intro state rest room ends
  have after : endsLevel 1 op = true := by
    revert relop
    cases op <;> decide
  have begun := first.ends state (⟨op, text⟩ :: (others ++ rest)) room after
  have goes := second.ends state rest room (endsLevel_mono (by decide) ends)
  have done : Ends (Lost follows state.errors.length)
      (fun fuel => Context.relation (ctx.parsers fuel) left)
      (state.reading (⟨op, text⟩ :: (others ++ rest))) (.binary op left right)
      (state.reading rest) fine := by
    apply (goes.returning (ExprNode.binary op left)).of_eq
    intro fuel
    simp only [Context.relation, bind_apply, current_apply, Option.bind_some,
      current_reading_cons, relop, if_true, advance_reading]
  rw [List.append_assoc, List.cons_append]
  exact .call _ (fun _ => rfl) (begun.bind done turns_relation)

/-- The loop of a simple expression takes one operator and the term behind it. -/
theorem Context.SimpleReads.add (first : ctx.SimpleReads tokens left factors values good)
    (second : ctx.TermReads others right factors values fine)
    (after : ∀ rest, endsLevel 2 (headKind (ops ++ rest)) = true)
    (step : ∀ fuel (state : ParserState) rest, ctx.moreTerms (ctx.parsers fuel) left
      (state.reading (ops ++ (others ++ rest))) =
        ((ctx.parsers fuel).parseTerm >>= fun right =>
          (ctx.parsers fuel).moreTerms (.binary op left right)) (state.reading (others ++ rest))) :
    ctx.SimpleReads (tokens ++ (ops ++ others)) (.binary op left right) factors values
      (good && fine) := by
  intro state rest last final finally_ room ends goes
  have tail : Ends (Lost follows state.errors.length)
      (fun fuel => (ctx.parsers fuel).parseTerm >>= fun right =>
        (ctx.parsers fuel).moreTerms (.binary op left right))
      (state.reading (others ++ rest)) last final (fine && finally_) :=
    (second.ends state rest room ends).bind goes fun _ => turns_moreTerms _
  rw [Bool.and_assoc, List.append_assoc, List.append_assoc]
  apply first state _ last final _ room (after _)
  apply Ends.call (fun fuel => ctx.moreTerms (ctx.parsers fuel) left) fun _ => rfl
  exact tail.of_eq fun fuel => step fuel state rest

/-- The loop of a term takes one operator and the power behind it. -/
theorem Context.TermReads.multiply (first : ctx.TermReads tokens left factors values good)
    (second : ctx.PowerReads others right factors values fine)
    (after : ∀ rest, endsLevel 3 (headKind (ops ++ rest)) = true)
    (step : ∀ fuel (state : ParserState) rest, ctx.moreFactors (ctx.parsers fuel) left
      (state.reading (ops ++ (others ++ rest))) =
        ((ctx.parsers fuel).parsePower >>= fun right =>
          (ctx.parsers fuel).moreFactors (.binary op left right)) (state.reading (others ++ rest))) :
    ctx.TermReads (tokens ++ (ops ++ others)) (.binary op left right) factors values
      (good && fine) := by
  intro state rest last final finally_ room ends goes
  have tail : Ends (Lost follows state.errors.length)
      (fun fuel => (ctx.parsers fuel).parsePower >>= fun right =>
        (ctx.parsers fuel).moreFactors (.binary op left right))
      (state.reading (others ++ rest)) last final (fine && finally_) :=
    (second state rest room ends).bind goes fun _ => turns_moreFactors _
  rw [Bool.and_assoc, List.append_assoc, List.append_assoc]
  apply first state _ last final _ room (after _)
  apply Ends.call (fun fuel => ctx.moreFactors (ctx.parsers fuel) left) fun _ => rfl
  exact tail.of_eq fun fuel => step fuel state rest

/-- An exponentiation has a factor as its left operand, and may have another one as its right
operand. -/
theorem Context.FactorReads.raise (first : ctx.FactorReads tokens left factors values good)
    (second : ctx.PowerReads others right factors values fine) (text : Text)
    (expop : isExpop op = true) (extended : ctx.opts.extendedPascal = true) :
    ctx.PowerReads (tokens ++ ⟨op, text⟩ :: others) (.binary op left right) factors values
      (good && fine) := by
  intro state rest room ends
  have after : follows op = true := by
    revert expop
    cases op <;> decide
  have begun := first state (⟨op, text⟩ :: (others ++ rest)) room after
  have goes := second state rest room ends
  have done : Ends (Lost follows state.errors.length)
      (fun fuel => ctx.exponentiation (ctx.parsers fuel) left)
      (state.reading (⟨op, text⟩ :: (others ++ rest))) (.binary op left right)
      (state.reading rest) fine := by
    apply (goes.returning (ExprNode.binary op left)).of_eq
    intro fuel
    simp only [Context.exponentiation, bind_apply, current_apply, Option.bind_some,
      current_reading_cons, expop, if_true, extended, reportIf, Bool.not_true, Bool.false_eq_true,
      if_false, pure_apply, advance_reading]
  rw [List.append_assoc, List.cons_append]
  exact .call _ (fun _ => rfl) (begun.bind done turns_exponentiation)

/-- A sign belongs to the whole term behind it. -/
theorem Context.TermReads.sign (reads : ctx.TermReads tokens expr factors values good)
    (text : Text) (sign : op = .Plus ∨ op = .Minus) :
    ctx.SimpleReads (⟨op, text⟩ :: tokens) (.unary op expr) factors values good := by
  intro state rest last final fine room ends goes
  have tail : Ends (Lost follows state.errors.length)
      (fun fuel => (ctx.parsers fuel).parseTerm >>= fun operand =>
        (ctx.parsers fuel).moreTerms (.unary op operand))
      (state.reading (tokens ++ rest)) last final (good && fine) :=
    (reads.ends state rest room ends).bind goes fun _ => turns_moreTerms _
  apply Ends.call (fun fuel => Context.parseSimpleExpr (ctx.parsers fuel)) fun _ => rfl
  apply tail.of_eq
  intro fuel
  simp only [Context.parseSimpleExpr, bind_apply, current_apply, Option.bind_some,
    List.cons_append, current_reading_cons, if_pos sign, advance_reading]

end Operators

/-! ### Factors -/

section Factors

variable {ctx : Context} {tokens : List Token} {expr : ExprNode} {factors values : Nat}
  {good : Bool}

theorem leaveExprDepth_reading {state : ParserState} {rest : List Token}
    (limit : state.exprDepthLimitHit = false) :
    leaveExprDepth ({ state with exprDepth := state.exprDepth + 1 }.reading rest) =
      some ((), state.reading rest) := by
  simp [leaveExprDepth, ParserState.reading, limit]

theorem turns_leaveExprDepth {after : TokenKind → Bool} {errors : Nat} (result : ExprNode) :
    Turns (Lost after errors) (Lost after errors)
      (leaveExprDepth >>= fun _ => (pure result : Parse ExprNode)) := by
  rintro state _ final (grown | stuck) ⟨⟩
  · exact .inl grown
  · exact .inr ⟨stuck.same, stuck.gone, by simp [stuck.exprLimit], stuck.valueLimit⟩

/-- An activation of `parseFactor` is counted while it lasts. -/
theorem ends_exprDepthScope {run : Bounded ParserState ExprNode} {state : ParserState}
    {rest : List Token} {after : TokenKind → Bool} {errors : Nat}
    (limit : state.exprDepthLimitHit = false)
    (ends : Ends (Lost after errors) run
      ({ state with exprDepth := state.exprDepth + 1 }.reading tokens) expr
      ({ state with exprDepth := state.exprDepth + 1 }.reading rest) good) :
    Ends (Lost after errors) (fun fuel => exprDepthScope (run fuel)) (state.reading tokens) expr
      (state.reading rest) good := by
  have last : Ends (Lost after errors)
      (fun _ => leaveExprDepth >>= fun _ => (pure expr : Parse ExprNode))
      ({ state with exprDepth := state.exprDepth + 1 }.reading rest) expr (state.reading rest)
      true := by
    apply Ends.of_eq (Ends.pure expr (state.reading rest))
    intro fuel
    rw [bind_apply, leaveExprDepth_reading limit]
    rfl
  have whole := ends.bind last fun result _ => turns_leaveExprDepth result
  rw [Bool.and_true] at whole
  exact whole.of_eq fun fuel => rfl

/-- An activation of `parseFactor` beside its count. -/
def Context.currentFactor (ctx : Context) (self : Parsers) : Parse ExprNode := do
  let token ← current
  ctx.factorAt self token

def Context.BodyReads (ctx : Context) (tokens : List Token) (expr : ExprNode)
    (factors values : Nat) (good : Bool) : Prop :=
  Reads (fun fuel => ctx.currentFactor (ctx.parsers fuel)) follows tokens expr follows factors values
    good

theorem Context.BodyReads.factor (reads : ctx.BodyReads tokens expr factors values good) :
    ctx.FactorReads tokens expr (factors + 1) values good := by
  intro state rest room ends
  have le := room.factors_le
  have inside : Room factors values { state with exprDepth := state.exprDepth + 1 } :=
    ⟨by change state.exprDepth + 1 + factors ≤ _; omega, room.values_le, room.exprLimit,
      room.valueLimit⟩
  have begun := ends_exprDepthScope room.exprLimit (reads _ rest inside ends)
  apply Ends.call (fun fuel => ctx.parseFactor (ctx.parsers fuel)) fun _ => rfl
  apply begun.of_eq
  intro fuel
  have below : ¬ MaxExprDepth ≤ state.exprDepth := by omega
  exact congrFun (if_neg below) (state.reading (tokens ++ rest))

end Factors

end Plang.Expressions
