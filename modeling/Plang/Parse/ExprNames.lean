import Plang.Parse.ExprSelections

/-!
# Reading names

A name stands for itself, or has the arguments of a call or the operand of a conversion behind it;
the first argument of some calls may be a reserved type.
-/

namespace Plang.Expressions

open Fuel

variable {ctx : Context} (manner : Manner) {name : Name} {tokens : List Token} {expr : ExprNode}
  {factors values errors : Nat} {good : Bool}

/-! ### Names -/

/-- The token behind a name does not belong to it, as the point behind the name of a module does. -/
def Context.endsName (ctx : Context) (name : Name) (kind : TokenKind) : Bool :=
  kind != .Dot || name.module?.isSome || !ctx.qualifiedModules (toLower name.word)

/-- A name is read as a whole. -/
theorem currentFactor_name (self : Parsers) (state : ParserState) {rest : List Token}
    (present : ctx.hasName name = true) (ends : ctx.endsName name (headKind rest) = true) :
    ctx.currentFactor self (state.reading (manner.name name ++ rest)) =
      ctx.behindName self name (state.reading rest) := by
  obtain ⟨module?, word⟩ := name
  cases module? with
  | none =>
      have plain : ¬ isTypeKeyword (keywordKind word) = true := by
        simpa [Context.hasName] using present
      have apart : ¬((state.reading rest).current.kind = .Dot ∧
          ctx.qualifiedModules (toLower word) = true) := by
        rintro ⟨dot, qualified⟩
        rw [kind_current_reading] at dot
        simp [Context.endsName, dot, qualified] at ends
      rw [Manner.name, Manner.word, if_neg plain]
      change (ctx.qualifiedName word >>= ctx.behindName self) (state.reading rest) = _
      simp only [Context.qualifiedName, bind_apply, current_apply, Option.bind_some, if_neg apart,
        pure_apply]
  | some module =>
      have qualified : ctx.qualifiedModules (toLower module) = true := present
      change (ctx.qualifiedName module >>= ctx.behindName self)
        (state.reading (manner.token .Dot :: ⟨.Identifier, word⟩ :: rest)) = _
      simp only [Context.qualifiedName, bind_apply, current_apply, Option.bind_some,
        current_reading_cons, Manner.token, qualified, and_self, if_true, advance_reading,
        expect_reading, pure_apply]

/-- A name with nothing behind it that belongs to it. -/
theorem base_ident (present : ctx.hasName name = true) :
    ctx.BaseReads (manner.name name) (.ident name) (fun kind =>
      kind != .LeftParen && (!ctx.opts.extendedPascal || kind != .LeftBracket) &&
        ctx.endsName name kind) 0 0 true := by
  intro state rest last final fine room follow goes
  simp only [Bool.and_eq_true, Bool.or_eq_true, bne_iff_ne, Bool.not_eq_true'] at follow
  obtain ⟨⟨paren, bracket⟩, ends⟩ := follow
  rw [Bool.true_and]
  apply goes.of_eq
  intro fuel
  rw [currentFactor_name manner _ state present ends]
  have uncast : ¬(ctx.opts.turbo = true ∧ ctx.namesAType name = true ∧
      (state.reading rest).current.kind = .LeftParen) := fun wrong => paren wrong.2.2
  have uncalled : ¬ (state.reading rest).current.kind = .LeftParen := paren
  have plain : ¬(ctx.opts.extendedPascal = true ∧
      (state.reading rest).current.kind = .LeftBracket) := by
    rintro ⟨extended, wrong⟩
    rcases bracket with old | other
    · exact absurd extended (by simp [old])
    · exact other wrong
  simp only [Context.behindName, bind_apply, current_apply, Option.bind_some, if_neg uncast,
    if_neg uncalled, if_neg plain]

/-! ### Calls by name -/

/-- An argument is over. -/
def endsArgument (kind : TokenKind) : Bool := kind == .Comma || kind == .RightParen

def Context.SizeReads (ctx : Context) (callee : Name) (tokens : List Token) (expr : ExprNode)
    (factors values : Nat) (good : Bool) : Prop :=
  Reads (fun fuel => Context.parseSizeHighLowArg (ctx.parsers fuel) callee) endsArgument tokens expr
    endsArgument factors values good

theorem Lost.weaken {before after : TokenKind → Bool} {state : ParserState}
    (lost : Lost before errors state) (fewer : ∀ kind, before kind = false → after kind = false) :
    Lost after errors state :=
  lost.imp_right fun stuck => ⟨stuck.same, fewer _ stuck.gone, stuck.exprLimit, stuck.valueLimit⟩

/-- An argument that does not begin as a reserved type does is any expression. -/
theorem Context.ExprReads.sizeArgument
    (reads : ctx.ExprReads tokens expr factors values good)
    (plain : ∀ rest, takesType name = true → isTypeKeyword (headKind (tokens ++ rest)) = false) :
    ctx.SizeReads name tokens expr factors values good := by
  intro state rest room ends
  have beyond : endsLevel 0 (headKind rest) = true := by
    revert ends
    generalize headKind rest = kind
    cases kind <;> decide
  have fewer : ∀ kind, follows kind = false → endsArgument kind = false := by
    intro kind
    cases kind <;> decide
  apply ((reads state rest room beyond).weaken fun _ lost => lost.weaken fewer).of_eq
  intro fuel
  have other : ¬(Context.takesType name = true ∧
      isTypeKeyword (state.reading (tokens ++ rest)).current.kind = true) := by
    rintro ⟨taken, reserved⟩
    rw [kind_current_reading, plain rest taken] at reserved
    cases reserved
  simp only [Context.parseSizeHighLowArg, bind_apply, current_apply, Option.bind_some, if_neg other]

/-- A reserved type is taken as it is, whatever stands behind it. -/
theorem parseSizeHighLowArg_reserved {token : Token} (self : Parsers) (state : ParserState)
    (rest : List Token) (taken : Context.takesType name = true)
    (reserved : isTypeKeyword token.kind = true) :
    Context.parseSizeHighLowArg self name (state.reading (token :: rest)) =
      some (.ident ⟨none, token.lexeme⟩, state.reading rest) := by
  have first : Context.takesType name = true ∧ isTypeKeyword token.kind = true := ⟨taken, reserved⟩
  simp only [Context.parseSizeHighLowArg, bind_apply, current_apply, Option.bind_some,
    current_reading_cons, if_pos first, advance_reading, pure_apply]

/-- The name of a reserved type. -/
theorem sizeArgument_reserved {arg : Name} (taken : Context.takesType name = true)
    (reserved : Context.isReservedType arg = true) :
    ctx.SizeReads name (manner.name arg) (.ident arg) 0 0 true := by
  intro state rest room ends
  apply Ends.of_eq (Ends.pure (ExprNode.ident arg) (state.reading rest))
  intro fuel
  obtain ⟨module?, word⟩ := arg
  rw [Context.isReservedType, decide_eq_true_eq] at reserved
  obtain ⟨rfl, keyword⟩ := reserved
  rw [Manner.name, Manner.word, if_pos keyword, List.singleton_append,
    parseSizeHighLowArg_reserved (ctx.parsers fuel) state rest taken keyword]
  rfl

/-- A conversion to a reserved type is left behind its first word. -/
theorem sizeArgument_cast {token : Token} {text : Text} {tail : List Token}
    (taken : Context.takesType name = true) (reserved : isTypeKeyword token.kind = true) :
    ctx.SizeReads name (token :: ⟨.LeftParen, text⟩ :: tail) expr factors values false := by
  intro state rest room ends
  have ended : Ends (Lost endsArgument state.errors.length)
      (fun fuel => Context.parseSizeHighLowArg (ctx.parsers fuel) name)
      (state.reading (token :: ⟨.LeftParen, text⟩ :: tail ++ rest)) (.ident ⟨none, token.lexeme⟩)
      (state.reading (⟨.LeftParen, text⟩ :: tail ++ rest)) true :=
    (Ends.pure _ _).of_eq fun fuel =>
      parseSizeHighLowArg_reserved (ctx.parsers fuel) state _ taken reserved
  exact ended.all_lost (.inr ⟨rfl, rfl, room.exprLimit, room.valueLimit⟩)

section Calls

variable {args : List ExprNode} {arg : ExprNode} {fine : Bool} {sound : ExprNode → Bool}

/-- The tokens between the parentheses of a call by name, with the right one, are read as its
arguments. -/
def Context.CallReads (ctx : Context) (name : Name) (tokens : List Token) (args : List ExprNode)
    (factors values : Nat) (good : Bool) : Prop :=
  Reads (fun fuel => Context.callArguments (ctx.parsers fuel) name) (fun _ => true) tokens args
    (fun _ => true) factors values good

theorem callArguments_nil (text : Text) : ctx.CallReads name [⟨.RightParen, text⟩] [] 0 0 true := by
  intro state rest room _
  exact Ends.of_eq (Ends.pure [] (state.reading rest)) fun fuel => rfl

theorem turns_moreArguments (fuel : Nat) :
    Turns (Lost endsArgument errors) (Lost (only .RightParen) errors)
      (Context.moreArguments (ctx.parsers fuel)) := by
  apply turns_accept (by decide) (ctx.mono_parsers fuel).arguments
  apply turns_pure
  intro kind
  cases kind <;> decide

theorem callArguments_cons (text : Text)
    (first : ctx.SizeReads name (manner.write 0 arg) arg factors values fine)
    (starts : ∀ rest, startsExpr (headKind (manner.write 0 arg ++ rest)) = true)
    (each : ∀ expr ∈ args,
      ctx.ExprReads (manner.write 0 expr) expr factors values (sound expr)) :
    ctx.CallReads name (manner.writeAll .Comma (arg :: args) ++ [⟨.RightParen, text⟩]) (arg :: args)
      factors values (fine && args.all sound) := by
  intro state rest room _
  have begun := first state (manner.writeMore .Comma args ++ ⟨.RightParen, text⟩ :: rest) room
    (headKind_writeMore manner (by decide) (fun kind => by cases kind <;> decide)
      (show only .RightParen (headKind (⟨.RightParen, text⟩ :: rest)) = true from rfl))
  have more : Ends (Lost (only .RightParen) state.errors.length)
      (fun fuel => Context.moreArguments (ctx.parsers fuel))
      (state.reading (manner.writeMore .Comma args ++ ⟨.RightParen, text⟩ :: rest)) args
      (state.reading (⟨.RightParen, text⟩ :: rest)) (args.all sound) :=
    more_read manner (by rintro kind beyond rfl; exact absurd beyond (by decide))
      (fun none => none ▸ List.all_nil) (fun ne => arguments_read manner ne each) state
      (⟨.RightParen, text⟩ :: rest) room rfl
  have closed : Ends (Lost (fun _ => true) state.errors.length)
      (fun _ => expect .RightParen >>= fun _ => (pure (arg :: args) : Parse _))
      (state.reading (⟨.RightParen, text⟩ :: rest)) (arg :: args) (state.reading rest) true := by
    apply Ends.of_eq (Ends.pure (arg :: args) (state.reading rest))
    intro fuel
    rw [bind_apply, expect_reading]
    rfl
  have tail : Ends (Lost (fun _ => true) state.errors.length)
      (fun fuel => Context.moreArguments (ctx.parsers fuel) >>= fun args =>
        expect .RightParen >>= fun _ => pure (arg :: args))
      (state.reading (manner.writeMore .Comma args ++ ⟨.RightParen, text⟩ :: rest)) (arg :: args)
      (state.reading rest) (args.all sound && true) :=
    more.bind closed fun args fuel => turns_expect_bind (by decide) fun _ => .pure _
  have whole : Ends (Lost (fun _ => true) state.errors.length)
      (fun fuel => Context.parseSizeHighLowArg (ctx.parsers fuel) name >>= fun arg =>
        Context.moreArguments (ctx.parsers fuel) >>= fun args =>
          expect .RightParen >>= fun _ => pure (arg :: args))
      (state.reading (manner.write 0 arg ++
        (manner.writeMore .Comma args ++ ⟨.RightParen, text⟩ :: rest)))
      (arg :: args) (state.reading rest) (fine && (args.all sound && true)) :=
    begun.bind tail fun arg fuel => .bind (turns_moreArguments fuel) fun args =>
      turns_expect_bind (by decide) fun _ => .pure _
  rw [Bool.and_true] at whole
  rw [Manner.writeAll, List.append_assoc, List.append_assoc, List.singleton_append]
  apply whole.of_eq
  intro fuel
  have begins := starts (manner.writeMore .Comma args ++ ⟨.RightParen, text⟩ :: rest)
  have other : headKind (manner.write 0 arg ++ (manner.writeMore .Comma args ++
      ⟨.RightParen, text⟩ :: rest)) ≠ .RightParen := by
    intro wrong
    rw [wrong] at begins
    exact absurd begins (by decide)
  change (check .RightParen >>= _) _ = _
  rw [bind_apply, check_apply, kind_current_reading, beq_eq_false_iff_ne.mpr other]
  rfl

/-- A call by name. -/
theorem base_call {left : Text} (present : ctx.hasName name = true)
    (uncast : ctx.opts.turbo = true → ctx.namesAType name = false)
    (reads : ctx.CallReads name tokens args factors values good) :
    ctx.BaseReads (manner.name name ++ ⟨.LeftParen, left⟩ :: tokens) (.call name args)
      (fun _ => true) factors values good := by
  intro state rest last final fine room _ goes
  have whole := (reads state rest room rfl).bind goes fun args fuel =>
    turns_of_stuck ((ctx.mono_parsers fuel).parsePostfix (.call name args)) fun _ stuck =>
      absurd stuck.gone (by decide)
  apply whole.of_eq
  intro fuel
  rw [List.append_assoc, List.cons_append, currentFactor_name manner _ state present (by rfl)]
  have other : ¬(ctx.opts.turbo = true ∧ ctx.namesAType name = true ∧
      (state.reading (⟨.LeftParen, left⟩ :: (tokens ++ rest))).current.kind = .LeftParen) := by
    rintro ⟨turbo, type, -⟩
    rw [uncast turbo] at type
    cases type
  have called : (state.reading (⟨.LeftParen, left⟩ :: (tokens ++ rest))).current.kind =
    .LeftParen := rfl
  simp only [Context.behindName, bind_apply, current_apply, Option.bind_some, if_neg other,
    if_pos called, advance_reading]

end Calls

/-! ### Conversions and inherited methods -/

/-- The operand of a conversion, with the parentheses around it. -/
theorem castOperand_read (left right : Text)
    (reads : ctx.ExprReads tokens expr factors values good) {state : ParserState}
    {rest : List Token} {last : ExprNode} {final : ParserState} {fine : Bool}
    (room : Room factors values state)
    (goes : Ends (Lost follows state.errors.length)
      (fun fuel => (ctx.parsers fuel).parsePostfix (.typeCast name expr)) (state.reading rest) last
      final fine) :
    Ends (Lost follows state.errors.length)
      (fun fuel => Context.castOperand (ctx.parsers fuel) name)
      (state.reading (⟨.LeftParen, left⟩ :: (tokens ++ ⟨.RightParen, right⟩ :: rest))) last final
      (good && fine) := by
  have inside := reads state (⟨.RightParen, right⟩ :: rest) room rfl
  have closed : Ends (Lost follows state.errors.length)
      (fun fuel => expect .RightParen >>= fun _ =>
        (ctx.parsers fuel).parsePostfix (.typeCast name expr))
      (state.reading (⟨.RightParen, right⟩ :: rest)) last final fine := by
    apply goes.of_eq
    intro fuel
    rw [bind_apply, expect_reading]
    rfl
  have whole : Ends (Lost follows state.errors.length)
      (fun fuel => (ctx.parsers fuel).parseExpression >>= fun operand =>
        expect .RightParen >>= fun _ => (ctx.parsers fuel).parsePostfix (.typeCast name operand))
      (state.reading (tokens ++ ⟨.RightParen, right⟩ :: rest)) last final (good && fine) :=
    inside.bind closed fun operand fuel => turns_expect_bind (by decide) fun _ =>
      (ctx.mono_parsers fuel).parsePostfix _
  exact whole.of_eq fun fuel => rfl

/-- A conversion to a type with a name. -/
theorem base_cast (present : ctx.hasName name = true) (turbo : ctx.opts.turbo = true)
    (type : ctx.namesAType name = true) (reads : ctx.ExprReads tokens expr factors values good) :
    ctx.BaseReads (manner.name name ++ manner.parens tokens) (.typeCast name expr) (fun _ => true)
      factors values good := by
  intro state rest last final fine room _ goes
  have whole := castOperand_read (manner.spell .LeftParen) (manner.spell .RightParen) reads room goes
  apply whole.of_eq
  intro fuel
  rw [List.append_assoc, currentFactor_name manner _ state present (by rfl), Manner.parens,
    Manner.brackets, List.cons_append, List.append_assoc, List.singleton_append]
  have cast : ctx.opts.turbo = true ∧ ctx.namesAType name = true ∧
      (state.reading (manner.token .LeftParen ::
        (tokens ++ manner.token .RightParen :: rest))).current.kind = .LeftParen :=
    ⟨turbo, type, rfl⟩
  simp only [Context.behindName, bind_apply, current_apply, Option.bind_some, if_pos cast]
  rfl

theorem factorAt_reserved (token : Token) (self : Parsers)
    (reserved : isTypeKeyword token.kind = true) :
    ctx.factorAt self token = (do
      advance
      let next ← current
      if ctx.opts.turbo ∧ next.kind = .LeftParen then
        Context.castOperand self ⟨none, token.lexeme⟩
      else
        emitError (.err_expected_expr token.kind)
        return .intLit {}) := by
  obtain ⟨kind, lexeme⟩ := token
  cases kind <;> first | rfl | cases reserved

/-- A conversion to a reserved type. -/
theorem base_cast_reserved (reserved : Context.isReservedType name = true)
    (turbo : ctx.opts.turbo = true) (reads : ctx.ExprReads tokens expr factors values good) :
    ctx.BaseReads (manner.name name ++ manner.parens tokens) (.typeCast name expr) (fun _ => true)
      factors values good := by
  intro state rest last final fine room _ goes
  have whole := castOperand_read (manner.spell .LeftParen) (manner.spell .RightParen) reads room goes
  apply whole.of_eq
  intro fuel
  obtain ⟨module?, word⟩ := name
  rw [Context.isReservedType, decide_eq_true_eq] at reserved
  obtain ⟨rfl, keyword⟩ := reserved
  rw [Manner.name, Manner.word, if_pos keyword, Manner.parens, Manner.brackets, List.append_assoc,
    List.singleton_append, List.cons_append, List.append_assoc, List.singleton_append]
  change ctx.factorAt (ctx.parsers fuel) ⟨keywordKind word, word⟩ _ = _
  rw [factorAt_reserved ⟨keywordKind word, word⟩ (ctx.parsers fuel) keyword]
  have cast : ctx.opts.turbo = true ∧ (state.reading (manner.token .LeftParen ::
      (tokens ++ manner.token .RightParen :: rest))).current.kind = .LeftParen :=
    ⟨turbo, rfl⟩
  simp only [bind_apply, advance_reading, current_apply, Option.bind_some, if_pos cast]
  rfl

theorem base_inherited (text : Text) :
    ctx.BaseReads [⟨.Inherited, text⟩] (.inheritedCall none []) (fun kind => kind != .Identifier) 0
      0 true := by
  intro state rest last final fine room follow goes
  rw [Bool.true_and]
  apply goes.of_eq
  intro fuel
  have other : ¬ (state.reading rest).current.kind = .Identifier := bne_iff_ne.mp follow
  change Context.parseInherited (ctx.parsers fuel) (state.reading rest) = _
  simp only [Context.parseInherited, bind_apply, current_apply, Option.bind_some, if_neg other]

theorem base_inheritedCall_nil (text method : Text) :
    ctx.BaseReads [⟨.Inherited, text⟩, ⟨.Identifier, method⟩] (.inheritedCall (some method) [])
      (fun kind => kind != .LeftParen) 0 0 true := by
  intro state rest last final fine room follow goes
  rw [Bool.true_and]
  apply goes.of_eq
  intro fuel
  have other : (state.reading rest).current.kind ≠ .LeftParen := bne_iff_ne.mp follow
  change Context.parseInherited (ctx.parsers fuel)
    (state.reading (⟨.Identifier, method⟩ :: rest)) = _
  simp only [Context.parseInherited, bind_apply, current_apply, Option.bind_some,
    current_reading_cons, if_true, advance_reading, accept_of_ne other, Bool.false_eq_true, if_false]

theorem base_inheritedCall {exprs : List ExprNode} {sound : ExprNode → Bool} (text method : Text)
    (each : ∀ expr ∈ exprs, ctx.ExprReads (manner.write 0 expr) expr factors values (sound expr))
    (starts : ∀ expr ∈ exprs, ∀ rest, startsExpr (headKind (manner.write 0 expr ++ rest)) = true) :
    ctx.BaseReads (⟨.Inherited, text⟩ :: ⟨.Identifier, method⟩ ::
      manner.parens (manner.writeAll .Comma exprs)) (.inheritedCall (some method) exprs)
      (fun _ => true) factors values (exprs.all sound) := by
  intro state rest last final fine room _ goes
  have whole := called_reads manner each starts (ExprNode.inheritedCall (some method))
    (manner.spell .RightParen) room goes
  apply whole.of_eq
  intro fuel
  rfl

end Plang.Expressions
