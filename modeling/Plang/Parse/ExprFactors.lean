import Plang.Parse.ExprReading
import Plang.Parse.ExprBeginnings

/-!
# Reading factors and selections

A factor is read by its first token, and what is selected from it by the loop that follows.
-/

namespace Plang.Expressions

open Fuel IntLiterals

/-- The one kind of token that may follow. -/
def only (kind : TokenKind) : TokenKind → Bool := fun other => other == kind

/-! ### Brackets that are closed -/

section Closing

variable {state : ParserState} {rest : List Token} {text : Text}

theorem closeParen_reading (limit : state.exprDepthLimitHit = false) :
    closeParen (state.reading (⟨.RightParen, text⟩ :: rest)) = some ((), state.reading rest) := by
  have closed : (expect .RightParen >>= fun _ => (pure () : Parse Unit))
      (state.reading (⟨.RightParen, text⟩ :: rest)) = some ((), state.reading rest) := by
    rw [bind_apply, expect_reading]
    rfl
  rw [← closed]
  exact congrFun (if_neg (by simp [ParserState.reading, limit])) _

theorem closeValue_reading (limit : state.valueDepthLimitHit = false) :
    closeValue (state.reading (⟨.RightBracket, text⟩ :: rest)) = some ((), state.reading rest) := by
  have closed : (expect .RightBracket >>= fun _ => (pure () : Parse Unit))
      (state.reading (⟨.RightBracket, text⟩ :: rest)) = some ((), state.reading rest) := by
    rw [bind_apply, expect_reading]
    rfl
  rw [← closed]
  exact congrFun (if_neg (by simp [ParserState.reading, limit])) _

end Closing

/-! ### Simple factors -/

section Simple

variable {ctx : Context} {tokens : List Token} {expr : ExprNode} {factors values : Nat}
  {good : Bool} {token : Token}

/-- A factor of one token. -/
theorem body_of_token (same : ∀ self (state : ParserState) rest,
    ctx.factorAt self token (state.reading (token :: rest)) = some (expr, state.reading rest)) :
    ctx.BodyReads [token] expr 0 0 true := by
  intro state rest room ends
  exact Ends.of_eq (Ends.pure expr (state.reading rest)) fun fuel => same (ctx.parsers fuel) state rest

/-- What an integer literal stands for tells its bits. -/
theorem eq_of_denoted {first second : IntLitExpr} (flags : first.ExceedsInt64 = second.ExceedsInt64)
    (denoted : first.denoted = second.denoted) : first = second := by
  obtain ⟨bits, exceeds⟩ := first
  obtain ⟨other, flag⟩ := second
  obtain rfl : exceeds = flag := flags
  congr 1
  cases exceeds with
  | false => exact BitVec.eq_of_toInt_eq denoted
  | true => exact BitVec.eq_of_toNat_eq (Int.ofNat_inj.mp denoted)

/-- The decimal digits of an integer literal are read as it. -/
theorem parseIntLit_denoted {node : IntLitExpr} (nonneg : 0 ≤ node.denoted)
    (large : node.ExceedsInt64 ↔ (INT64_MAX : Int) < node.denoted) :
    parseIntLit (Nat.toDigits 10 node.denoted.toNat) = (node, []) := by
  obtain ⟨n, n_eq⟩ := Int.eq_ofNat_of_zero_le nonneg
  have represented : n ≤ UINT64_MAX := by
    have bits := node.Value.isLt
    have signed := node.Value.toInt_lt
    rw [IntLitExpr.denoted] at n_eq
    rw [UINT64_MAX]
    split at n_eq <;> omega
  have digits := (parseIntLit_digits Nat.toDigits_ne_nil (isDigit_toDigits n)).1
  rw [valueOf_toDigits] at digits
  obtain ⟨read, read_eq, denoted, exceeds⟩ := digits represented
  rw [n_eq, Int.toNat_natCast, read_eq, Prod.mk.injEq]
  refine ⟨?_, rfl⟩
  have flags : read.ExceedsInt64 = node.ExceedsInt64 := by
    rw [n_eq, Nat.cast_lt] at large
    exact Bool.eq_iff_iff.mpr (exceeds.trans large.symm)
  exact eq_of_denoted flags (denoted.trans n_eq.symm)

theorem body_intLit {node : IntLitExpr} (nonneg : 0 ≤ node.denoted)
    (large : node.ExceedsInt64 ↔ (INT64_MAX : Int) < node.denoted) :
    ctx.BodyReads [⟨.IntLit, Nat.toDigits 10 node.denoted.toNat⟩] (.intLit node) 0 0 true := by
  apply body_of_token
  intro self state rest
  have read := parseIntLit_denoted nonneg large
  change Context.parseIntLiteral (Nat.toDigits 10 node.denoted.toNat) _ = _
  rw [Context.parseIntLiteral, read]
  change some (_, { state.reading rest with errors := state.errors ++ [] }) = _
  rw [List.append_nil]
  rfl

theorem body_realLit {lexeme : Text} (represented : ctx.realOutOfRange lexeme = false) :
    ctx.BodyReads [⟨.RealLit, lexeme⟩] (.realLit lexeme) 0 0 true := by
  apply body_of_token
  intro self state rest
  change ctx.parseRealLiteral lexeme _ = _
  rw [Context.parseRealLiteral, represented]
  rfl

/-- `not` and `@` apply to one factor. -/
theorem Context.FactorReads.prefixed (reads : ctx.FactorReads tokens expr factors values good)
    (text : Text) {op : TokenKind} (listed : op = .Not ∨ op = .At) :
    ctx.BodyReads (⟨op, text⟩ :: tokens) (.unary op expr) factors values good := by
  intro state rest room ends
  apply ((reads state rest room ends).returning (ExprNode.unary op)).of_eq
  intro fuel
  rcases listed with rfl | rfl <;> rfl

theorem Context.ExprReads.parens (reads : ctx.ExprReads tokens expr factors values good)
    (left right : Text) :
    ctx.BodyReads (⟨.LeftParen, left⟩ :: (tokens ++ [⟨.RightParen, right⟩])) expr factors values
      good := by
  intro state rest room ends
  have inside := reads state (⟨.RightParen, right⟩ :: rest) room rfl
  have closed : Ends (Lost follows state.errors.length)
      (fun _ => closeParen >>= fun _ => (pure expr : Parse ExprNode))
      (state.reading (⟨.RightParen, right⟩ :: rest)) expr (state.reading rest) true := by
    apply Ends.of_eq (Ends.pure expr (state.reading rest))
    intro fuel
    rw [bind_apply, closeParen_reading room.exprLimit]
    rfl
  have whole : Ends (Lost follows state.errors.length)
      (fun fuel => (ctx.parsers fuel).parseExpression >>= fun expr => closeParen >>= fun _ =>
        pure expr)
      (state.reading (tokens ++ ⟨.RightParen, right⟩ :: rest)) expr (state.reading rest)
      (good && true) :=
    inside.bind closed fun result _ => .bind (turns_closeParen (by decide)) fun _ =>
      (Mono.pure result _).weaken fun _ => .inl
  rw [Bool.and_true] at whole
  apply whole.of_eq
  intro fuel
  rw [List.cons_append, List.append_assoc]
  rfl

end Simple

/-! ### Lists -/

section Lists

variable {ctx : Context} (manner : Manner) {exprs : List ExprNode} {factors values errors : Nat}
  {good : ExprNode → Bool}

theorem manner_writeMore (separator : TokenKind) (expr : ExprNode) :
    manner.writeMore separator (expr :: exprs) =
      manner.token separator :: manner.writeAll separator (expr :: exprs) := by
  rw [Manner.writeMore, Manner.writeAll]

/-- More of the same behind a separator, where the token behind them is none. -/
theorem more_read {list : Bounded ParserState (List ExprNode)} {separator : TokenKind}
    {after : TokenKind → Bool} {fine : Bool} (behind : ∀ kind, after kind = true → kind ≠ separator)
    (none_good : exprs = [] → fine = true)
    (reads : exprs ≠ [] →
      Reads list after (manner.writeAll separator exprs) exprs after factors values fine) :
    Reads (fun fuel => accept separator >>= fun taken => if taken = true then list fuel else pure [])
      after (manner.writeMore separator exprs) exprs after factors values fine := by
  intro state rest room ends
  cases exprs with
  | nil =>
      rw [none_good rfl]
      apply Ends.of_eq (Ends.pure [] (state.reading rest))
      intro fuel
      have other : (state.reading rest).current.kind ≠ separator := behind _ ends
      rw [Manner.writeMore, List.nil_append, bind_apply, accept_of_ne other]
      rfl
  | cons second exprs =>
      apply (reads (List.cons_ne_nil _ _) state rest room ends).of_eq
      intro fuel
      rw [manner_writeMore, bind_apply, List.cons_append, Manner.token, accept_reading]
      rfl

theorem headKind_writeMore {separator : TokenKind} {after before : TokenKind → Bool}
    {rest : List Token} (between : before separator = true)
    (behind : ∀ kind, after kind = true → before kind = true)
    (ends : after (headKind rest) = true) :
    before (headKind (manner.writeMore separator exprs ++ rest)) = true := by
  cases exprs with
  | nil => exact behind _ ends
  | cons second exprs =>
      rw [manner_writeMore]
      exact between

/-- Some of the same with separators between them, where the token behind them is no separator. -/
theorem separated_read {one : Bounded ParserState ExprNode}
    {list : Bounded ParserState (List ExprNode)} {separator : TokenKind}
    {before after : TokenKind → Bool}
    (called : ∀ fuel, list (fuel + 1) = one fuel >>= fun first =>
      (accept separator >>= fun taken => if taken = true then list fuel else pure []) >>=
        fun others => pure (first :: others))
    (mono : ∀ fuel, Mono (list fuel)) (between : before separator = true)
    (behind : ∀ kind, after kind = true → before kind = true ∧ kind ≠ separator)
    (taken : follows separator = true) (fewer : ∀ kind, follows kind = false → after kind = false)
    (ne : exprs ≠ [])
    (each : ∀ expr ∈ exprs,
      Reads one follows (manner.write 0 expr) expr before factors values (good expr)) :
    Reads list after (manner.writeAll separator exprs) exprs after factors values
      (exprs.all good) := by
  induction exprs with
  | nil => exact absurd rfl ne
  | cons expr exprs induction =>
      intro state rest room ends
      have more := more_read manner (fun kind ends => (behind kind ends).2)
        (fun none => none ▸ List.all_nil) (fun ne => induction ne fun expr listed =>
          each expr (List.mem_cons_of_mem _ listed)) state rest room ends
      have begun := each expr List.mem_cons_self state
        (manner.writeMore separator exprs ++ rest) room
        (headKind_writeMore manner between (fun kind ends => (behind kind ends).1) ends)
      have whole : Ends (Lost after state.errors.length)
          (fun fuel => one fuel >>= fun first =>
            (accept separator >>= fun taken => if taken = true then list fuel else pure []) >>=
              fun others => pure (first :: others))
          (state.reading (manner.write 0 expr ++ (manner.writeMore separator exprs ++ rest)))
          (expr :: exprs) (state.reading rest) (good expr && exprs.all good) :=
        begun.bind (more.returning (expr :: ·)) fun first fuel =>
          .bind (turns_accept taken (mono fuel) (turns_pure [] fewer)) fun others =>
            turns_pure _ fun _ gone => gone
      rw [Manner.writeAll, List.append_assoc, List.all_cons]
      exact .call _ called whole

/-- The arguments of a call, up to the right parenthesis. -/
theorem arguments_read (ne : exprs ≠ [])
    (each : ∀ expr ∈ exprs,
      ctx.ExprReads (manner.write 0 expr) expr factors values (good expr)) :
    Reads (fun fuel => (ctx.parsers fuel).arguments) (only .RightParen)
      (manner.writeAll .Comma exprs) exprs (only .RightParen) factors values
      (exprs.all good) := by
  apply separated_read manner (fun _ => rfl) (fun fuel => (ctx.mono_parsers fuel).arguments)
    (by decide) _ (by decide) _ ne each
  · intro kind
    cases kind <;> decide
  · intro kind
    cases kind <;> decide

/-- What stands between parentheses, with the right one. -/
theorem argumentList_read (text : Text)
    (each : ∀ expr ∈ exprs,
      ctx.ExprReads (manner.write 0 expr) expr factors values (good expr))
    (starts : ∀ expr ∈ exprs, ∀ rest, startsExpr (headKind (manner.write 0 expr ++ rest)) = true) :
    Reads (fun fuel => Context.argumentList (ctx.parsers fuel)) (fun _ => true)
      (manner.writeAll .Comma exprs ++ [⟨.RightParen, text⟩]) exprs (fun _ => true) factors values
      (exprs.all good) := by
  intro state rest room _
  cases exprs with
  | nil =>
      apply Ends.of_eq (Ends.pure [] (state.reading rest))
      intro fuel
      rw [Manner.writeAll, List.nil_append, List.singleton_append]
      rfl
  | cons expr exprs =>
      have inside := arguments_read manner (List.cons_ne_nil expr exprs) each state
        (⟨.RightParen, text⟩ :: rest) room rfl
      have closed : Ends (Lost (fun _ => true) state.errors.length)
          (fun _ => expect .RightParen >>= fun _ => (pure (expr :: exprs) : Parse _))
          (state.reading (⟨.RightParen, text⟩ :: rest)) (expr :: exprs) (state.reading rest)
          true := by
        apply Ends.of_eq (Ends.pure (expr :: exprs) (state.reading rest))
        intro fuel
        rw [bind_apply, expect_reading]
        rfl
      have whole : Ends (Lost (fun _ => true) state.errors.length)
          (fun fuel => (ctx.parsers fuel).arguments >>= fun args => expect .RightParen >>= fun _ =>
            pure args)
          (state.reading (manner.writeAll .Comma (expr :: exprs) ++ ⟨.RightParen, text⟩ :: rest))
          (expr :: exprs) (state.reading rest) ((expr :: exprs).all good && true) :=
        inside.bind closed fun args fuel => turns_expect_bind (by decide) fun _ => .pure args
      rw [Bool.and_true] at whole
      rw [List.append_assoc, List.singleton_append]
      apply whole.of_eq
      intro fuel
      have begins : startsExpr (headKind (manner.writeAll .Comma (expr :: exprs) ++
          ⟨.RightParen, text⟩ :: rest)) = true := by
        rw [Manner.writeAll, List.append_assoc]
        exact starts expr List.mem_cons_self _
      have other : headKind (manner.writeAll .Comma (expr :: exprs) ++
          ⟨.RightParen, text⟩ :: rest) ≠ .RightParen := by
        intro wrong
        rw [wrong] at begins
        exact absurd begins (by decide)
      change (check .RightParen >>= _) _ = _
      rw [bind_apply, check_apply, kind_current_reading, beq_eq_false_iff_ne.mpr other]
      rfl

/-- A label or an element is over. -/
def endsLabel (kind : TokenKind) : Bool :=
  kind == .Comma || kind == .Colon || kind == .RightBracket

/-- The list of labels or elements is over. -/
def endsLabels (kind : TokenKind) : Bool := kind == .Colon || kind == .RightBracket

def Context.LabelReads (ctx : Context) (tokens : List Token) (label : ExprNode)
    (factors values : Nat) (good : Bool) : Prop :=
  Reads (fun fuel => Context.parseOneLabel (ctx.parsers fuel)) follows tokens label endsLabel
    factors values good

theorem endsLevel_of_endsLabel {kind : TokenKind} (ends : endsLabel kind = true) :
    endsLevel 0 kind = true ∧ kind ≠ .DotDot := by
  revert ends
  cases kind <;> decide

theorem turns_label (low : ExprNode) (fuel : Nat) :
    Turns (Lost follows errors) (Lost follows errors) (Context.label (ctx.parsers fuel) low) :=
  turns_accept (by decide) (.bind (ctx.mono_parsers fuel).parseExpression fun _ => .pure _)
    (turns_pure low fun _ gone => gone)

/-- A label that is no range. -/
theorem Context.ExprReads.label {tokens : List Token} {expr : ExprNode} {fine : Bool}
    (reads : ctx.ExprReads tokens expr factors values fine) :
    ctx.LabelReads tokens expr factors values fine := by
  intro state rest room ends
  obtain ⟨ends, other⟩ := endsLevel_of_endsLabel ends
  have done : Ends (Lost follows state.errors.length)
      (fun fuel => Context.label (ctx.parsers fuel) expr) (state.reading rest) expr
      (state.reading rest) true := by
    apply Ends.of_eq (Ends.pure expr (state.reading rest))
    intro fuel
    change (accept .DotDot >>= _) _ = _
    have apart : (state.reading rest).current.kind ≠ .DotDot := other
    rw [bind_apply, accept_of_ne apart]
    rfl
  have whole := (reads state rest room ends).bind done turns_label
  rw [Bool.and_true] at whole
  exact whole

theorem Context.ExprReads.range {tokens others : List Token} {low high : ExprNode}
    {fine sound : Bool} (first : ctx.ExprReads tokens low factors values fine)
    (second : ctx.ExprReads others high factors values sound) (text : Text) :
    ctx.LabelReads (tokens ++ ⟨.DotDot, text⟩ :: others) (.setRange low high) factors values
      (fine && sound) := by
  intro state rest room ends
  have begun := first state (⟨.DotDot, text⟩ :: (others ++ rest)) room rfl
  have goes := second state rest room (endsLevel_of_endsLabel ends).1
  have done : Ends (Lost follows state.errors.length)
      (fun fuel => Context.label (ctx.parsers fuel) low)
      (state.reading (⟨.DotDot, text⟩ :: (others ++ rest))) (.setRange low high)
      (state.reading rest) sound := by
    apply (goes.returning (ExprNode.setRange low)).of_eq
    intro fuel
    change (accept .DotDot >>= _) _ = _
    rw [bind_apply, accept_reading]
    rfl
  rw [List.append_assoc, List.cons_append]
  exact begun.bind done turns_label

/-- The labels of an arm or the elements of a set. -/
theorem labels_read (ne : exprs ≠ [])
    (each : ∀ expr ∈ exprs,
      ctx.LabelReads (manner.write 0 expr) expr factors values (good expr)) :
    Reads (fun fuel => (ctx.parsers fuel).parseValueLabels) endsLabels
      (manner.writeAll .Comma exprs) exprs endsLabels factors values (exprs.all good) := by
  apply separated_read manner (fun _ => rfl) (fun fuel => (ctx.mono_parsers fuel).parseValueLabels)
    (by decide) _ (by decide) _ ne each
  · intro kind
    cases kind <;> decide
  · intro kind
    cases kind <;> decide

end Lists

end Plang.Expressions
