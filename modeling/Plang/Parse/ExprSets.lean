import Plang.Parse.ExprNames

/-!
# Reading sets

A set without a type is a factor.  In Extended Pascal a bracket behind a name may begin a set, an
index, a substring or a structured value, and the labels in it are read before that is known.
-/

namespace Plang.Expressions

open Fuel

variable {ctx : Context} (manner : Manner) {name : Name} {exprs : List ExprNode} {expr : ExprNode}
  {factors values errors : Nat} {good : ExprNode → Bool}

/-- What no token follows that matters is not lost behind. -/
theorem Lost.of_any {after : TokenKind → Bool} {state : ParserState}
    (lost : Lost (fun _ => true) errors state) : Lost after errors state :=
  lost.weaken fun _ wrong => absurd wrong (by decide)

/-- A right bracket that is expected, and what is made of what stood in front of it. -/
theorem ends_rightBracket {α : Type} (result : α) (text : Text) {after : TokenKind → Bool}
    (state : ParserState) (rest : List Token) :
    Ends (Lost after errors) (fun _ => expect .RightBracket >>= fun _ => (pure result : Parse α))
      (state.reading (⟨.RightBracket, text⟩ :: rest)) result (state.reading rest) true := by
  apply Ends.of_eq (Ends.pure result (state.reading rest))
  intro fuel
  rw [bind_apply, expect_reading]
  rfl

/-- The labels between brackets begin with no word of a structured value. -/
theorem headKind_labels (rest : List Token)
    (starts : ∀ expr ∈ exprs, ∀ rest, startsExpr (headKind (manner.write 0 expr ++ rest)) = true)
    (ne : exprs ≠ []) :
    startsExpr (headKind (manner.writeAll .Comma exprs ++ rest)) = true := by
  cases exprs with
  | nil => exact absurd rfl ne
  | cons expr exprs =>
      rw [Manner.writeAll, List.append_assoc]
      exact starts expr List.mem_cons_self _

/-- The elements of a set without a type are read as labels. -/
theorem currentFactor_labels (self : Parsers) (state : ParserState) (text : Text)
    {tokens : List Token} (other : headKind tokens ≠ .RightBracket) :
    ctx.currentFactor self (state.reading (⟨.LeftBracket, text⟩ :: tokens)) =
      (self.parseValueLabels >>= fun elements => expect .RightBracket >>= fun _ =>
        pure (.setLiteral none elements)) (state.reading tokens) := by
  have apart : ¬ (state.reading tokens).current.kind = .RightBracket := other
  change Context.parseSetLiteral self (state.reading tokens) = _
  simp only [Context.parseSetLiteral, bind_apply, current_apply, Option.bind_some, if_neg apart]

section Sets

variable (each : ∀ expr ∈ exprs,
    ctx.LabelReads (manner.write 0 expr) expr factors values (good expr))
  (starts : ∀ expr ∈ exprs, ∀ rest, startsExpr (headKind (manner.write 0 expr ++ rest)) = true)

include each starts

/-- A set without a type. -/
theorem body_set (left right : Text) :
    Reads (fun fuel => ctx.currentFactor (ctx.parsers fuel)) (fun _ => true)
      (⟨.LeftBracket, left⟩ :: (manner.writeAll .Comma exprs ++ [⟨.RightBracket, right⟩]))
      (.setLiteral none exprs) (fun _ => true) factors values (exprs.all good) := by
  intro state rest room _
  by_cases empty : exprs = []
  · subst empty
    exact Ends.of_eq (Ends.pure (ExprNode.setLiteral none []) (state.reading rest)) fun fuel => rfl
  · have inside := labels_read manner empty each state (⟨.RightBracket, right⟩ :: rest) room rfl
    have whole : Ends (Lost (fun _ => true) state.errors.length)
        (fun fuel => (ctx.parsers fuel).parseValueLabels >>= fun elements =>
          expect .RightBracket >>= fun _ => pure (ExprNode.setLiteral none elements))
        (state.reading (manner.writeAll .Comma exprs ++ ⟨.RightBracket, right⟩ :: rest))
        (.setLiteral none exprs) (state.reading rest) (exprs.all good && true) :=
      inside.bind (ends_rightBracket (ExprNode.setLiteral none exprs) right state rest) fun elements fuel =>
        turns_expect_bind (by decide) fun _ => .pure _
    rw [Bool.and_true] at whole
    rw [List.cons_append, List.append_assoc, List.singleton_append]
    have begins := headKind_labels manner (⟨.RightBracket, right⟩ :: rest) starts empty
    have other : headKind (manner.writeAll .Comma exprs ++ ⟨.RightBracket, right⟩ :: rest) ≠
        .RightBracket := by
      intro wrong
      rw [wrong] at begins
      exact absurd begins (by decide)
    exact whole.of_eq fun fuel => currentFactor_labels (ctx.parsers fuel) state left other

end Sets

/-! ### Brackets behind a name -/

/-- In Extended Pascal a bracket behind a name is looked into before it is known what it is. -/
theorem currentFactor_bracket (self : Parsers) (state : ParserState) (rest : List Token)
    (text : Text) (present : ctx.hasName name = true) (extended : ctx.opts.extendedPascal = true) :
    ctx.currentFactor self (state.reading (manner.name name ++ ⟨.LeftBracket, text⟩ :: rest)) =
      self.parseStructuredValueOrIndex name (state.reading (⟨.LeftBracket, text⟩ :: rest)) := by
  rw [currentFactor_name manner self state present (by rfl)]
  have uncast : ¬(ctx.opts.turbo = true ∧ ctx.namesAType name = true ∧
      (state.reading (⟨.LeftBracket, text⟩ :: rest)).current.kind = .LeftParen) := by
    rintro ⟨-, -, wrong⟩
    cases wrong
  have uncalled : ¬ (state.reading (⟨.LeftBracket, text⟩ :: rest)).current.kind = .LeftParen := by
    intro wrong
    cases wrong
  have bracket : ctx.opts.extendedPascal = true ∧
      (state.reading (⟨.LeftBracket, text⟩ :: rest)).current.kind = .LeftBracket :=
    ⟨extended, rfl⟩
  simp only [Context.behindName, bind_apply, current_apply, Option.bind_some, if_neg uncast,
    if_neg uncalled, if_pos bracket]

/-- Labels are followed by a colon or a right bracket, and anything else is reported. -/
theorem turns_constructorOrIndex (labels : List ExprNode) (fuel : Nat) :
    Turns (Lost endsLabels errors) (Lost follows errors)
      (ctx.constructorOrIndex (ctx.parsers fuel) name labels) := by
  rintro state result final (grown | stuck) ended
  · exact .inl (ctx.mono_constructorOrIndex (ctx.mono_parsers fuel) name labels errors state result
      final grown ended)
  · have other : ∀ kind, endsLabels kind = true → state.current.kind ≠ kind := by
      rintro kind expected rfl
      exact absurd expected (by simp [stuck.gone])
    simp only [Context.constructorOrIndex, bind_apply, accept_of_ne (other .Colon (by decide)),
      accept_of_ne (other .RightBracket (by decide)), Option.bind_some, Bool.false_eq_true, if_false,
      current_apply, emitError, pure_apply, Option.some.injEq, Prod.mk.injEq] at ended
    obtain ⟨-, rfl⟩ := ended
    exact .inl (by simp [Grown, stuck.same])

/-- What begins with an expression is read as labels. -/
theorem parseStructuredValueOrIndex_labels (self : Parsers) (state : ParserState) (text : Text)
    {tokens : List Token} (starts : startsExpr (headKind tokens) = true) :
    ctx.parseStructuredValueOrIndex self name (state.reading (⟨.LeftBracket, text⟩ :: tokens)) =
      (self.parseValueLabels >>= fun labels => ctx.constructorOrIndex self name labels)
        (state.reading tokens) := by
  rw [Context.parseStructuredValueOrIndex, bind_apply, advance_reading, Option.bind_some, bind_apply,
    current_apply, Option.bind_some]
  dsimp only
  rw [kind_current_reading]
  generalize headKind tokens = kind at starts
  cases kind <;> first | rfl | exact absurd starts (by decide)

/-- Behind a type stands a set. -/
theorem setOrIndex_type (self : Parsers) (type : ctx.namesAType name = true) :
    ctx.setOrIndex self name exprs = pure (.setLiteral (some name) exprs) := by
  match exprs with
  | [] => simp [Context.setOrIndex]
  | [_] => simp [Context.setOrIndex, type]
  | _ :: _ :: _ => simp [Context.setOrIndex, type]

theorem setOrIndex_index (self : Parsers) (plain : ctx.namesAType name = false)
    (single : ∀ low high, expr ≠ .setRange low high) :
    ctx.setOrIndex self name [expr] = self.parsePostfix (.index (.ident name) expr) := by
  cases expr with
  | setRange low high => exact absurd rfl (single low high)
  | _ => simp [Context.setOrIndex, plain]

theorem setOrIndex_range (self : Parsers) (plain : ctx.namesAType name = false)
    (low high : ExprNode) :
    ctx.setOrIndex self name [.setRange low high] = pure (.substring (.ident name) low high) := by
  simp [Context.setOrIndex, plain]

section Labels

variable (each : ∀ expr ∈ exprs,
    ctx.LabelReads (manner.write 0 expr) expr factors values (good expr))
  (starts : ∀ expr ∈ exprs, ∀ rest, startsExpr (headKind (manner.write 0 expr ++ rest)) = true)
  (present : ctx.hasName name = true) (extended : ctx.opts.extendedPascal = true)

include each starts present extended

/-- The labels behind a name, and what is behind them. -/
theorem labelsBehindName_read (ne : exprs ≠ []) (left : Text) {state : ParserState}
    {rest : List Token} {last : ExprNode} {final : ParserState} {fine : Bool}
    (room : Room factors values state) (ends : endsLabels (headKind rest) = true)
    (goes : Ends (Lost follows state.errors.length)
      (fun fuel => ctx.constructorOrIndex (ctx.parsers fuel) name exprs) (state.reading rest) last
      final fine) :
    Ends (Lost follows state.errors.length) (fun fuel => ctx.currentFactor (ctx.parsers fuel))
      (state.reading (manner.name name ++
        ⟨.LeftBracket, left⟩ :: (manner.writeAll .Comma exprs ++ rest)))
      last final (exprs.all good && fine) := by
  have whole := (labels_read manner ne each state rest room ends).bind goes turns_constructorOrIndex
  have body : Ends (Lost follows state.errors.length)
      (fun fuel => ctx.parseStructuredValueOrIndex (ctx.parsers fuel) name)
      (state.reading (⟨.LeftBracket, left⟩ :: (manner.writeAll .Comma exprs ++ rest)))
      last final (exprs.all good && fine) :=
    whole.of_eq fun fuel => parseStructuredValueOrIndex_labels (ctx.parsers fuel) state left
      (headKind_labels manner rest starts ne)
  have called : Ends (Lost follows state.errors.length)
      (fun fuel => (ctx.parsers fuel).parseStructuredValueOrIndex name)
      (state.reading (⟨.LeftBracket, left⟩ :: (manner.writeAll .Comma exprs ++ rest)))
      last final (exprs.all good && fine) := .call _ (fun _ => rfl) body
  exact called.of_eq fun fuel =>
    currentFactor_bracket manner (ctx.parsers fuel) state _ left present extended

/-- A set with a type. -/
theorem read_typedSet (typed : exprs ≠ [] → ctx.namesAType name = true) (left right : Text) :
    Reads (fun fuel => ctx.currentFactor (ctx.parsers fuel)) follows
      (manner.name name ++
        ⟨.LeftBracket, left⟩ :: (manner.writeAll .Comma exprs ++ [⟨.RightBracket, right⟩]))
      (.setLiteral (some name) exprs) (fun _ => true) factors values (exprs.all good) := by
  intro state rest room _
  rw [List.append_assoc, List.cons_append, List.append_assoc, List.singleton_append]
  by_cases empty : exprs = []
  · subst empty
    have body : Ends (Lost follows state.errors.length)
        (fun fuel => (ctx.parsers fuel).parseStructuredValueOrIndex name)
        (state.reading (⟨.LeftBracket, left⟩ :: ⟨.RightBracket, right⟩ :: rest))
        (.setLiteral (some name) []) (state.reading rest) true :=
      .call (fun fuel => ctx.parseStructuredValueOrIndex (ctx.parsers fuel) name) (fun _ => rfl)
        (Ends.of_eq (Ends.pure (ExprNode.setLiteral (some name) []) (state.reading rest))
          fun fuel => rfl)
    exact body.of_eq fun fuel =>
      currentFactor_bracket manner (ctx.parsers fuel) state _ left present extended
  · rw [← Bool.and_true (exprs.all good)]
    apply labelsBehindName_read manner each starts present extended empty left room rfl
    apply Ends.of_eq (Ends.pure (ExprNode.setLiteral (some name) exprs) (state.reading rest))
    intro fuel
    change ctx.setOrIndex (ctx.parsers fuel) name exprs (state.reading rest) = _
    rw [setOrIndex_type (ctx.parsers fuel) (typed empty)]

end Labels

section Indices

variable {fine : Bool} (reads : ctx.LabelReads (manner.write 0 expr) expr factors values fine)
  (starts : ∀ rest, startsExpr (headKind (manner.write 0 expr ++ rest)) = true)
  (present : ctx.hasName name = true) (extended : ctx.opts.extendedPascal = true)
  (plain : ctx.namesAType name = false)

include reads starts present extended

/-- One label of a constructor is read behind its name. -/
theorem labelBehindName_read (left right : Text) {state : ParserState} {rest : List Token}
    {last : ExprNode} {final : ParserState} {sound : Bool} (room : Room factors values state)
    (goes : Ends (Lost follows state.errors.length)
      (fun fuel => ctx.setOrIndex (ctx.parsers fuel) name [expr]) (state.reading rest) last final
      sound) :
    Ends (Lost follows state.errors.length) (fun fuel => ctx.currentFactor (ctx.parsers fuel))
      (state.reading (manner.name name ++
        ⟨.LeftBracket, left⟩ :: (manner.write 0 expr ++ [⟨.RightBracket, right⟩]) ++ rest))
      last final (fine && sound) := by
  have each : ∀ label ∈ [expr],
      ctx.LabelReads (manner.write 0 label) label factors values fine := by
    intro label listed
    rw [List.mem_singleton.mp listed]
    exact reads
  have begins : ∀ label ∈ [expr], ∀ rest,
      startsExpr (headKind (manner.write 0 label ++ rest)) = true := by
    intro label listed
    rw [List.mem_singleton.mp listed]
    exact starts
  have behind : Ends (Lost follows state.errors.length)
      (fun fuel => ctx.constructorOrIndex (ctx.parsers fuel) name [expr])
      (state.reading (⟨.RightBracket, right⟩ :: rest)) last final sound :=
    goes.of_eq fun fuel => rfl
  have whole := labelsBehindName_read manner each begins present extended (List.cons_ne_nil _ _) left
    room (by rfl) behind
  rw [Manner.writeAll, Manner.writeMore, List.append_nil, List.all_cons, List.all_nil,
    Bool.and_true] at whole
  rw [List.append_assoc, List.cons_append, List.append_assoc, List.singleton_append]
  exact whole

include plain

/-- A component of a variable. -/
theorem base_index (single : ∀ low high, expr ≠ .setRange low high) (left right : Text) :
    ctx.BaseReads (manner.name name ++
        ⟨.LeftBracket, left⟩ :: (manner.write 0 expr ++ [⟨.RightBracket, right⟩]))
      (.index (.ident name) expr) (fun _ => true) factors values fine := by
  intro state rest last final sound room _ goes
  apply labelBehindName_read manner reads starts present extended left right room
  apply goes.of_eq
  intro fuel
  rw [setOrIndex_index (ctx.parsers fuel) plain single]

end Indices

/-- A substring of a variable, behind which nothing more is looked for. -/
theorem read_substring {low high : ExprNode} {fine : Bool} (left right : Text)
    (reads : ctx.LabelReads (manner.write 0 (.setRange low high)) (.setRange low high) factors values
      fine)
    (starts : ∀ rest, startsExpr (headKind (manner.write 0 (.setRange low high) ++ rest)) = true)
    (present : ctx.hasName name = true) (extended : ctx.opts.extendedPascal = true)
    (plain : ctx.namesAType name = false) :
    Reads (fun fuel => ctx.currentFactor (ctx.parsers fuel)) follows
      (manner.name name ++ ⟨.LeftBracket, left⟩ ::
        (manner.write 0 (.setRange low high) ++ [⟨.RightBracket, right⟩]))
      (.substring (.ident name) low high) (fun _ => true) factors values fine := by
  intro state rest room _
  rw [← Bool.and_true fine]
  apply labelBehindName_read manner reads starts present extended left right room
  apply Ends.of_eq
    (Ends.pure (ExprNode.substring (.ident name) low high) (state.reading rest))
  intro fuel
  rw [setOrIndex_range (ctx.parsers fuel) plain]

end Plang.Expressions
