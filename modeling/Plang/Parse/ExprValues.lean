import Plang.Parse.ExprSets

/-!
# Reading structured values

The arms of a structured value have labels and a component, which may be a structured value without
a type; the last arm may be a completer.
-/

namespace Plang.Expressions

open Fuel

variable {ctx : Context} (manner : Manner) {name : Name} {tokens : List Token} {expr : ExprNode}
  {factors values errors : Nat} {good : Bool}

/-! ### Components -/

theorem leaveValueDepth_reading {state : ParserState} {rest : List Token}
    (limit : state.valueDepthLimitHit = false) :
    leaveValueDepth ({ state with valueDepth := state.valueDepth + 1 }.reading rest) =
      some ((), state.reading rest) := by
  simp [leaveValueDepth, ParserState.reading, limit]

theorem turns_leaveValueDepth {after : TokenKind → Bool} (result : ExprNode) :
    Turns (Lost after errors) (Lost after errors)
      (leaveValueDepth >>= fun _ => (pure result : Parse ExprNode)) := by
  rintro state _ final (grown | stuck) ⟨⟩
  · exact .inl grown
  · exact .inr ⟨stuck.same, stuck.gone, stuck.exprLimit, by simp [stuck.valueLimit]⟩

/-- An activation of `parseComponentValue` is counted while it lasts. -/
theorem ends_valueDepthScope {run : Bounded ParserState ExprNode} {state : ParserState}
    {rest : List Token} {after : TokenKind → Bool} (limit : state.valueDepthLimitHit = false)
    (ends : Ends (Lost after errors) run
      ({ state with valueDepth := state.valueDepth + 1 }.reading tokens) expr
      ({ state with valueDepth := state.valueDepth + 1 }.reading rest) good) :
    Ends (Lost after errors) (fun fuel => valueDepthScope (run fuel)) (state.reading tokens) expr
      (state.reading rest) good := by
  have last : Ends (Lost after errors)
      (fun _ => leaveValueDepth >>= fun _ => (pure expr : Parse ExprNode))
      ({ state with valueDepth := state.valueDepth + 1 }.reading rest) expr (state.reading rest)
      true := by
    apply Ends.of_eq (Ends.pure expr (state.reading rest))
    intro fuel
    rw [bind_apply, leaveValueDepth_reading limit]
    rfl
  have whole := ends.bind last fun result _ => turns_leaveValueDepth result
  rw [Bool.and_true] at whole
  exact whole.of_eq fun fuel => rfl

def Context.ComponentReads (ctx : Context) (tokens : List Token) (expr : ExprNode)
    (factors values : Nat) (good : Bool) : Prop :=
  Reads (fun fuel => (ctx.parsers fuel).parseComponentValue) endsComponent tokens expr endsComponent
    factors values good

/-- The tokens are read by an activation of `parseComponentValue`, beside its count. -/
def Context.InnerReads (ctx : Context) (tokens : List Token) (expr : ExprNode)
    (factors values : Nat) (good : Bool) : Prop :=
  Reads (fun fuel => Context.componentValue (ctx.parsers fuel)) endsComponent tokens expr
    endsComponent factors values good

theorem Context.InnerReads.component (reads : ctx.InnerReads tokens expr factors values good) :
    ctx.ComponentReads tokens expr factors (values + 1) good := by
  intro state rest room ends
  have le := room.values_le
  have inside : Room factors values { state with valueDepth := state.valueDepth + 1 } :=
    ⟨room.factors_le, by change state.valueDepth + 1 + values ≤ _; omega, room.exprLimit,
      room.valueLimit⟩
  have begun := ends_valueDepthScope room.valueLimit (reads _ rest inside ends)
  apply Ends.call (fun fuel => Context.parseComponentValue (ctx.parsers fuel)) fun _ => rfl
  apply begun.of_eq
  intro fuel
  have below : ¬ MaxValueDepth ≤ state.valueDepth := by omega
  exact congrFun (if_neg below) (state.reading (tokens ++ rest))

theorem endsLevel_of_endsComponent {kind : TokenKind} (ends : endsComponent kind = true) :
    endsLevel 0 kind = true := by
  revert ends
  cases kind <;> decide

theorem not_endsComponent_of_not_follows (kind : TokenKind) (gone : follows kind = false) :
    endsComponent kind = false := by
  revert gone
  cases kind <;> decide

/-- A component that begins with no bracket is an expression. -/
theorem Context.ExprReads.inner (reads : ctx.ExprReads tokens expr factors values good)
    (other : ∀ rest, headKind (tokens ++ rest) ≠ .LeftBracket) :
    ctx.InnerReads tokens expr factors values good := by
  intro state rest room ends
  have whole := (reads state rest room (endsLevel_of_endsComponent ends)).weaken fun _ lost =>
    lost.weaken not_endsComponent_of_not_follows
  apply whole.of_eq
  intro fuel
  have apart : (state.reading (tokens ++ rest)).current.kind ≠ .LeftBracket := other rest
  rw [Context.componentValue, bind_apply, accept_of_ne apart]
  rfl

/-- Labels without a colon behind them are the elements of a set. -/
theorem turns_arrayOrSet (labels : List ExprNode) (fuel : Nat) :
    Turns (Lost endsLabels errors) (Lost endsComponent errors)
      (Context.arrayOrSet (ctx.parsers fuel) labels) :=
  turns_accept (by decide)
    (.bind (ctx.mono_parsers fuel).parseComponentValue fun _ =>
      .bind (Context.mono_moreValueArms (ctx.mono_parsers fuel)) fun _ => .bind .closeValue fun _ =>
        .pure _)
    (turns_expect_bind (by decide) fun _ => .pure _)

/-- Behind the bracket of a component the labels come first where there are any. -/
theorem componentValue_labels (self : Parsers) (state : ParserState) (text : Text)
    (starts : startsExpr (headKind tokens) = true) :
    Context.componentValue self (state.reading (⟨.LeftBracket, text⟩ :: tokens)) =
      (self.parseValueLabels >>= fun first => Context.arrayOrSet self first)
        (state.reading tokens) := by
  have other : (state.reading tokens).current.kind ≠ .RightBracket := by
    intro wrong
    rw [kind_current_reading] at wrong
    rw [wrong] at starts
    exact absurd starts (by decide)
  have plain : ¬((state.reading tokens).current.kind = .Case ∨
      (state.reading tokens).current.kind = .Otherwise) := by
    rw [kind_current_reading]
    rintro (wrong | wrong) <;>
    · rw [wrong] at starts
      exact absurd starts (by decide)
  rw [Context.componentValue, bind_apply, accept_reading]
  change Context.bracketedValue self (state.reading tokens) = _
  simp only [Context.bracketedValue, bind_apply, accept_of_ne other, Option.bind_some,
    Bool.false_eq_true, if_false, current_apply, if_neg plain]

section Sets

variable {exprs : List ExprNode} {sound : ExprNode → Bool}
  (each : ∀ expr ∈ exprs,
    ctx.LabelReads (manner.write 0 expr) expr factors values (sound expr))
  (starts : ∀ expr ∈ exprs, ∀ rest, startsExpr (headKind (manner.write 0 expr ++ rest)) = true)
  (ne : exprs ≠ [])

include each starts ne

/-- The labels of a component, and what is behind them. -/
theorem labelsOfComponent_read (left : Text) {state : ParserState} {rest : List Token}
    {last : ExprNode} {final : ParserState} {fine : Bool} (room : Room factors values state)
    (ends : endsLabels (headKind rest) = true)
    (goes : Ends (Lost endsComponent state.errors.length)
      (fun fuel => Context.arrayOrSet (ctx.parsers fuel) exprs) (state.reading rest) last final
      fine) :
    Ends (Lost endsComponent state.errors.length)
      (fun fuel => Context.componentValue (ctx.parsers fuel))
      (state.reading (⟨.LeftBracket, left⟩ :: (manner.writeAll .Comma exprs ++ rest))) last final
      (exprs.all sound && fine) := by
  have whole := (labels_read manner ne each state rest room ends).bind goes turns_arrayOrSet
  exact whole.of_eq fun fuel => componentValue_labels (ctx.parsers fuel) state left
    (headKind_labels manner rest starts ne)

/-- A set with elements as a component, whatever stands behind it. -/
theorem read_setComponent (left right : Text) {state : ParserState} {rest : List Token}
    (room : Room factors values state) :
    Ends (Lost endsComponent state.errors.length)
      (fun fuel => Context.componentValue (ctx.parsers fuel))
      (state.reading (⟨.LeftBracket, left⟩ ::
        (manner.writeAll .Comma exprs ++ ⟨.RightBracket, right⟩ :: rest)))
      (.setLiteral none exprs) (state.reading rest) (exprs.all sound) := by
  rw [← Bool.and_true (exprs.all sound)]
  apply labelsOfComponent_read manner each starts ne left room (by rfl)
  exact (ends_rightBracket (ExprNode.setLiteral none exprs) right state rest).of_eq fun fuel => rfl

end Sets

/-! ### Arms -/

/-- The labels of an arm are followed by a colon. -/
theorem turns_armBehind (labels : List ExprNode) (fuel : Nat) :
    Turns (Lost endsLabels errors) (Lost endsComponent errors)
      (Context.armBehind (ctx.parsers fuel) labels) :=
  turns_expect_bind (by decide) fun _ =>
    .bind (ctx.mono_parsers fuel).parseComponentValue fun _ => .pure _

theorem write_labelledArm {labels : List ExprNode} :
    manner.write 0 (.arm labels false expr) =
      manner.writeAll .Comma labels ++ manner.token .Colon :: manner.write 0 expr := by
  rw [Manner.write, if_neg (by decide)]

theorem write_completer {labels : List ExprNode} :
    manner.write 0 (.arm labels true expr) = manner.token .Otherwise :: manner.write 0 expr := by
  rw [Manner.write, if_pos rfl]

theorem labelledArm_read {labels : List ExprNode} {sound : ExprNode → Bool}
    (each : ∀ label ∈ labels,
      ctx.LabelReads (manner.write 0 label) label factors values (sound label))
    (ne : labels ≠ []) (reads : ctx.ComponentReads (manner.write 0 expr) expr factors values good) :
    Reads (fun fuel => Context.labelledArm (ctx.parsers fuel)) endsComponent
      (manner.write 0 (.arm labels false expr)) (.arm labels false expr) endsComponent factors values
      (labels.all sound && good) := by
  intro state rest room ends
  have begun := labels_read manner ne each state
    (manner.token .Colon :: (manner.write 0 expr ++ rest)) room (by rfl)
  have behind : Ends (Lost endsComponent state.errors.length)
      (fun fuel => Context.armBehind (ctx.parsers fuel) labels)
      (state.reading (manner.token .Colon :: (manner.write 0 expr ++ rest)))
      (.arm labels false expr) (state.reading rest) good := by
    apply ((reads state rest room ends).returning (ExprNode.arm labels false)).of_eq
    intro fuel
    rw [Context.armBehind, bind_apply, Manner.token, expect_reading]
    rfl
  rw [write_labelledArm, List.append_assoc, List.cons_append]
  exact begun.bind behind turns_armBehind

/-- The completer of a structured value, whichever way its value is read. -/
theorem otherwiseArm_read {parseValue : Bounded ParserState ExprNode}
    {after before : TokenKind → Bool} (text : Text)
    (reads : Reads parseValue after (manner.write 0 expr) expr before factors values good)
    (starts : ∀ rest, startsExpr (headKind (manner.write 0 expr ++ rest)) = true)
    (beyond : before .RightBracket = true) (more : after .Semicolon = true)
    (still : after .RightBracket = true) :
    Reads (fun fuel => Context.otherwiseArm (parseValue fuel)) (only .RightBracket)
      (⟨.Otherwise, text⟩ :: manner.write 0 expr) (.arm [] true expr) (only .RightBracket) factors
      values good := by
  intro state rest room ends
  have bracket : headKind rest = .RightBracket := beq_iff_eq.mp ends
  have inside := reads state rest room (bracket ▸ beyond)
  have done : Ends (Lost (only .RightBracket) state.errors.length)
      (fun _ => accept .Semicolon >>= fun _ => (pure (ExprNode.arm [] true expr) : Parse _))
      (state.reading rest) (.arm [] true expr) (state.reading rest) true := by
    apply Ends.of_eq (Ends.pure (ExprNode.arm [] true expr) (state.reading rest))
    intro fuel
    have other : (state.reading rest).current.kind ≠ .Semicolon := by
      rw [kind_current_reading, bracket]
      decide
    rw [bind_apply, accept_of_ne other]
    rfl
  have turns : ∀ result (_ : Nat), Turns (Lost after state.errors.length)
      (Lost (only .RightBracket) state.errors.length)
      (accept .Semicolon >>= fun _ => (pure (ExprNode.arm [] true result) : Parse _)) := by
    intro result _
    apply turns_of_stuck (.bind (.accept _) fun _ => .pure _)
    intro state stuck found final ended
    have other : state.current.kind ≠ .Semicolon := by
      intro wrong
      rw [← wrong, stuck.gone] at more
      cases more
    rw [bind_apply, accept_of_ne other] at ended
    obtain ⟨-, rfl⟩ := Prod.mk.inj (Option.some.inj ended)
    refine .inr ⟨stuck.same, ?_, stuck.exprLimit, stuck.valueLimit⟩
    rw [only, beq_eq_false_iff_ne]
    intro wrong
    rw [← wrong, stuck.gone] at still
    cases still
  have whole : Ends (Lost (only .RightBracket) state.errors.length)
      (fun fuel => parseValue fuel >>= fun result => accept .Semicolon >>= fun _ =>
        pure (ExprNode.arm [] true result))
      (state.reading (manner.write 0 expr ++ rest)) (.arm [] true expr) (state.reading rest)
      (good && true) := inside.bind done turns
  rw [Bool.and_true] at whole
  apply whole.of_eq
  intro fuel
  have other : (state.reading (manner.write 0 expr ++ rest)).current.kind ≠ .Colon := by
    have begins := starts rest
    intro wrong
    rw [kind_current_reading] at wrong
    rw [wrong] at begins
    exact absurd begins (by decide)
  rw [List.cons_append, Context.otherwiseArm, bind_apply, advance_reading, Option.bind_some,
    bind_apply, accept_of_ne other]
  rfl

/-- An arm is read by its labels or as a completer. -/
structure Context.ArmReads (ctx : Context) (manner : Manner) (arm : ExprNode)
    (factors values : Nat) (good : Bool) : Prop where
  starts : arm.isCompleter = false → ∀ rest,
    startsExpr (headKind (manner.write 0 arm ++ rest)) = true
  labelled : arm.isCompleter = false →
    Reads (fun fuel => Context.labelledArm (ctx.parsers fuel)) endsComponent (manner.write 0 arm) arm
      endsComponent factors values good
  otherwise : arm.isCompleter = true → ∀ rest,
    headKind (manner.write 0 arm ++ rest) = .Otherwise
  completer : arm.isCompleter = true →
    Reads (fun fuel => Context.otherwiseArm (ctx.parsers fuel).parseComponentValue)
      (only .RightBracket) (manner.write 0 arm) arm (only .RightBracket) factors values good

section Arms

variable {arms : List ExprNode} {sound : ExprNode → Bool} {place : Place}

theorem parseValueArms_labels (self : Parsers) (state : ParserState)
    (starts : startsExpr (headKind tokens) = true) :
    Context.parseValueArms self (state.reading tokens) =
      (Context.labelledArm self >>= fun arm => Context.moreValueArms self >>= fun others =>
        pure (arm :: others)) (state.reading tokens) := by
  rw [Context.parseValueArms, bind_apply, current_apply, Option.bind_some]
  dsimp only
  rw [kind_current_reading]
  generalize headKind tokens = kind at starts
  cases kind <;> first | rfl | exact absurd starts (by decide)

theorem parseValueArms_otherwise (self : Parsers) (state : ParserState)
    (otherwise : headKind tokens = .Otherwise) :
    Context.parseValueArms self (state.reading tokens) =
      (Context.otherwiseArm self.parseComponentValue >>= fun arm => pure [arm])
        (state.reading tokens) := by
  rw [Context.parseValueArms, bind_apply, current_apply, Option.bind_some]
  dsimp only
  rw [kind_current_reading, otherwise]

theorem turns_moreValueArms (fuel : Nat) :
    Turns (Lost endsComponent errors) (Lost (only .RightBracket) errors)
      (Context.moreValueArms (ctx.parsers fuel)) := by
  apply turns_accept (by decide) (ctx.mono_parsers fuel).parseValueArms
  apply turns_pure
  intro kind
  cases kind <;> decide

/-- The arms of a structured value without a type. -/
theorem parseValueArms_read (ne : arms ≠ []) (present : ctx.hasAll manner place .arm arms = true)
    (each : ∀ arm ∈ arms, ctx.ArmReads manner arm factors values (sound arm)) :
    Reads (fun fuel => (ctx.parsers fuel).parseValueArms) (only .RightBracket)
      (manner.writeAll .Semicolon arms) arms (only .RightBracket) factors values
      (arms.all sound) := by
  induction arms generalizing place with
  | nil => exact absurd rfl ne
  | cons arm arms induction =>
      intro state rest room ends
      rw [Context.hasAll, Bool.and_eq_true, Bool.and_eq_true, Bool.or_eq_true] at present
      obtain ⟨⟨-, others⟩, last⟩ := present
      have reads := each arm List.mem_cons_self
      rw [Manner.writeAll, List.append_assoc, List.all_cons]
      apply Ends.call (fun fuel => Context.parseValueArms (ctx.parsers fuel)) fun _ => rfl
      cases kind : arm.isCompleter with
      | true =>
          obtain rfl : arms = [] := by simpa [kind] using last
          rw [Manner.writeMore, List.nil_append, List.all_nil, Bool.and_true]
          apply ((reads.completer kind state rest room ends).returning fun arm => [arm]).of_eq
          exact fun fuel => parseValueArms_otherwise (ctx.parsers fuel) state (reads.otherwise kind rest)
      | false =>
          have more := more_read manner (by rintro kind beyond rfl; exact absurd beyond (by decide))
            (fun none => none ▸ List.all_nil) (fun ne => induction ne others fun arm listed =>
              each arm (List.mem_cons_of_mem _ listed)) state rest room ends
          have begun := reads.labelled kind state (manner.writeMore .Semicolon arms ++ rest) room
            (headKind_writeMore manner (by decide) (fun kind => by cases kind <;> decide) ends)
          have whole : Ends (Lost (only .RightBracket) state.errors.length)
              (fun fuel => Context.labelledArm (ctx.parsers fuel) >>= fun arm =>
                Context.moreValueArms (ctx.parsers fuel) >>= fun others => pure (arm :: others))
              (state.reading (manner.write 0 arm ++ (manner.writeMore .Semicolon arms ++ rest)))
              (arm :: arms) (state.reading rest) (sound arm && arms.all sound) :=
            begun.bind (more.returning (arm :: ·)) fun arm fuel =>
              .bind (turns_moreValueArms fuel) fun others => turns_pure _ fun _ gone => gone
          exact whole.of_eq fun fuel =>
            parseValueArms_labels (ctx.parsers fuel) state (reads.starts kind _)

theorem moreArms_labels (self : Parsers) (state : ParserState) (text : Text)
    (starts : startsExpr (headKind tokens) = true) :
    Context.moreArms self (state.reading (⟨.Semicolon, text⟩ :: tokens)) =
      (Context.labelledArm self >>= fun arm => self.moreArms >>= fun others => pure (arm :: others))
        (state.reading tokens) := by
  rw [Context.moreArms, bind_apply, accept_reading, Option.bind_some, if_pos rfl, bind_apply,
    current_apply, Option.bind_some]
  dsimp only
  rw [kind_current_reading]
  generalize headKind tokens = kind at starts
  cases kind <;> first | rfl | exact absurd starts (by decide)

theorem moreArms_otherwise (self : Parsers) (state : ParserState) (text : Text)
    (otherwise : headKind tokens = .Otherwise) :
    Context.moreArms self (state.reading (⟨.Semicolon, text⟩ :: tokens)) =
      (Context.otherwiseArm self.parseComponentValue >>= fun arm => pure [arm])
        (state.reading tokens) := by
  rw [Context.moreArms, bind_apply, accept_reading, Option.bind_some, if_pos rfl, bind_apply,
    current_apply, Option.bind_some]
  dsimp only
  rw [kind_current_reading, otherwise]

/-- Behind an arm there is a semicolon or nothing more. -/
theorem turns_moreArms (fuel : Nat) :
    Turns (Lost endsComponent errors) (Lost (only .RightBracket) errors)
      (ctx.parsers fuel).moreArms := by
  cases fuel with
  | zero => exact .failure
  | succ fuel =>
      apply turns_accept (by decide)
      · refine .bind .current fun token => ?_
        split
        · exact .pure _
        · exact .pure _
        · exact .bind (Context.mono_otherwiseArm (ctx.mono_parsers fuel).parseComponentValue)
            fun _ => .pure _
        · exact .bind (ctx.mono_parsers fuel).parseVariantPartValue fun _ =>
            .bind (ctx.mono_parsers fuel).moreArms fun _ => .pure _
        · exact .bind (Context.mono_labelledArm (ctx.mono_parsers fuel)) fun _ =>
            .bind (ctx.mono_parsers fuel).moreArms fun _ => .pure _
      · apply turns_pure
        intro kind
        cases kind <;> decide

/-- The arms behind the first one of a structured value with a type. -/
theorem moreArms_read (present : ctx.hasAll manner place .arm arms = true)
    (each : ∀ arm ∈ arms, ctx.ArmReads manner arm factors values (sound arm)) :
    Reads (fun fuel => (ctx.parsers fuel).moreArms) (only .RightBracket)
      (manner.writeMore .Semicolon arms) arms (only .RightBracket) factors values
      (arms.all sound) := by
  induction arms generalizing place with
  | nil =>
      intro state rest room ends
      apply Ends.call (fun fuel => Context.moreArms (ctx.parsers fuel)) fun _ => rfl
      apply Ends.of_eq (Ends.pure [] (state.reading rest))
      intro fuel
      have other : (state.reading rest).current.kind ≠ .Semicolon := by
        rw [kind_current_reading, beq_iff_eq.mp ends]
        decide
      rw [Manner.writeMore, List.nil_append, Context.moreArms, bind_apply, accept_of_ne other]
      rfl
  | cons arm arms induction =>
      intro state rest room ends
      rw [Context.hasAll, Bool.and_eq_true, Bool.and_eq_true, Bool.or_eq_true] at present
      obtain ⟨⟨-, others⟩, last⟩ := present
      have reads := each arm List.mem_cons_self
      rw [Manner.writeMore, List.cons_append, List.append_assoc, List.all_cons]
      apply Ends.call (fun fuel => Context.moreArms (ctx.parsers fuel)) fun _ => rfl
      cases kind : arm.isCompleter with
      | true =>
          obtain rfl : arms = [] := by simpa [kind] using last
          rw [Manner.writeMore, List.nil_append, List.all_nil, Bool.and_true]
          apply ((reads.completer kind state rest room ends).returning fun arm => [arm]).of_eq
          exact fun fuel => moreArms_otherwise (ctx.parsers fuel) state _ (reads.otherwise kind rest)
      | false =>
          have more := induction others (fun arm listed => each arm (List.mem_cons_of_mem _ listed))
            state rest room ends
          have begun := reads.labelled kind state (manner.writeMore .Semicolon arms ++ rest) room
            (headKind_writeMore manner (by decide) (fun kind => by cases kind <;> decide) ends)
          have whole : Ends (Lost (only .RightBracket) state.errors.length)
              (fun fuel => Context.labelledArm (ctx.parsers fuel) >>= fun arm =>
                (ctx.parsers fuel).moreArms >>= fun others => pure (arm :: others))
              (state.reading (manner.write 0 arm ++ (manner.writeMore .Semicolon arms ++ rest)))
              (arm :: arms) (state.reading rest) (sound arm && arms.all sound) :=
            begun.bind (more.returning (arm :: ·)) fun arm fuel =>
              .bind (turns_moreArms fuel) fun others => turns_pure _ fun _ gone => gone
          exact whole.of_eq fun fuel =>
            moreArms_labels (ctx.parsers fuel) state _ (reads.starts kind _)

end Arms

/-! ### Structured values -/

section Values

variable {labels arms : List ExprNode} {sound armSound : ExprNode → Bool} {place : Place}

/-- A right bracket that closes a structured value. -/
theorem ends_closeValue {after : TokenKind → Bool} (result : ExprNode) (text : Text)
    {state : ParserState} (rest : List Token) (limit : state.valueDepthLimitHit = false) :
    Ends (Lost after errors) (fun _ => closeValue >>= fun _ => (pure result : Parse ExprNode))
      (state.reading (⟨.RightBracket, text⟩ :: rest)) result (state.reading rest) true := by
  apply Ends.of_eq (Ends.pure result (state.reading rest))
  intro fuel
  rw [bind_apply, closeValue_reading limit]
  rfl

theorem turns_close {after : TokenKind → Bool} (result : ExprNode) :
    Turns (Lost (only .RightBracket) errors) (Lost after errors)
      (closeValue >>= fun _ => (pure result : Parse ExprNode)) :=
  .bind (turns_closeValue (by decide)) fun _ => (Mono.pure result _).weaken fun _ => .inl

/-- A structured value without a type and without arms, whatever stands behind it. -/
theorem read_emptyComponent (left right : Text) {state : ParserState} {rest : List Token} :
    Ends (Lost endsComponent errors) (fun fuel => Context.componentValue (ctx.parsers fuel))
      (state.reading (⟨.LeftBracket, left⟩ :: ⟨.RightBracket, right⟩ :: rest))
      (.structuredValue none []) (state.reading rest) true :=
  Ends.of_eq (Ends.pure (ExprNode.structuredValue none []) (state.reading rest)) fun _ => rfl

/-- A structured value without a type that begins with a completer. -/
theorem inner_completer (left right : Text) {arm : ExprNode} (completer : arm.isCompleter = true)
    (reads : ctx.ArmReads manner arm factors values good) :
    ctx.InnerReads (⟨.LeftBracket, left⟩ ::
        (manner.writeAll .Semicolon [arm] ++ [⟨.RightBracket, right⟩]))
      (.structuredValue none [arm]) factors values good := by
  intro state rest room ends
  have inside := (reads.completer completer state (⟨.RightBracket, right⟩ :: rest) room
    (by rfl)).returning fun arm => [arm]
  have arms : Ends (Lost (only .RightBracket) state.errors.length)
      (fun fuel => (ctx.parsers fuel).parseValueArms)
      (state.reading (manner.write 0 arm ++ ⟨.RightBracket, right⟩ :: rest)) [arm]
      (state.reading (⟨.RightBracket, right⟩ :: rest)) good :=
    .call (fun fuel => Context.parseValueArms (ctx.parsers fuel)) (fun _ => rfl)
      (inside.of_eq fun fuel =>
        parseValueArms_otherwise (ctx.parsers fuel) state (reads.otherwise completer _))
  have whole : Ends (Lost endsComponent state.errors.length)
      (fun fuel => (ctx.parsers fuel).parseValueArms >>= fun arms => closeValue >>= fun _ =>
        pure (ExprNode.structuredValue none arms))
      (state.reading (manner.write 0 arm ++ ⟨.RightBracket, right⟩ :: rest))
      (.structuredValue none [arm]) (state.reading rest) (good && true) :=
    arms.bind (ends_closeValue (ExprNode.structuredValue none [arm]) right rest room.valueLimit)
      fun arms _ => turns_close _
  rw [Bool.and_true] at whole
  rw [Manner.writeAll, Manner.writeMore, List.append_nil, List.cons_append, List.append_assoc,
    List.singleton_append]
  apply whole.of_eq
  intro fuel
  have head : (state.reading (manner.write 0 arm ++ ⟨.RightBracket, right⟩ :: rest)).current.kind =
      .Otherwise := reads.otherwise completer _
  have other : (state.reading (manner.write 0 arm ++
      ⟨.RightBracket, right⟩ :: rest)).current.kind ≠ .RightBracket := by
    rw [head]
    decide
  have word : (state.reading (manner.write 0 arm ++
        ⟨.RightBracket, right⟩ :: rest)).current.kind = .Case ∨
      (state.reading (manner.write 0 arm ++ ⟨.RightBracket, right⟩ :: rest)).current.kind =
        .Otherwise := .inr head
  rw [Context.componentValue, bind_apply, accept_reading]
  change Context.bracketedValue (ctx.parsers fuel) _ = _
  simp only [Context.bracketedValue, bind_apply, accept_of_ne other, Option.bind_some,
    Bool.false_eq_true, if_false, current_apply, if_pos word]

section Labelled

variable
  (each : ∀ label ∈ labels,
    ctx.LabelReads (manner.write 0 label) label factors values (sound label))
  (starts : ∀ label ∈ labels, ∀ rest,
    startsExpr (headKind (manner.write 0 label ++ rest)) = true)
  (ne : labels ≠ []) (reads : ctx.ComponentReads (manner.write 0 expr) expr factors values good)
  (present : ctx.hasAll manner place .arm arms = true)
  (others : ∀ arm ∈ arms, ctx.ArmReads manner arm factors values (armSound arm))

include each starts ne reads present others

/-- A structured value without a type that begins with labels. -/
theorem inner_labelled (left right : Text) :
    ctx.InnerReads (⟨.LeftBracket, left⟩ ::
        (manner.writeAll .Semicolon (.arm labels false expr :: arms) ++ [⟨.RightBracket, right⟩]))
      (.structuredValue none (.arm labels false expr :: arms)) factors values
      (labels.all sound && (good && arms.all armSound)) := by
  intro state rest room ends
  have begun := reads state (manner.writeMore .Semicolon arms ++ ⟨.RightBracket, right⟩ :: rest) room
    (headKind_writeMore manner (by decide) (fun kind => by cases kind <;> decide)
      (show only .RightBracket (headKind (⟨.RightBracket, right⟩ :: rest)) = true from rfl))
  have more : Ends (Lost (only .RightBracket) state.errors.length)
      (fun fuel => Context.moreValueArms (ctx.parsers fuel))
      (state.reading (manner.writeMore .Semicolon arms ++ ⟨.RightBracket, right⟩ :: rest)) arms
      (state.reading (⟨.RightBracket, right⟩ :: rest)) (arms.all armSound) :=
    more_read manner (by rintro kind beyond rfl; exact absurd beyond (by decide))
      (fun none => none ▸ List.all_nil) (fun ne => parseValueArms_read manner ne present others)
      state (⟨.RightBracket, right⟩ :: rest) room rfl
  have tail : Ends (Lost endsComponent state.errors.length)
      (fun fuel => Context.moreValueArms (ctx.parsers fuel) >>= fun arms => closeValue >>= fun _ =>
        pure (ExprNode.structuredValue none (.arm labels false expr :: arms)))
      (state.reading (manner.writeMore .Semicolon arms ++ ⟨.RightBracket, right⟩ :: rest))
      (.structuredValue none (.arm labels false expr :: arms)) (state.reading rest)
      (arms.all armSound && true) :=
    more.bind (ends_closeValue (ExprNode.structuredValue none (.arm labels false expr :: arms))
      right rest room.valueLimit) fun arms _ => turns_close _
  have behind : Ends (Lost endsComponent state.errors.length)
      (fun fuel => (ctx.parsers fuel).parseComponentValue >>= fun value =>
        Context.moreValueArms (ctx.parsers fuel) >>= fun arms => closeValue >>= fun _ =>
          pure (ExprNode.structuredValue none (.arm labels false value :: arms)))
      (state.reading (manner.write 0 expr ++
        (manner.writeMore .Semicolon arms ++ ⟨.RightBracket, right⟩ :: rest)))
      (.structuredValue none (.arm labels false expr :: arms)) (state.reading rest)
      (good && (arms.all armSound && true)) :=
    begun.bind tail fun value fuel => .bind (turns_moreValueArms fuel) fun arms => turns_close _
  rw [Bool.and_true] at behind
  rw [Manner.writeAll, write_labelledArm]
  simp only [List.cons_append, List.append_assoc, List.nil_append]
  apply labelsOfComponent_read manner each starts ne left room (by rfl)
  apply behind.of_eq
  intro fuel
  rw [Context.arrayOrSet, bind_apply, Manner.token, accept_reading]
  rfl

/-- A structured value with a type that begins with labels. -/
theorem base_labelled (extended : ctx.opts.extendedPascal = true)
    (named : ctx.hasName name = true) (left right : Text) :
    ctx.BaseReads (manner.name name ++ ⟨.LeftBracket, left⟩ ::
        (manner.writeAll .Semicolon (.arm labels false expr :: arms) ++ [⟨.RightBracket, right⟩]))
      (.structuredValue (some name) (.arm labels false expr :: arms)) (fun _ => true) factors values
      (labels.all sound && (good && arms.all armSound)) := by
  intro state rest last final fine room _ goes
  have begun := reads state (manner.writeMore .Semicolon arms ++ ⟨.RightBracket, right⟩ :: rest) room
    (headKind_writeMore manner (by decide) (fun kind => by cases kind <;> decide)
      (show only .RightBracket (headKind (⟨.RightBracket, right⟩ :: rest)) = true from rfl))
  have more := moreArms_read manner present others state (⟨.RightBracket, right⟩ :: rest) room rfl
  have closed : Ends (Lost follows state.errors.length)
      (fun fuel => closeValue >>= fun _ => (ctx.parsers fuel).parsePostfix
        (.structuredValue (some name) (.arm labels false expr :: arms)))
      (state.reading (⟨.RightBracket, right⟩ :: rest)) last final fine := by
    apply goes.of_eq
    intro fuel
    rw [bind_apply, closeValue_reading room.valueLimit]
    rfl
  have turns : ∀ (expr : ExprNode) (fuel : Nat), Turns (Lost (only .RightBracket) state.errors.length)
      (Lost follows state.errors.length)
      (closeValue >>= fun _ => (ctx.parsers fuel).parsePostfix expr) := fun expr fuel =>
    .bind (turns_closeValue (by decide)) fun _ =>
      ((ctx.mono_parsers fuel).parsePostfix expr _).weaken fun _ => .inl
  have tail : Ends (Lost follows state.errors.length)
      (fun fuel => (ctx.parsers fuel).moreArms >>= fun arms => closeValue >>= fun _ =>
        (ctx.parsers fuel).parsePostfix
          (.structuredValue (some name) (.arm labels false expr :: arms)))
      (state.reading (manner.writeMore .Semicolon arms ++ ⟨.RightBracket, right⟩ :: rest)) last final
      (arms.all armSound && fine) :=
    more.bind closed fun arms fuel => turns _ fuel
  have behind : Ends (Lost follows state.errors.length)
      (fun fuel => (ctx.parsers fuel).parseComponentValue >>= fun value =>
        (ctx.parsers fuel).moreArms >>= fun arms => closeValue >>= fun _ =>
          (ctx.parsers fuel).parsePostfix
            (.structuredValue (some name) (.arm labels false value :: arms)))
      (state.reading (manner.write 0 expr ++
        (manner.writeMore .Semicolon arms ++ ⟨.RightBracket, right⟩ :: rest)))
      last final (good && (arms.all armSound && fine)) :=
    begun.bind tail fun value fuel => .bind (turns_moreArms fuel) fun arms => turns _ fuel
  rw [Manner.writeAll, write_labelledArm, Bool.and_assoc, Bool.and_assoc]
  simp only [List.cons_append, List.append_assoc, List.nil_append]
  apply labelsBehindName_read manner each starts named extended ne left room (by rfl)
  apply behind.of_eq
  intro fuel
  rw [Context.constructorOrIndex, bind_apply, Manner.token, accept_reading]
  rfl

end Labelled

/-- A structured value with a type that has a completer only, the value of which is read as an
expression. -/
theorem base_completer (extended : ctx.opts.extendedPascal = true) (named : ctx.hasName name = true)
    (left right : Text) (reads : ctx.ExprReads (manner.write 0 expr) expr factors values good)
    (starts : ∀ rest, startsExpr (headKind (manner.write 0 expr ++ rest)) = true) :
    ctx.BaseReads (manner.name name ++ ⟨.LeftBracket, left⟩ ::
        (manner.writeAll .Semicolon [.arm [] true expr] ++ [⟨.RightBracket, right⟩]))
      (.structuredValue (some name) [.arm [] true expr]) (fun _ => true) factors values good := by
  intro state rest last final fine room _ goes
  have arm := otherwiseArm_read manner (manner.spell .Otherwise) reads starts (by decide) (by decide)
    (by decide) state (⟨.RightBracket, right⟩ :: rest) room rfl
  have closed : Ends (Lost follows state.errors.length)
      (fun fuel => expect .RightBracket >>= fun _ => (ctx.parsers fuel).parsePostfix
        (.structuredValue (some name) [.arm [] true expr]))
      (state.reading (⟨.RightBracket, right⟩ :: rest)) last final fine := by
    apply goes.of_eq
    intro fuel
    rw [bind_apply, expect_reading]
    rfl
  have whole : Ends (Lost follows state.errors.length)
      (fun fuel => Context.otherwiseArm (ctx.parsers fuel).parseExpression >>= fun arm =>
        expect .RightBracket >>= fun _ =>
          (ctx.parsers fuel).parsePostfix (.structuredValue (some name) [arm]))
      (state.reading (⟨.Otherwise, manner.spell .Otherwise⟩ :: manner.write 0 expr ++
        ⟨.RightBracket, right⟩ :: rest)) last final (good && fine) :=
    arm.bind closed fun arm fuel => turns_expect_bind (by decide) fun _ =>
      (ctx.mono_parsers fuel).parsePostfix _
  have body : Ends (Lost follows state.errors.length)
      (fun fuel => (ctx.parsers fuel).parseStructuredValueOrIndex name)
      (state.reading (⟨.LeftBracket, left⟩ :: (⟨.Otherwise, manner.spell .Otherwise⟩ ::
        manner.write 0 expr ++ ⟨.RightBracket, right⟩ :: rest))) last final (good && fine) :=
    .call (fun fuel => ctx.parseStructuredValueOrIndex (ctx.parsers fuel) name) (fun _ => rfl)
      (whole.of_eq fun fuel => rfl)
  rw [Manner.writeAll, Manner.writeMore, List.append_nil, write_completer, List.append_assoc,
    List.cons_append, List.append_assoc, List.singleton_append]
  exact body.of_eq fun fuel =>
    currentFactor_bracket manner (ctx.parsers fuel) state _ left named extended

/-! ### A structured value without a type where an expression is read -/

/-- No expression begins with the word of a completer. -/
theorem body_otherwise (text : Text) :
    ctx.BodyReads (⟨.Otherwise, text⟩ :: tokens) expr 0 0 false := by
  intro state rest room ends
  have read : Ends (Lost follows state.errors.length)
      (fun fuel => ctx.currentFactor (ctx.parsers fuel))
      (state.reading (⟨.Otherwise, text⟩ :: tokens ++ rest)) (.intLit {})
      { state.reading (tokens ++ rest) with
        errors := state.errors ++ [.err_expected_expr .Otherwise] } true :=
    Ends.of_eq (Ends.pure (ExprNode.intLit {}) _) fun fuel => rfl
  exact read.all_lost (.inl (by simp [Grown]))

/-- The word is reported, or the depth of the factor that it would begin. -/
theorem factor_otherwise (text : Text) :
    ctx.FactorReads (⟨.Otherwise, text⟩ :: tokens) expr 0 0 false := by
  intro state rest room ends
  by_cases below : state.exprDepth + 1 ≤ MaxExprDepth
  · exact (body_otherwise text).factor state rest
      ⟨below, room.values_le, room.exprLimit, room.valueLimit⟩ ends
  · have limit : MaxExprDepth ≤ state.exprDepth := by omega
    have fresh : (!state.exprDepthLimitHit) = true := by rw [room.exprLimit, Bool.not_false]
    apply Ends.call (fun fuel => ctx.parseFactor (ctx.parsers fuel)) fun _ => rfl
    have read : Ends (Lost follows state.errors.length)
        (fun fuel => ctx.parseFactor (ctx.parsers fuel))
        (state.reading (⟨.Otherwise, text⟩ :: tokens ++ rest)) (.intLit {})
        { state.reading (⟨.Otherwise, text⟩ :: tokens ++ rest) with
          errors := state.errors ++ [.err_expr_too_deeply_nested]
          exprDepthLimitHit := true } true := by
      apply Ends.of_eq (Ends.pure (ExprNode.intLit {}) _)
      intro fuel
      have reported : (reportIf (!state.exprDepthLimitHit) .err_expr_too_deeply_nested >>= fun _ =>
          modify (fun state => { state with exprDepthLimitHit := true }) >>= fun _ =>
            (pure (.intLit {}) : Parse ExprNode))
          (state.reading (⟨.Otherwise, text⟩ :: tokens ++ rest)) =
          some (.intLit {}, { state.reading (⟨.Otherwise, text⟩ :: tokens ++ rest) with
            errors := state.errors ++ [.err_expr_too_deeply_nested]
            exprDepthLimitHit := true }) := by
        rw [fresh]
        rfl
      exact (congrFun (if_pos limit) (state.reading (⟨.Otherwise, text⟩ :: tokens ++ rest))).trans
        reported
    exact read.all_lost (.inl (by simp [Grown]))

/-- A right bracket is expected behind elements, and a colon is reported. -/
theorem ends_colon {last : ExprNode} {final : ParserState} {state : ParserState}
    {rest : List Token} (text : Text) (elements : List ExprNode) :
    Ends (Lost follows state.errors.length)
      (fun _ => expect .RightBracket >>= fun _ => (pure (ExprNode.setLiteral none elements) : Parse _))
      (state.reading (⟨.Colon, text⟩ :: rest)) last final false := by
  have read : Ends (Lost follows state.errors.length)
      (fun _ => expect .RightBracket >>= fun _ => (pure (ExprNode.setLiteral none elements) : Parse _))
      (state.reading (⟨.Colon, text⟩ :: rest)) (.setLiteral none elements)
      { state.reading (⟨.Colon, text⟩ :: rest) with
        errors := state.errors ++ [.err_expected_token .RightBracket .Colon] } true :=
    Ends.of_eq (Ends.pure (ExprNode.setLiteral none elements) _) fun _ => rfl
  exact read.all_lost (.inl (by simp [Grown]))

/-- Where an expression is read a bracket begins a set, in which there is no completer. -/
theorem body_untypedCompleter (left right : Text) {found : ExprNode} :
    ctx.BodyReads (⟨.LeftBracket, left⟩ ::
      (manner.writeAll .Semicolon [.arm labels true expr] ++ [⟨.RightBracket, right⟩])) found 0 0
      false := by
  intro state rest room ends
  have listed : ∀ label ∈ [ExprNode.arm labels true expr],
      ctx.LabelReads (manner.write 0 label) label 0 0 false := by
    intro label member
    rw [List.mem_singleton.mp member, write_completer]
    exact ((factor_otherwise (manner.spell .Otherwise)).power.term.simple
      (fun _ => ⟨TokenKind.noConfusion, TokenKind.noConfusion⟩)).expression.label
  have begun := labels_read manner (List.cons_ne_nil _ _) listed state
    (⟨.RightBracket, right⟩ :: rest) room rfl
  have whole : Ends (Lost follows state.errors.length)
      (fun fuel => (ctx.parsers fuel).parseValueLabels >>= fun elements =>
        expect .RightBracket >>= fun _ => pure (ExprNode.setLiteral none elements))
      (state.reading (manner.writeAll .Comma [.arm labels true expr] ++
        ⟨.RightBracket, right⟩ :: rest))
      (.setLiteral none [.arm labels true expr]) (state.reading rest) (false && true) :=
    begun.bind (ends_rightBracket (ExprNode.setLiteral none _) right state rest)
      fun elements fuel => turns_expect_bind (by decide) fun _ => .pure _
  rw [List.cons_append, List.append_assoc, List.singleton_append]
  apply whole.elsewhere.of_eq
  intro fuel
  rw [Manner.writeAll, Manner.writeAll, Manner.writeMore, Manner.writeMore]
  apply currentFactor_labels (ctx.parsers fuel) state left
  rw [List.append_nil, write_completer]
  exact TokenKind.noConfusion

/-- Where an expression is read a bracket begins a set, in which there is no colon. -/
theorem body_untypedLabelled (left right : Text)
    (each : ∀ label ∈ labels,
      ctx.LabelReads (manner.write 0 label) label factors values (sound label))
    (starts : ∀ label ∈ labels, ∀ rest,
      startsExpr (headKind (manner.write 0 label ++ rest)) = true)
    (ne : labels ≠ []) {value : ExprNode} :
    ctx.BodyReads (⟨.LeftBracket, left⟩ ::
      (manner.writeAll .Semicolon (.arm labels false value :: arms) ++ [⟨.RightBracket, right⟩]))
      expr factors values false := by
  intro state rest room ends
  rw [Manner.writeAll, write_labelledArm]
  simp only [List.cons_append, List.append_assoc, List.nil_append]
  have begun := labels_read manner ne each state (manner.token .Colon :: (manner.write 0 value ++
    (manner.writeMore .Semicolon arms ++ ⟨.RightBracket, right⟩ :: rest))) room rfl
  have whole : Ends (Lost follows state.errors.length)
      (fun fuel => (ctx.parsers fuel).parseValueLabels >>= fun elements =>
        expect .RightBracket >>= fun _ => pure (ExprNode.setLiteral none elements))
      (state.reading (manner.writeAll .Comma labels ++ (manner.token .Colon ::
        (manner.write 0 value ++
          (manner.writeMore .Semicolon arms ++ ⟨.RightBracket, right⟩ :: rest)))))
      expr (state.reading rest) (labels.all sound && false) :=
    begun.bind (ends_colon (manner.spell .Colon) labels)
      fun elements fuel => turns_expect_bind (by decide) fun _ => .pure _
  rw [Bool.and_false] at whole
  apply whole.of_eq
  intro fuel
  apply currentFactor_labels (ctx.parsers fuel) state left
  intro wrong
  have begins := headKind_labels manner (manner.token .Colon :: (manner.write 0 value ++
    (manner.writeMore .Semicolon arms ++ ⟨.RightBracket, right⟩ :: rest))) starts ne
  rw [wrong] at begins
  exact absurd begins (by decide)

end Values

end Plang.Expressions
