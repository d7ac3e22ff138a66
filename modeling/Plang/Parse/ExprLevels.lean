import Plang.Parse.ExprValues

/-!
# Expressions at every level

What is read at the level of its own operator is read at every other level as it is written there:
as it is where its place binds less tightly, and in parentheses elsewhere.
-/

namespace Plang.Expressions

open Fuel

variable {ctx : Context} (manner : Manner) {expr : ExprNode} {op : TokenKind} {good : Bool}

/-! ### Parentheses -/

/-- What binds tightly enough is written as it is. -/
theorem write_of_le {level other : Nat} (le : level ≤ expr.level) (other_le : other ≤ expr.level) :
    manner.write level expr = manner.write other expr ∧
      manner.factorDepth level expr = manner.factorDepth other expr := by
  cases expr with
  | binary op left right =>
      have wide : ¬ precedence op < level := Nat.not_lt.mpr le
      have other_wide : ¬ precedence op < other := Nat.not_lt.mpr other_le
      rw [write_binary manner level op left right wide,
        write_binary manner other op left right other_wide, Manner.factorDepth, Manner.factorDepth,
        if_neg wide, if_neg other_wide]
      exact ⟨rfl, rfl⟩
  | unary op operand =>
      rw [Manner.write, Manner.write, Manner.factorDepth, Manner.factorDepth]
      by_cases sign : isSign op = true
      · have one : level ≤ 1 ∧ other ≤ 1 := by
          rw [ExprNode.level, if_pos sign] at le other_le
          exact ⟨le, other_le⟩
        simp only [sign, if_true, Manner.wrap, decide_eq_true_eq, if_neg (Nat.not_lt.mpr one.1),
          if_neg (Nat.not_lt.mpr one.2), and_self]
      · simp only [sign, Bool.false_eq_true, if_false, and_self]
  | structuredValue typeName arms =>
      cases typeName <;> rw [Manner.write, Manner.write] <;> exact ⟨rfl, rfl⟩
  | inheritedCall method args =>
      cases method <;> rw [Manner.write, Manner.write, Manner.factorDepth, Manner.factorDepth] <;>
        exact ⟨rfl, rfl⟩
  | _ =>
      rw [Manner.write, Manner.write, Manner.factorDepth, Manner.factorDepth]
      exact ⟨rfl, rfl⟩

/-- What does not is put in parentheses. -/
theorem write_of_lt {level : Nat} (lt : expr.level < level) (le : level ≤ 4) :
    manner.write level expr = manner.parens (manner.write 0 expr) ∧
      manner.factorDepth level expr = manner.factorDepth 0 expr + 1 := by
  cases expr with
  | binary op left right =>
      have narrow : precedence op < level := lt
      rw [write_binary manner 0 op left right (Nat.not_lt_zero _), Manner.write, Manner.wrap,
        if_pos (by simpa using narrow), Manner.factorDepth, Manner.factorDepth, if_pos narrow,
        if_neg (Nat.not_lt_zero _)]
      exact ⟨rfl, rfl⟩
  | unary op operand =>
      rw [Manner.write, Manner.write, Manner.factorDepth, Manner.factorDepth]
      by_cases sign : isSign op = true
      · have high : 1 < level := by
          rw [ExprNode.level, if_pos sign] at lt
          exact lt
        simp [sign, Manner.wrap, high]
      · rw [ExprNode.level, if_neg sign] at lt
        omega
  | _ =>
      rw [ExprNode.level] at lt
      · omega
      all_goals simp

/-- One level binds as the next one does, but for the expressions of that level. -/
theorem write_succ {level : Nat} (ne : expr.level ≠ level) (le : level + 1 ≤ 4) :
    manner.write level expr = manner.write (level + 1) expr ∧
      manner.factorDepth level expr = manner.factorDepth (level + 1) expr := by
  rcases Nat.lt_or_gt_of_ne ne with lt | gt
  · obtain ⟨written, depth⟩ := write_of_lt manner lt (by omega)
    obtain ⟨next, deep⟩ := write_of_lt manner (Nat.lt_succ_of_lt lt) le
    exact ⟨written.trans next.symm, depth.trans deep.symm⟩
  · exact write_of_le manner (Nat.le_of_lt gt) gt

/-- An expression is read back at a level. -/
structure Context.ReadBack (ctx : Context) (manner : Manner) (expr : ExprNode) (good : Bool) :
    Prop where
  factor : ctx.FactorReads (manner.write 4 expr) expr (manner.factorDepth 4 expr) expr.valueDepth good
  power : ctx.PowerReads (manner.write 3 expr) expr (manner.factorDepth 3 expr) expr.valueDepth good
  term : ctx.TermReads (manner.write 2 expr) expr (manner.factorDepth 2 expr) expr.valueDepth good
  simple : ctx.SimpleReads (manner.write 1 expr) expr (manner.factorDepth 1 expr) expr.valueDepth
    good
  expression : ctx.ExprReads (manner.write 0 expr) expr (manner.factorDepth 0 expr) expr.valueDepth
    good

namespace Context.ReadBack

section Lifts

/-- Where an operator binds it, an expression does not begin with a sign. -/
theorem unsigned (present : ctx.has manner .expression expr = true) (rest : List Token) :
    headKind (manner.write 2 expr ++ rest) ≠ .Plus ∧
      headKind (manner.write 2 expr ++ rest) ≠ .Minus := by
  have starts := (starts_write manner 2 expr .expression rest (by decide) present).2 (by decide)
  constructor <;>
  · intro wrong
    rw [wrong] at starts
    exact absurd starts (by decide)

theorem factor_of_expression (lt : expr.level < 4)
    (reads : ctx.ExprReads (manner.write 0 expr) expr (manner.factorDepth 0 expr) expr.valueDepth
      good) :
    ctx.FactorReads (manner.write 4 expr) expr (manner.factorDepth 4 expr) expr.valueDepth good := by
  obtain ⟨written, depth⟩ := write_of_lt manner lt (by decide)
  rw [written, depth]
  exact (reads.parens (manner.spell .LeftParen) (manner.spell .RightParen)).factor

theorem power_of_factor (ne : expr.level ≠ 3)
    (reads : ctx.FactorReads (manner.write 4 expr) expr (manner.factorDepth 4 expr) expr.valueDepth
      good) :
    ctx.PowerReads (manner.write 3 expr) expr (manner.factorDepth 3 expr) expr.valueDepth good := by
  rw [(write_succ manner ne (by decide)).1, (write_succ manner ne (by decide)).2]
  exact reads.power

theorem term_of_power (ne : expr.level ≠ 2)
    (reads : ctx.PowerReads (manner.write 3 expr) expr (manner.factorDepth 3 expr) expr.valueDepth
      good) :
    ctx.TermReads (manner.write 2 expr) expr (manner.factorDepth 2 expr) expr.valueDepth good := by
  rw [(write_succ manner ne (by decide)).1, (write_succ manner ne (by decide)).2]
  exact reads.term

theorem simple_of_term (ne : expr.level ≠ 1) (present : ctx.has manner .expression expr = true)
    (reads : ctx.TermReads (manner.write 2 expr) expr (manner.factorDepth 2 expr) expr.valueDepth
      good) :
    ctx.SimpleReads (manner.write 1 expr) expr (manner.factorDepth 1 expr) expr.valueDepth
      good := by
  rw [(write_succ manner ne (by decide)).1, (write_succ manner ne (by decide)).2]
  exact reads.simple (unsigned manner present)

theorem expression_of_simple (ne : expr.level ≠ 0)
    (reads : ctx.SimpleReads (manner.write 1 expr) expr (manner.factorDepth 1 expr) expr.valueDepth
      good) :
    ctx.ExprReads (manner.write 0 expr) expr (manner.factorDepth 0 expr) expr.valueDepth good := by
  rw [(write_succ manner ne (by decide)).1, (write_succ manner ne (by decide)).2]
  exact reads.expression

end Lifts

variable (present : ctx.has manner .expression expr = true)

include present

theorem of_factor (level : expr.level = 4)
    (factor : ctx.FactorReads (manner.write 4 expr) expr (manner.factorDepth 4 expr) expr.valueDepth
      good) : ctx.ReadBack manner expr good :=
  have power := power_of_factor manner (by omega) factor
  have term := term_of_power manner (by omega) power
  have simple := simple_of_term manner (by omega) present term
  ⟨factor, power, term, simple, expression_of_simple manner (by omega) simple⟩

theorem of_power (level : expr.level = 3)
    (power : ctx.PowerReads (manner.write 3 expr) expr (manner.factorDepth 3 expr) expr.valueDepth
      good) : ctx.ReadBack manner expr good :=
  have term := term_of_power manner (by omega) power
  have simple := simple_of_term manner (by omega) present term
  have expression := expression_of_simple manner (by omega) simple
  ⟨factor_of_expression manner (by omega) expression, power, term, simple, expression⟩

theorem of_term (level : expr.level = 2)
    (term : ctx.TermReads (manner.write 2 expr) expr (manner.factorDepth 2 expr) expr.valueDepth
      good) : ctx.ReadBack manner expr good :=
  have simple := simple_of_term manner (by omega) present term
  have expression := expression_of_simple manner (by omega) simple
  have factor := factor_of_expression manner (by omega) expression
  ⟨factor, power_of_factor manner (by omega) factor, term, simple, expression⟩

omit present in
theorem of_simple (level : expr.level = 1)
    (simple : ctx.SimpleReads (manner.write 1 expr) expr (manner.factorDepth 1 expr) expr.valueDepth
      good) : ctx.ReadBack manner expr good :=
  have expression := expression_of_simple manner (by omega) simple
  have factor := factor_of_expression manner (by omega) expression
  have power := power_of_factor manner (by omega) factor
  ⟨factor, power, term_of_power manner (by omega) power, simple, expression⟩

theorem of_expression (level : expr.level = 0)
    (expression : ctx.ExprReads (manner.write 0 expr) expr (manner.factorDepth 0 expr)
      expr.valueDepth good) : ctx.ReadBack manner expr good :=
  have factor := factor_of_expression manner (by omega) expression
  have power := power_of_factor manner (by omega) factor
  have term := term_of_power manner (by omega) power
  ⟨factor, power, term, simple_of_term manner (by omega) present term, expression⟩

end Context.ReadBack

/-! ### Operators -/

section Operators

variable {left right : ExprNode} {fine : Bool}

/-- The second word of an operator in two words is looked for behind the first. -/
theorem secondWord_of_ne (kind first second both : TokenKind) {state : ParserState}
    (other : state.current.kind ≠ second) :
    ctx.secondWord kind first second both state = some (kind, state) := by
  have apart : ¬(kind = first ∧ state.current.kind = second ∧ ctx.opts.extendedPascal = true) :=
    fun wrong => other wrong.2.1
  simp only [Context.secondWord, bind_apply, current_apply, Option.bind_some, if_neg apart,
    pure_apply]

theorem secondWord_reading (first second both : TokenKind) (state : ParserState) (text : Text)
    (tokens : List Token) (extended : ctx.opts.extendedPascal = true) :
    ctx.secondWord first first second both (state.reading (⟨second, text⟩ :: tokens)) =
      some (both, state.reading tokens) := by
  simp only [Context.secondWord, bind_apply, current_apply, Option.bind_some, current_reading_cons,
    extended, and_self, if_true, advance_reading, pure_apply]

/-- The loop over the operators of addition takes one of them, in one word or in two. -/
theorem moreTerms_operator (self : Parsers) (state : ParserState) (expr : ExprNode)
    {tokens : List Token} (addop : isAddop op = true) (present : ctx.hasBinary op = true)
    (starts : startsExpr (headKind tokens) = true) :
    ctx.moreTerms self expr (state.reading (manner.operator op ++ tokens)) =
      (self.parseTerm >>= fun right => self.moreTerms (.binary op expr right))
        (state.reading tokens) := by
  have other : (state.reading tokens).current.kind ≠ .Else := by
    rw [kind_current_reading]
    intro wrong
    rw [wrong] at starts
    exact absurd starts (by decide)
  by_cases two : manner.twoWords = true ∧ op = .OrElse
  · obtain ⟨words, rfl⟩ := two
    have extended : ctx.opts.extendedPascal = true := present
    have written : manner.operator .OrElse = [manner.token .Or, manner.token .Else] := by
      rw [Manner.operator, if_neg (fun wrong => TokenKind.noConfusion wrong.2), if_pos ⟨words, rfl⟩]
    rw [written]
    have addop : isAddop .Or = true := rfl
    have reported : (TokenKind.Or == .SymDiff && !ctx.opts.extendedPascal) = false := rfl
    simp only [List.cons_append, List.nil_append, Context.moreTerms, bind_apply, current_apply,
      Option.bind_some, current_reading_cons, Manner.token, addop, if_true, reported, reportIf,
      Bool.false_eq_true, if_false, pure_apply, advance_reading,
      secondWord_reading .Or .Else .OrElse state _ tokens extended]
  · have written : manner.operator op = [manner.token op] := by
      rw [Manner.operator, if_neg, if_neg two]
      rintro ⟨-, rfl⟩
      cases addop
    have reported : (op == .SymDiff && !ctx.opts.extendedPascal) = false := by
      by_cases symDiff : op = .SymDiff
      · subst symDiff
        have extended : ctx.opts.extendedPascal = true := present
        rw [extended]
        rfl
      · rw [beq_eq_false_iff_ne.mpr symDiff, Bool.false_and]
    rw [written, List.singleton_append]
    simp only [Context.moreTerms, bind_apply, current_apply, Option.bind_some, current_reading_cons,
      Manner.token, addop, if_true, reported, reportIf, Bool.false_eq_true, if_false, pure_apply,
      advance_reading, secondWord_of_ne op _ _ _ other]

/-- The loop over the operators of multiplication does the same. -/
theorem moreFactors_operator (self : Parsers) (state : ParserState) (expr : ExprNode)
    {tokens : List Token} (mulop : isMulop op = true) (present : ctx.hasBinary op = true)
    (starts : startsExpr (headKind tokens) = true) :
    ctx.moreFactors self expr (state.reading (manner.operator op ++ tokens)) =
      (self.parsePower >>= fun right => self.moreFactors (.binary op expr right))
        (state.reading tokens) := by
  have other : (state.reading tokens).current.kind ≠ .Then := by
    rw [kind_current_reading]
    intro wrong
    rw [wrong] at starts
    exact absurd starts (by decide)
  by_cases two : manner.twoWords = true ∧ op = .AndThen
  · obtain ⟨words, rfl⟩ := two
    have extended : ctx.opts.extendedPascal = true := present
    have written : manner.operator .AndThen = [manner.token .And, manner.token .Then] := by
      rw [Manner.operator, if_pos ⟨words, rfl⟩]
    rw [written]
    have mulop : isMulop .And = true := rfl
    simp only [List.cons_append, List.nil_append, Context.moreFactors, bind_apply, current_apply,
      Option.bind_some, current_reading_cons, Manner.token, mulop, if_true, advance_reading,
      secondWord_reading .And .Then .AndThen state _ tokens extended]
  · have written : manner.operator op = [manner.token op] := by
      rw [Manner.operator, if_neg two, if_neg]
      rintro ⟨-, rfl⟩
      cases mulop
    rw [written, List.singleton_append]
    simp only [Context.moreFactors, bind_apply, current_apply, Option.bind_some, current_reading_cons,
      Manner.token, mulop, if_true, advance_reading, secondWord_of_ne op _ _ _ other]

/-- The first word of an operator. -/
theorem headKind_operator (op : TokenKind) (rest : List Token) :
    headKind (manner.operator op ++ rest) = op ∨
      op = .AndThen ∧ headKind (manner.operator op ++ rest) = .And ∨
        op = .OrElse ∧ headKind (manner.operator op ++ rest) = .Or := by
  rw [Manner.operator]
  split
  · rename_i two
    exact .inr (.inl ⟨two.2, rfl⟩)
  · split
    · rename_i two
      exact .inr (.inr ⟨two.2, rfl⟩)
    · exact .inl rfl

/-- An operator in one word. -/
theorem operator_single (addop : isAddop op = false) (mulop : isMulop op = false) :
    manner.operator op = [manner.token op] := by
  rw [Manner.operator, if_neg, if_neg]
  · rintro ⟨-, rfl⟩
    cases addop
  · rintro ⟨-, rfl⟩
    cases mulop

theorem cases_of_hasBinary (present : ctx.hasBinary op = true) :
    isRelop op = true ∨ isAddop op = true ∨ isMulop op = true ∨
      isExpop op = true ∧ ctx.opts.extendedPascal = true := by
  revert present
  cases op <;> simp [Context.hasBinary, isRelop, isAddop, isMulop, isExpop]

/-- The depth of a binary expression is that of its operands. -/
theorem factorDepth_binary (left right : ExprNode) (level : Nat) (wide : ¬ precedence op < level) :
    manner.factorDepth level (.binary op left right) =
      max (manner.factorDepth (Manner.leftLevel op) left)
        (manner.factorDepth (manner.rightLevel op) right) := by
  rw [Manner.factorDepth, if_neg wide, Nat.add_zero]

/-- A binary expression is read from its operands. -/
theorem readBack_binary (whole : ctx.has manner .expression (.binary op left right) = true)
    (first : ctx.ReadBack manner left good) (second : ctx.ReadBack manner right fine) :
    ctx.ReadBack manner (.binary op left right) (good && fine) := by
  have parts := whole
  simp only [Context.has, Bool.decide_and, Bool.and_eq_true, decide_eq_true_eq] at parts
  obtain ⟨-, present, -, right_present⟩ := parts
  have starts : ∀ level rest, startsExpr (headKind (manner.write level right ++ rest)) = true :=
    fun level rest => (starts_write manner level right .expression rest (by decide)
      right_present).1
  have written := write_binary manner (precedence op) op left right (Nat.lt_irrefl _)
  have depth := factorDepth_binary manner left right (precedence op) (Nat.lt_irrefl _)
  have values : (ExprNode.binary op left right).valueDepth =
    max left.valueDepth right.valueDepth := by rw [ExprNode.valueDepth]
  rcases cases_of_hasBinary present with relop | addop | mulop | ⟨expop, extended⟩
  · have level : precedence op = 0 := by rw [precedence, if_pos relop]
    have left_level : Manner.leftLevel op = 1 := by rw [Manner.leftLevel, if_pos relop]
    have right_level : manner.rightLevel op = 1 := by rw [Manner.rightLevel, if_pos relop]
    have single : manner.operator op = [manner.token op] := by
      apply operator_single <;>
      · revert relop
        cases op <;> decide
    apply Context.ReadBack.of_expression manner whole level
    rw [level, left_level, right_level] at written depth
    rw [written, depth, values, single, List.singleton_append]
    exact Context.SimpleReads.relation
      (first.simple.deepen (Nat.le_max_left _ _) (Nat.le_max_left _ _))
      (second.simple.deepen (Nat.le_max_right _ _) (Nat.le_max_right _ _)) _ relop
  · have plain : isRelop op = false := by
      revert addop
      cases op <;> decide
    have level : precedence op = 1 := by
      rw [precedence, plain, if_neg (by decide), if_pos addop]
    have left_level : Manner.leftLevel op = 1 := by
      rw [Manner.leftLevel, plain, if_neg (by decide), if_pos addop]
    have right_level : manner.rightLevel op = 2 := by
      rw [Manner.rightLevel, plain, if_neg (by decide), if_pos addop]
    apply Context.ReadBack.of_simple manner
      (show (ExprNode.binary op left right).level = 1 from level)
    rw [level, left_level, right_level] at written depth
    rw [written, depth, values]
    apply Context.SimpleReads.add
      (first.simple.deepen (Nat.le_max_left _ _) (Nat.le_max_left _ _))
      (second.term.deepen (Nat.le_max_right _ _) (Nat.le_max_right _ _))
    · intro rest
      rcases headKind_operator manner op rest with head | ⟨rfl, -⟩ | ⟨-, head⟩
      · rw [head]
        revert addop
        cases op <;> decide
      · cases addop
      · rw [head]
        decide
    · intro fuel state rest
      exact moreTerms_operator manner (ctx.parsers fuel) state left addop present (starts 2 rest)
  · have plain : isRelop op = false ∧ isAddop op = false := by
      revert mulop
      cases op <;> decide
    have level : precedence op = 2 := by
      rw [precedence, plain.1, plain.2, if_neg (by decide), if_neg (by decide), if_pos mulop]
    have left_level : Manner.leftLevel op = 2 := by
      rw [Manner.leftLevel, plain.1, plain.2, if_neg (by decide), if_neg (by decide), if_pos mulop]
    have right_level : manner.rightLevel op = 3 := by
      rw [Manner.rightLevel, plain.1, plain.2, if_neg (by decide), if_neg (by decide), if_pos mulop]
    apply Context.ReadBack.of_term manner whole level
    rw [level, left_level, right_level] at written depth
    rw [written, depth, values]
    apply Context.TermReads.multiply
      (first.term.deepen (Nat.le_max_left _ _) (Nat.le_max_left _ _))
      (second.power.deepen (Nat.le_max_right _ _) (Nat.le_max_right _ _))
    · intro rest
      rcases headKind_operator manner op rest with head | ⟨-, head⟩ | ⟨rfl, -⟩
      · rw [head]
        revert mulop
        cases op <;> decide
      · rw [head]
        decide
      · cases mulop
    · intro fuel state rest
      exact moreFactors_operator manner (ctx.parsers fuel) state left mulop present (starts 3 rest)
  · have plain : isRelop op = false ∧ isAddop op = false ∧ isMulop op = false := by
      revert expop
      cases op <;> decide
    obtain ⟨relop, addop, mulop⟩ := plain
    have level : precedence op = 3 := by
      rw [precedence, relop, addop, mulop, if_neg (by decide), if_neg (by decide),
        if_neg (by decide)]
    have left_level : Manner.leftLevel op = 4 := by
      rw [Manner.leftLevel, relop, addop, mulop, if_neg (by decide), if_neg (by decide),
        if_neg (by decide)]
    have operand : ctx.PowerReads (manner.write (manner.rightLevel op) right) right
        (manner.factorDepth (manner.rightLevel op) right) right.valueDepth fine := by
      rw [Manner.rightLevel, relop, addop, mulop, if_neg (by decide), if_neg (by decide),
        if_neg (by decide)]
      split
      · exact second.power
      · exact second.factor.power
    apply Context.ReadBack.of_power manner whole level
    rw [level, left_level] at written depth
    rw [written, depth, values, operator_single manner addop mulop, List.singleton_append]
    exact Context.FactorReads.raise
      (first.factor.deepen (Nat.le_max_left _ _) (Nat.le_max_left _ _))
      (operand.deepen (Nat.le_max_right _ _) (Nat.le_max_right _ _)) _ expop extended

/-- A sign, `not` and `@` are read with their operand. -/
theorem readBack_unary {operand : ExprNode}
    (whole : ctx.has manner .expression (.unary op operand) = true)
    (reads : ctx.ReadBack manner operand good) : ctx.ReadBack manner (.unary op operand) good := by
  have parts := whole
  simp only [Context.has, Context.hasUnary, Bool.decide_and, Bool.decide_or, Bool.and_eq_true,
    Bool.or_eq_true, decide_eq_true_eq] at parts
  obtain ⟨-, present, -⟩ := parts
  have values : (ExprNode.unary op operand).valueDepth = operand.valueDepth := by
    rw [ExprNode.valueDepth]
  by_cases sign : isSign op = true
  · have level : (ExprNode.unary op operand).level = 1 := by rw [ExprNode.level, if_pos sign]
    apply Context.ReadBack.of_simple manner level
    rw [Manner.write, Manner.factorDepth, values, if_pos sign, if_pos sign, Manner.wrap,
      if_neg (by decide), if_neg (by decide), Nat.add_zero]
    exact reads.term.sign _ (of_decide_eq_true sign)
  · have level : (ExprNode.unary op operand).level = 4 := by rw [ExprNode.level, if_neg sign]
    have listed : op = .Not ∨ op = .At := by tauto
    apply Context.ReadBack.of_factor manner whole level
    rw [Manner.write, Manner.factorDepth, values, if_neg sign, if_neg sign]
    exact (reads.factor.prefixed _ listed).factor

end Operators

end Plang.Expressions
