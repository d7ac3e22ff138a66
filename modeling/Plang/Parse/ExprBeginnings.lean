import Plang.Parse.ExprWriting

/-!
# What written expressions begin with

What is written of an expression begins with what is written of its leftmost operand, down to one
that begins with a token of its own.  The parser tells by that token what it reads.
-/

namespace Plang.Expressions

/-- The tokens that begin a factor. -/
def startsFactor : TokenKind → Bool
  | .IntLit | .RealLit | .StringLit | .Nil | .True | .False | .Not | .At | .LeftParen
  | .LeftBracket | .Inherited | .Identifier => true
  | kind => isTypeKeyword kind

def startsExpr (kind : TokenKind) : Bool := isSign kind || startsFactor kind

/-- A component of a structured value is over. -/
def endsComponent (kind : TokenKind) : Bool := kind == .Semicolon || kind == .RightBracket

/-- The expression that another one is selected from, with the operator behind it. -/
def ExprNode.selection? : ExprNode → Option (ExprNode × TokenKind)
  | .index array _ => some (array, .LeftBracket)
  | .field record _ => some (record, .Dot)
  | .deref pointer => some (pointer, .Caret)
  | .substring str _ _ => some (str, .LeftBracket)
  | .methodCall receiver _ _ => some (receiver, .Dot)
  | .indirectCall callee _ => some (callee, .LeftParen)
  | _ => none

theorem headKind_append {tokens : List Token} (rest : List Token) (ne : tokens ≠ []) :
    headKind (tokens ++ rest) = headKind tokens := by
  cases tokens with
  | nil => exact absurd rfl ne
  | cons token tokens => rfl

/-! ### The leftmost operand -/

section Leftmost

variable (manner : Manner) {ctx : Context} {expr base : ExprNode} {kind : TokenKind}

theorem write_selection (selected : expr.selection? = some (base, kind)) :
    ∃ tail, ∀ level, manner.write level expr = manner.write 4 base ++ manner.token kind :: tail := by
  cases expr with
  | index array index | deref pointer | substring str low high | indirectCall callee args
  | field record field | methodCall receiver method args =>
      obtain ⟨rfl, rfl⟩ := Prod.mk.inj (Option.some.inj selected)
      exact ⟨_, fun level => (Manner.write.eq_def manner level _).trans rfl⟩
  | _ => cases selected

theorem factorDepth_selection (selected : expr.selection? = some (base, kind)) (level : Nat) :
    manner.factorDepth 4 base ≤ manner.factorDepth level expr := by
  cases expr with
  | field record field | deref pointer =>
      obtain ⟨rfl, rfl⟩ := Prod.mk.inj (Option.some.inj selected)
      rw [Manner.factorDepth]
  | index array index | substring str low high | indirectCall callee args
  | methodCall receiver method args =>
      obtain ⟨rfl, rfl⟩ := Prod.mk.inj (Option.some.inj selected)
      rw [Manner.factorDepth]
      omega
  | _ => cases selected

theorem valueDepth_selection (selected : expr.selection? = some (base, kind)) :
    base.valueDepth ≤ expr.valueDepth := by
  cases expr with
  | field record field | deref pointer =>
      obtain ⟨rfl, rfl⟩ := Prod.mk.inj (Option.some.inj selected)
      rw [ExprNode.valueDepth]
  | index array index | substring str low high | indirectCall callee args
  | methodCall receiver method args =>
      obtain ⟨rfl, rfl⟩ := Prod.mk.inj (Option.some.inj selected)
      rw [ExprNode.valueDepth]
      omega
  | _ => cases selected

theorem sizeOf_selection (selected : expr.selection? = some (base, kind)) :
    sizeOf base < sizeOf expr := by
  cases expr with
  | index array index | deref pointer | substring str low high | indirectCall callee args
  | field record field | methodCall receiver method args =>
      obtain ⟨rfl, rfl⟩ := Prod.mk.inj (Option.some.inj selected)
      simp +arith
  | _ => cases selected

theorem has_selection {place : Place} (selected : expr.selection? = some (base, kind))
    (present : ctx.has manner place expr = true) :
    ctx.selects manner kind base = true ∧ ctx.has manner .expression base = true := by
  cases expr with
  | index array index | deref pointer | substring str low high | indirectCall callee args
  | field record field | methodCall receiver method args =>
      obtain ⟨rfl, rfl⟩ := Prod.mk.inj (Option.some.inj selected)
      simp only [Context.has, Bool.decide_and, Bool.and_eq_true, decide_eq_true_eq] at present
      tauto
  | _ => cases selected

/-- What holds of what begins with a token of its own holds of each expression that begins with
something it holds of. -/
theorem leftmost_induction {motive : Nat → ExprNode → Prop}
    (own : ∀ level expr, expr.selection? = none →
      (∀ op left right, expr = .binary op left right → precedence op < level) → motive level expr)
    (operand : ∀ level op left right, ¬ precedence op < level →
      motive (Manner.leftLevel op) left → motive level (.binary op left right))
    (selection : ∀ level expr base kind, expr.selection? = some (base, kind) → motive 4 base →
      motive level expr) (level : Nat) (expr : ExprNode) : motive level expr := by
  induction size : sizeOf expr using Nat.strong_induction_on generalizing expr level with
  | _ n induction =>
      subst size
      cases selected : expr.selection? with
      | some found =>
          obtain ⟨base, kind⟩ := found
          exact selection level expr base kind selected
            (induction _ (sizeOf_selection selected) 4 base rfl)
      | none =>
          by_cases open_ : ∃ op left right, expr = .binary op left right ∧ ¬ precedence op < level
          · obtain ⟨op, left, right, rfl, wide⟩ := open_
            exact operand level op left right wide
              (induction _ (by simp +arith) (Manner.leftLevel op) left rfl)
          · refine own level expr selected fun op left right same => ?_
            by_contra wide
            exact open_ ⟨op, left, right, same, wide⟩

end Leftmost

/-! ### First tokens -/

section First

variable (manner : Manner) {ctx : Context} {expr : ExprNode} {place : Place} {op : TokenKind}

theorem startsFactor_of_isTypeKeyword {kind : TokenKind} (reserved : isTypeKeyword kind = true) :
    startsFactor kind = true := by
  revert reserved
  cases kind <;> decide

theorem manner_name_cons (name : Name) : ∃ token tokens, manner.name name = token :: tokens ∧
    (token.kind = .Identifier ∨ isTypeKeyword token.kind = true) := by
  rw [Manner.name]
  cases name.module? with
  | some module => exact ⟨_, _, rfl, .inl rfl⟩
  | none =>
      refine ⟨_, [], rfl, ?_⟩
      rw [Manner.word]
      by_cases reserved : isTypeKeyword (keywordKind name.word) = true
      · rw [if_pos reserved]
        exact .inr reserved
      · rw [if_neg reserved]
        exact .inl rfl

theorem startsFactor_name (name : Name) (rest : List Token) :
    startsFactor (headKind (manner.name name ++ rest)) = true := by
  obtain ⟨token, tokens, name_eq, identifier | reserved⟩ := manner_name_cons manner name
  · rw [name_eq]
    exact congrArg startsFactor identifier
  · rw [name_eq]
    exact startsFactor_of_isTypeKeyword reserved

theorem headKind_name_ne (name : Name) (rest : List Token) :
    headKind (manner.name name ++ rest) ≠ .LeftBracket := by
  obtain ⟨token, tokens, name_eq, identifier | reserved⟩ := manner_name_cons manner name
  · rw [name_eq]
    exact fun bracket => TokenKind.noConfusion (identifier.symm.trans bracket)
  · rw [name_eq]
    rintro bracket
    rw [show token.kind = .LeftBracket from bracket] at reserved
    cases reserved

theorem startsExpr_of_startsFactor {kind : TokenKind} (starts : startsFactor kind = true) :
    startsExpr kind = true := by
  rw [startsExpr, starts, Bool.or_true]

theorem startsFactor_of_hasUnary (present : ctx.hasUnary op = true) (unsigned : ¬ isSign op = true) :
    startsFactor op = true := by
  rw [Context.hasUnary, decide_eq_true_eq] at present
  rcases present with sign | rfl | ⟨rfl, -⟩
  · exact absurd sign unsigned
  · rfl
  · rfl

theorem write_binary (level : Nat) (op : TokenKind) (left right : ExprNode)
    (wide : ¬ precedence op < level) :
    manner.write level (.binary op left right) =
      manner.write (Manner.leftLevel op) left ++
        (manner.operator op ++ manner.write (manner.rightLevel op) right) := by
  rw [Manner.write, Manner.wrap, if_neg (by simpa using wide)]

theorem level_le_leftLevel {level : Nat} (wide : ¬ precedence op < level) :
    level ≤ Manner.leftLevel op := by
  rw [precedence] at wide
  rw [Manner.leftLevel]
  split at wide
  · simp_all
  · split at wide
    · simp_all
    · split at wide <;> simp_all
      omega

/-- What an expression begins with; a sign only where no operator binds it. -/
theorem starts_write (level : Nat) (expr : ExprNode) : ∀ place rest, place ∉ [Place.element, .arm, .firstArm] →
    ctx.has manner place expr = true →
    startsExpr (headKind (manner.write level expr ++ rest)) = true ∧
      (2 ≤ level → startsFactor (headKind (manner.write level expr ++ rest)) = true) := by
  induction level, expr using leftmost_induction with
  | own level expr single narrow =>
      intro place rest whole present
      suffices starts : startsFactor (headKind (manner.write level expr ++ rest)) = true ∨
          level ≤ 1 ∧ isSign (headKind (manner.write level expr ++ rest)) = true by
        rcases starts with starts | ⟨low, sign⟩
        · exact ⟨startsExpr_of_startsFactor starts, fun _ => starts⟩
        · exact ⟨by rw [startsExpr, sign, Bool.true_or], fun high => by omega⟩
      cases expr with
      | index _ _ | field _ _ | deref _ | substring _ _ _ | methodCall _ _ _ | indirectCall _ _ =>
          cases single
      | binary op left right =>
          rw [Manner.write, Manner.wrap, if_pos (by simpa using narrow op left right rfl)]
          exact .inl rfl
      | unary op operand =>
          rw [Manner.write]
          by_cases sign : isSign op = true
          · rw [if_pos sign, Manner.wrap]
            split
            · exact .inl rfl
            · exact .inr ⟨by simp_all, sign⟩
          · rw [if_neg sign]
            simp only [Context.has, Bool.decide_and, Bool.and_eq_true, decide_eq_true_eq] at present
            exact .inl (startsFactor_of_hasUnary present.2.1 sign)
      | setRange low high =>
          simp only [Context.has, Bool.decide_and, Bool.and_eq_true, decide_eq_true_eq] at present
          exact absurd present.1 (by rintro rfl; simp at whole)
      | arm labels isOtherwise value =>
          simp only [Context.has, Bool.decide_and, Bool.and_eq_true, decide_eq_true_eq] at present
          exact absurd present.1 (by simp at whole; simp [whole])
      | ident name =>
          rw [Manner.write]
          exact .inl (startsFactor_name manner name rest)
      | call name args =>
          rw [Manner.write, List.append_assoc]
          exact .inl (startsFactor_name manner name _)
      | typeCast typeName operand =>
          rw [Manner.write, List.append_assoc]
          exact .inl (startsFactor_name manner typeName _)
      | setLiteral typeName elements =>
          rw [Manner.write, List.append_assoc]
          cases typeName with
          | none => exact .inl rfl
          | some name => exact .inl (startsFactor_name manner name _)
      | structuredValue typeName arms =>
          rw [Manner.write, List.append_assoc]
          cases typeName with
          | none => exact .inl rfl
          | some name => exact .inl (startsFactor_name manner name _)
      | inheritedCall method args =>
          cases method <;> rw [Manner.write] <;> exact .inl rfl
      | boolLit value =>
          rw [Manner.write]
          cases value <;> exact .inl rfl
      | intLit _ | realLit _ | stringLit _ | nil =>
          rw [Manner.write]
          exact .inl rfl
  | operand level op left right wide induction =>
      intro place rest whole present
      simp only [Context.has, Bool.decide_and, Bool.and_eq_true, decide_eq_true_eq] at present
      rw [write_binary manner level op left right wide, List.append_assoc]
      have starts := induction .expression
        (manner.operator op ++ manner.write (manner.rightLevel op) right ++ rest) (by decide)
        present.2.2.1
      exact ⟨starts.1, fun high => starts.2 (Nat.le_trans high (level_le_leftLevel wide))⟩
  | selection level expr base kind selected induction =>
      intro place rest whole present
      obtain ⟨tail, written⟩ := write_selection manner selected
      have starts := induction .expression (manner.token kind :: tail ++ rest) (by decide)
        (has_selection manner selected present).2
      rw [written, List.append_assoc]
      exact ⟨starts.1, fun _ => starts.2 (by decide)⟩

/-- What the dialect has at another place it has as an expression, but for what only that place may
have. -/
theorem has_expression (whole : place ∉ [Place.arm, .firstArm])
    (single : ∀ low high, expr ≠ .setRange low high) (typed : expr.isUntypedValue = false)
    (named : place = .sizeArgument → expr.isIdent = false)
    (present : ctx.has manner place expr = true) : ctx.has manner .expression expr = true := by
  cases expr with
  | setRange low high => exact absurd rfl (single low high)
  | arm labels isOtherwise value =>
      simp only [Context.has, Bool.decide_and, Bool.and_eq_true, decide_eq_true_eq] at present
      exact absurd present.1 whole
  | ident name =>
      simp only [Context.has, Bool.decide_and, Bool.and_eq_true, Bool.decide_or, Bool.or_eq_true,
        decide_eq_true_eq] at present ⊢
      exact ⟨by decide, .inl (present.2.resolve_right fun reserved =>
        Bool.noConfusion (named reserved.1))⟩
  | structuredValue typeName arms =>
      cases typeName with
      | none => cases typed
      | some typeName =>
          simp only [Context.has, Bool.decide_and, Bool.and_eq_true, decide_eq_true_eq] at present ⊢
          exact ⟨by decide, present.2⟩
  | setLiteral typeName elements =>
      cases typeName with
      | none =>
          simp only [Context.has, Bool.decide_and, Bool.and_eq_true, decide_eq_true_eq] at present ⊢
          exact ⟨by decide, fun wrong => absurd wrong (by decide), present.2.2⟩
      | some typeName =>
          simp only [Context.has, Bool.decide_and, Bool.and_eq_true, decide_eq_true_eq] at present ⊢
          exact ⟨by decide, present.2⟩
  | stringLit _ | nil | boolLit _ => rw [Context.has]; decide
  | _ =>
      simp only [Context.has, Bool.decide_and, Bool.and_eq_true, decide_eq_true_eq] at present ⊢
      exact ⟨by decide, present.2⟩

theorem not_range_of_has (other : place ≠ .element) (present : ctx.has manner place expr = true) :
    ∀ low high, expr ≠ .setRange low high := by
  rintro low high rfl
  simp only [Context.has, Bool.decide_and, Bool.and_eq_true, decide_eq_true_eq] at present
  exact other present.1

theorem typed_of_has (other : place ∉ [Place.component, .onlyComponent])
    (present : ctx.has manner place expr = true) : expr.isUntypedValue = false := by
  cases expr with
  | structuredValue typeName arms =>
      cases typeName with
      | none =>
          simp only [Context.has, Bool.decide_and, Bool.decide_or, Bool.and_eq_true,
            Bool.or_eq_true, decide_eq_true_eq] at present
          simp only [List.mem_cons, List.not_mem_nil, or_false] at other
          tauto
      | some typeName => rfl
  | _ => rfl

/-- A range begins as its first value does. -/
theorem starts_element (expr : ExprNode) (rest : List Token)
    (present : ctx.has manner .element expr = true) :
    startsExpr (headKind (manner.write 0 expr ++ rest)) = true := by
  by_cases range : ∃ low high, expr = .setRange low high
  · obtain ⟨low, high, rfl⟩ := range
    simp only [Context.has, Bool.decide_and, Bool.and_eq_true, decide_eq_true_eq] at present
    rw [Manner.write, List.append_assoc]
    exact (starts_write manner 0 low .expression _ (by decide) present.2.1).1
  · have typed := typed_of_has manner (by decide) present
    have single : ∀ low high, expr ≠ .setRange low high := fun low high same =>
      range ⟨low, high, same⟩
    exact (starts_write manner 0 expr .expression rest (by decide)
      (has_expression manner (by decide) single typed Place.noConfusion present)).1

theorem headKind_name {name : Name} (present : ctx.hasName name = true) (rest : List Token) :
    headKind (manner.name name ++ rest) = .Identifier := by
  rw [Context.hasName] at present
  rw [Manner.name]
  cases module_eq : name.module? with
  | some module => rfl
  | none =>
      rw [module_eq] at present
      have plain : ¬ isTypeKeyword (keywordKind name.word) = true := by simpa using present
      dsimp only
      rw [Manner.word, if_neg plain]
      rfl

/-- A sign, `not` and `@` are written in front of their operand. -/
theorem headKind_unary {level : Nat} {operand : ExprNode} (present : ctx.hasUnary op = true)
    (rest : List Token) :
    isTypeKeyword (headKind (manner.write level (.unary op operand) ++ rest)) = false ∧
      headKind (manner.write level (.unary op operand) ++ rest) ≠ .LeftBracket := by
  have plain : isTypeKeyword op = false ∧ op ≠ .LeftBracket := by
    rw [Context.hasUnary, decide_eq_true_eq] at present
    rcases present with sign | rfl | ⟨rfl, -⟩
    · rw [isSign, decide_eq_true_eq] at sign
      rcases sign with rfl | rfl <;> decide
    · decide
    · decide
  rw [Manner.write]
  split
  · rw [Manner.wrap]
    split
    · exact ⟨rfl, TokenKind.noConfusion⟩
    · exact plain
  · exact plain

/-- Behind a reserved type that begins an expression stands the parenthesis of a conversion. -/
theorem paren_behind_keyword (level : Nat) (expr : ExprNode) : ∀ rest,
    ctx.has manner .expression expr = true →
    isTypeKeyword (headKind (manner.write level expr ++ rest)) = true →
    ∃ token tail, manner.write level expr = token :: manner.token .LeftParen :: tail := by
  induction level, expr using leftmost_induction with
  | own level expr single narrow =>
      intro rest present reserved
      cases expr with
      | index _ _ | field _ _ | deref _ | substring _ _ _ | methodCall _ _ _ | indirectCall _ _ =>
          cases single
      | typeCast typeName operand =>
          simp only [Context.has, Bool.decide_and, Bool.decide_or, Bool.and_eq_true,
            Bool.or_eq_true, decide_eq_true_eq] at present
          rw [Manner.write, List.append_assoc] at reserved
          rcases present.2.2.1 with word | ⟨word, -⟩
          · rw [Context.isReservedType, decide_eq_true_eq] at word
            rw [Manner.write, Manner.name, word.1]
            exact ⟨_, _, rfl⟩
          · rw [headKind_name manner word] at reserved
            cases reserved
      | unary op operand =>
          simp only [Context.has, Bool.decide_and, Bool.and_eq_true, decide_eq_true_eq] at present
          rw [(headKind_unary manner present.2.1 rest).1] at reserved
          cases reserved
      | setRange low high =>
          simp only [Context.has, Bool.decide_and, Bool.and_eq_true, decide_eq_true_eq] at present
          cases present.1
      | arm labels isOtherwise value =>
          simp only [Context.has, Bool.decide_and, Bool.and_eq_true, decide_eq_true_eq] at present
          exact absurd present.1 (by decide)
      | ident name =>
          simp only [Context.has, Bool.decide_and, Bool.decide_or, Bool.and_eq_true,
            Bool.or_eq_true, decide_eq_true_eq] at present
          rw [Manner.write, headKind_name manner (present.2.resolve_right (by simp))] at reserved
          cases reserved
      | binary op left right =>
          rw [Manner.write, Manner.wrap, if_pos (by simpa using narrow op left right rfl)] at reserved
          cases reserved
      | call name args =>
          simp only [Context.has, Bool.decide_and, Bool.and_eq_true, decide_eq_true_eq] at present
          rw [Manner.write, List.append_assoc, headKind_name manner present.2.1] at reserved
          cases reserved
      | setLiteral typeName elements =>
          rw [Manner.write, List.append_assoc] at reserved
          cases typeName with
          | none => cases reserved
          | some name =>
              simp only [Context.has, Bool.decide_and, Bool.and_eq_true, decide_eq_true_eq] at present
              have identifier := headKind_name manner present.2.2.1
              rw [show (some name).map manner.name = some (manner.name name) from rfl,
                Option.getD_some, identifier] at reserved
              cases reserved
      | structuredValue typeName arms =>
          rw [Manner.write, List.append_assoc] at reserved
          cases typeName with
          | none => cases reserved
          | some name =>
              simp only [Context.has, Bool.decide_and, Bool.and_eq_true, decide_eq_true_eq] at present
              have identifier := headKind_name manner present.2.2.1
              rw [show (some name).map manner.name = some (manner.name name) from rfl,
                Option.getD_some, identifier] at reserved
              cases reserved
      | boolLit value => rw [Manner.write] at reserved; cases value <;> cases reserved
      | inheritedCall method args =>
          cases method <;> rw [Manner.write] at reserved <;> cases reserved
      | _ => rw [Manner.write] at reserved; cases reserved
  | operand level op left right wide induction =>
      intro rest present reserved
      simp only [Context.has, Bool.decide_and, Bool.and_eq_true, decide_eq_true_eq] at present
      rw [write_binary manner level op left right wide, List.append_assoc] at reserved
      obtain ⟨token, tail, left_eq⟩ := induction _ present.2.2.1 reserved
      rw [write_binary manner level op left right wide, left_eq]
      exact ⟨token, _, rfl⟩
  | selection level expr base kind selected induction =>
      intro rest present reserved
      obtain ⟨tail, written⟩ := write_selection manner selected
      rw [written, List.append_assoc] at reserved
      obtain ⟨token, more, base_eq⟩ := induction _ (has_selection manner selected present).2 reserved
      rw [written, base_eq]
      exact ⟨token, _, rfl⟩

/-! ### Sets in front of operators -/

/-- An operator is no end of a component. -/
theorem operator_cons (present : ctx.hasBinary op = true) :
    ∃ token more, manner.operator op = token :: more ∧ endsComponent token.kind = false := by
  rw [Manner.operator]
  split
  · exact ⟨_, _, rfl, rfl⟩
  · split
    · exact ⟨_, _, rfl, rfl⟩
    · refine ⟨_, _, rfl, ?_⟩
      revert present
      cases op <;> simp [Context.hasBinary, isRelop, Manner.token, endsComponent]

/-- What is written begins with a set, and where that is not all of it, goes on with something that
does not belong to a component that begins with a bracket. -/
structure LeadingSet (ctx : Context) (manner : Manner) (level : Nat) (expr : ExprNode)
    (elements : List ExprNode) (tail : List Token) : Prop where
  written : manner.write level expr =
    manner.brackets .LeftBracket .RightBracket (manner.writeAll .Comma elements) ++ tail
  present : ctx.hasAll manner .element .element elements = true
  smaller : sizeOf elements < sizeOf expr
  factors_le : manner.factorDepths elements + 1 ≤ manner.factorDepth level expr
  values_le : valueDepths elements ≤ expr.valueDepth
  beyond : expr = .setLiteral none elements ∧ tail = [] ∨
    ∃ token more, tail = token :: more ∧ endsComponent token.kind = false

theorem leading_set (level : Nat) (expr : ExprNode) : ∀ rest,
    ctx.has manner .expression expr = true →
    headKind (manner.write level expr ++ rest) = .LeftBracket →
    ∃ elements tail, LeadingSet ctx manner level expr elements tail := by
  induction level, expr using leftmost_induction with
  | own level expr single narrow =>
      intro rest present bracket
      cases expr with
      | index _ _ | field _ _ | deref _ | substring _ _ _ | methodCall _ _ _ | indirectCall _ _ =>
          cases single
      | setLiteral typeName elements =>
          cases typeName with
          | none =>
              simp only [Context.has, Bool.decide_and, Bool.and_eq_true, decide_eq_true_eq] at present
              refine ⟨elements, [], ?_, present.2.2, ?_, ?_, ?_, .inl ⟨rfl, rfl⟩⟩
              · rw [Manner.write, List.append_nil]
                rfl
              · simp +arith
              · rw [Manner.factorDepth]
              · rw [ExprNode.valueDepth]
          | some name =>
              rw [Manner.write, List.append_assoc] at bracket
              exact absurd bracket (headKind_name_ne manner name _)
      | structuredValue typeName arms =>
          cases typeName with
          | none => simp [Context.has] at present
          | some name =>
              rw [Manner.write, List.append_assoc] at bracket
              exact absurd bracket (headKind_name_ne manner name _)
      | typeCast typeName operand =>
          rw [Manner.write, List.append_assoc] at bracket
          exact absurd bracket (headKind_name_ne manner typeName _)
      | unary op operand =>
          simp only [Context.has, Bool.decide_and, Bool.and_eq_true, decide_eq_true_eq] at present
          exact absurd bracket (headKind_unary manner present.2.1 rest).2
      | binary op left right =>
          rw [Manner.write, Manner.wrap, if_pos (by simpa using narrow op left right rfl)] at bracket
          cases bracket
      | setRange low high =>
          simp only [Context.has, Bool.decide_and, Bool.and_eq_true, decide_eq_true_eq] at present
          cases present.1
      | arm labels isOtherwise value =>
          simp only [Context.has, Bool.decide_and, Bool.and_eq_true, decide_eq_true_eq] at present
          exact absurd present.1 (by decide)
      | ident name =>
          rw [Manner.write] at bracket
          exact absurd bracket (headKind_name_ne manner name rest)
      | call name args =>
          rw [Manner.write, List.append_assoc] at bracket
          exact absurd bracket (headKind_name_ne manner name _)
      | boolLit value => rw [Manner.write] at bracket; cases value <;> cases bracket
      | inheritedCall method args =>
          cases method <;> rw [Manner.write] at bracket <;> cases bracket
      | _ => rw [Manner.write] at bracket; cases bracket
  | operand level op left right wide induction =>
      intro rest present bracket
      simp only [Context.has, Bool.decide_and, Bool.and_eq_true, decide_eq_true_eq] at present
      rw [write_binary manner level op left right wide, List.append_assoc] at bracket
      obtain ⟨elements, tail, leads⟩ := induction _ present.2.2.1 bracket
      refine ⟨elements, tail ++ (manner.operator op ++ manner.write (manner.rightLevel op) right),
        ?_, leads.present, ?_, ?_, ?_, .inr ?_⟩
      · rw [write_binary manner level op left right wide, leads.written, List.append_assoc]
      · have smaller := leads.smaller
        simp
        omega
      · have le := leads.factors_le
        rw [Manner.factorDepth]
        omega
      · have le := leads.values_le
        rw [ExprNode.valueDepth]
        omega
      · rcases leads.beyond with ⟨-, rfl⟩ | ⟨token, more, rfl, beyond⟩
        · obtain ⟨token, more, op_eq, beyond⟩ := operator_cons manner present.2.1
          rw [op_eq]
          exact ⟨token, _, rfl, beyond⟩
        · exact ⟨token, _, rfl, beyond⟩
  | selection level expr base kind selected induction =>
      intro rest present bracket
      obtain ⟨tail, written⟩ := write_selection manner selected
      obtain ⟨selects, inside⟩ := has_selection manner selected present
      rw [written, List.append_assoc] at bracket
      obtain ⟨elements, more, leads⟩ := induction _ inside bracket
      refine ⟨elements, more ++ manner.token kind :: tail, ?_, leads.present, ?_, ?_, ?_, .inr ?_⟩
      · rw [written, leads.written, List.append_assoc]
      · exact Nat.lt_trans leads.smaller (sizeOf_selection selected)
      · exact Nat.le_trans leads.factors_le (factorDepth_selection manner selected level)
      · exact Nat.le_trans leads.values_le (valueDepth_selection selected)
      · rcases leads.beyond with ⟨rfl, -⟩ | ⟨token, more, rfl, beyond⟩
        · cases selects
        · exact ⟨token, _, rfl, beyond⟩

end First

end Plang.Expressions
