import Plang.Parse.StmtReading

/-!
# What a statement begins with

A statement that begins with a variable reads a path of selections first.  What stands behind the
path tells whether it is assigned to or called.
-/

namespace Plang.Statements

open Expressions Fuel

variable {ctx : Context} {manner : StmtManner} {state after : StmtState}
  {tokens rest : List Expressions.Token} {kind : TokenKind} {text : Text} {expr : ExprNode}
  {stmt : StmtNode}

/-! ### Paths -/

/-- The tokens behind the innermost variable of a path. -/
def selections (manner : StmtManner) : ExprNode → List Expressions.Token
  | .index array index =>
      selections manner array ++ manner.brackets .LeftBracket .RightBracket (manner.write 0 index)
  | .field record field =>
      selections manner record ++ [manner.token .Dot, ⟨.Identifier, field⟩]
  | .deref pointer => selections manner pointer ++ [manner.token .Caret]
  | .substring str low high =>
      selections manner str ++ manner.brackets .LeftBracket .RightBracket
        (manner.write 0 low ++ manner.token .DotDot :: manner.write 0 high)
  | .methodCall receiver method args =>
      selections manner receiver ++ manner.token .Dot :: ⟨.Identifier, method⟩ ::
        manner.parens (manner.writeAll .Comma args)
  | .indirectCall callee args =>
      selections manner callee ++ manner.parens (manner.writeAll .Comma args)
  | _ => []

theorem write_path (expr : ExprNode) :
    manner.write 4 expr = manner.write 4 (root expr) ++ selections manner expr := by
  fun_induction root expr with
  | case1 array index induction =>
      rw [Manner.write, induction, selections, List.append_assoc]
  | case2 record field induction =>
      rw [Manner.write, induction, selections, List.append_assoc]
  | case3 pointer induction =>
      rw [Manner.write, induction, selections, List.append_assoc]
  | case4 str low high induction =>
      rw [Manner.write, induction, selections, List.append_assoc]
  | case5 receiver method args induction =>
      rw [Manner.write, induction, selections, List.append_assoc]
  | case6 callee args induction =>
      rw [Manner.write, induction, selections, List.append_assoc]
  | case7 expr index field deref substring methodCall indirectCall =>
      rw [selections, List.append_nil] <;> assumption

/-- A parenthesis behind a field makes it a method. -/
def beyond (expr : ExprNode) (kind : TokenKind) : Bool :=
  match expr with
  | .field _ _ => kind ≠ .LeftParen
  | _ => true

theorem beyond_of_goesBehind (behind : goesBehind ctx kind expr = true) :
    beyond expr kind = true := by
  cases expr with
  | field record field => exact behind
  | _ => rfl

section Selections

variable {base selected : ExprNode} {before : TokenKind → Bool} {first second : List Expressions.Token}

theorem selection_trans {middle : ExprNode}
    (one : ctx.Selection base first middle (beyond middle) MaxExprDepth MaxValueDepth true)
    (other : ctx.Selection middle second selected before MaxExprDepth MaxValueDepth true)
    (taken : ∀ rest, beyond middle (headKind (second ++ rest)) = true) :
    ctx.Selection base (first ++ second) selected before MaxExprDepth MaxValueDepth true := by
  intro state rest last final fine room follow goes
  have more := other state rest last final fine room follow goes
  rw [List.append_assoc]
  exact one state (second ++ rest) last final (true && fine) room (taken rest) more

theorem each_of_hasExpr {args : List ExprNode} (present : args.all (hasExpr ctx manner 0) = true) :
    ∀ arg ∈ args, ctx.ExprReads (manner.write 0 arg) arg MaxExprDepth MaxValueDepth
      ((fun _ => true) arg) :=
  fun arg listed => exprReads_of_hasExpr (List.all_eq_true.mp present arg listed)

theorem starts_of_all {args : List ExprNode} (present : args.all (hasExpr ctx manner 0) = true) :
    ∀ arg ∈ args, ∀ rest, startsExpr (headKind (manner.write 0 arg ++ rest)) = true :=
  fun arg listed rest => starts_of_hasExpr (List.all_eq_true.mp present arg listed) 0 rest

theorem selection_nil : ctx.Selection expr [] expr (beyond expr) MaxExprDepth MaxValueDepth true :=
  fun _ _ _ _ _ _ _ goes => by rw [Bool.true_and]; exact goes

/-- The loop behind the innermost variable of a path reads the selections. -/
theorem path_selection (present : hasLvalue ctx manner expr = true) :
    ctx.Selection (root expr) (selections manner expr) expr (beyond expr) MaxExprDepth MaxValueDepth
      true := by
  fun_induction root expr with
  | case1 array index induction =>
      rw [hasLvalue, Bool.and_eq_true, Bool.and_eq_true] at present
      obtain ⟨⟨behind, array_present⟩, index_present⟩ := present
      refine selection_trans (induction array_present) (selection_of_subscripts _ _ ?_)
        fun _ => beyond_of_goesBehind behind
      exact fun state rest room => (exprReads_of_hasExpr index_present).subscript array _ room
  | case2 record field induction =>
      rw [hasLvalue, Bool.and_eq_true] at present
      obtain ⟨behind, record_present⟩ := present
      refine selection_trans (induction record_present) ?_ fun _ => beyond_of_goesBehind behind
      intro state rest last final fine room follow goes
      exact selection_field field _ state rest last final fine
        (room.weaken (Nat.zero_le _) (Nat.zero_le _)) follow goes
  | case3 pointer induction =>
      rw [hasLvalue, Bool.and_eq_true] at present
      obtain ⟨behind, pointer_present⟩ := present
      refine selection_trans (induction pointer_present) ?_ fun _ => beyond_of_goesBehind behind
      intro state rest last final fine room follow goes
      exact selection_deref _ state rest last final fine
        (room.weaken (Nat.zero_le _) (Nat.zero_le _)) follow goes
  | case4 str low high induction =>
      simp only [hasLvalue, Bool.and_eq_true] at present
      obtain ⟨⟨⟨behind, str_present⟩, low_present⟩, high_present⟩ := present
      refine selection_trans (induction str_present) (selection_of_subscripts _ _ ?_)
        fun _ => beyond_of_goesBehind behind
      intro state rest room
      rw [List.append_assoc, List.cons_append]
      exact (exprReads_of_hasExpr low_present).slice (exprReads_of_hasExpr high_present) str _ _ room
  | case5 receiver method args induction =>
      simp only [hasLvalue, Bool.and_eq_true] at present
      obtain ⟨⟨behind, receiver_present⟩, args_present⟩ := present
      have called : ctx.Selection receiver _ _ _ _ _ _ := selection_methodCall manner.toManner
        (each_of_hasExpr args_present) (starts_of_all args_present) method
      rw [List.all_eq_true.mpr fun _ _ => rfl] at called
      exact selection_trans (induction receiver_present) called fun _ => beyond_of_goesBehind behind
  | case6 callee args induction =>
      simp only [hasLvalue, Bool.and_eq_true] at present
      obtain ⟨⟨behind, callee_present⟩, args_present⟩ := present
      have other : callee.isIdent = false := by
        cases callee with
        | ident name => simp [goesBehind] at behind
        | _ => rfl
      have called := selection_indirectCall manner.toManner
        (each_of_hasExpr args_present) (starts_of_all args_present) other
      rw [List.all_eq_true.mpr fun _ _ => rfl] at called
      exact selection_trans (induction callee_present) called fun _ => beyond_of_goesBehind behind
  | case7 expr index field deref substring methodCall indirectCall =>
      have none : selections manner expr = [] := by rw [selections] <;> assumption
      rw [none]
      exact selection_nil

end Selections

theorem path_comes (present : hasLvalue ctx manner expr = true) (idle : state.Idle)
    (further : beyond expr (headKind rest) = true) (ends : follows (headKind rest) = true) :
    Comes (fun fuel => lift ((stmtParsers ctx fuel).exprs.parsePostfix (root expr)))
      (state.reading (selections manner expr ++ rest)) expr (state.reading rest) := by
  simp only [exprs_stmtParsers]
  apply lift_comes
  exact (path_selection present state.toParserState rest expr (state.toParserState.reading rest) true
    (idle.room (Nat.le_refl _) (Nat.le_refl _)) further (postfix_ends expr ends)).comes

theorem hasLvalue_root (present : hasLvalue ctx manner expr = true) :
    hasLvalue ctx manner (root expr) = true := by
  fun_induction root expr with
  | case1 array index induction =>
      rw [hasLvalue, Bool.and_eq_true, Bool.and_eq_true] at present
      exact induction present.1.2
  | case2 record field induction =>
      rw [hasLvalue, Bool.and_eq_true] at present
      exact induction present.2
  | case3 pointer induction =>
      rw [hasLvalue, Bool.and_eq_true] at present
      exact induction present.2
  | case4 str low high induction =>
      simp only [hasLvalue, Bool.and_eq_true] at present
      exact induction present.1.1.2
  | case5 receiver method args induction =>
      rw [hasLvalue, Bool.and_eq_true, Bool.and_eq_true] at present
      exact induction present.1.2
  | case6 callee args induction =>
      rw [hasLvalue, Bool.and_eq_true, Bool.and_eq_true] at present
      exact induction present.1.2
  | case7 expr => exact present

/-- The kinds of the operators of selections. -/
def isSelection (kind : TokenKind) : Bool :=
  kind == .LeftBracket || kind == .Dot || kind == .Caret || kind == .LeftParen

/-- Behind the innermost variable of a path there is the operator of its first selection. -/
theorem behind_root (present : hasLvalue ctx manner expr = true) :
    selections manner expr = [] ∧ root expr = expr ∨
      ∀ rest, isSelection (headKind (selections manner expr ++ rest)) = true ∧
        goesBehind ctx (headKind (selections manner expr ++ rest)) (root expr) = true := by
  have extend {base : ExprNode} {selection : List Expressions.Token}
      (known : selections manner base = [] ∧ root base = base ∨
        ∀ rest, isSelection (headKind (selections manner base ++ rest)) = true ∧
          goesBehind ctx (headKind (selections manner base ++ rest)) (root base) = true)
      (operator : isSelection (headKind selection) = true) (ne : selection ≠ [])
      (behind : goesBehind ctx (headKind selection) base = true) (rest : List Expressions.Token) :
      isSelection (headKind (selections manner base ++ selection ++ rest)) = true ∧
        goesBehind ctx (headKind (selections manner base ++ selection ++ rest)) (root base) =
          true := by
    rcases known with ⟨none, same⟩ | known
    · obtain ⟨token, selection, rfl⟩ := List.exists_cons_of_ne_nil ne
      rw [none, same]
      exact ⟨operator, behind⟩
    · rw [List.append_assoc]
      exact known _
  fun_induction root expr with
  | case1 array index induction =>
      rw [hasLvalue, Bool.and_eq_true, Bool.and_eq_true] at present
      exact .inr (extend (induction present.1.2) rfl (List.cons_ne_nil _ _) present.1.1)
  | case2 record field induction =>
      rw [hasLvalue, Bool.and_eq_true] at present
      exact .inr (extend (induction present.2) rfl (List.cons_ne_nil _ _) present.1)
  | case3 pointer induction =>
      rw [hasLvalue, Bool.and_eq_true] at present
      exact .inr (extend (induction present.2) rfl (List.cons_ne_nil _ _) present.1)
  | case4 str low high induction =>
      simp only [hasLvalue, Bool.and_eq_true] at present
      exact .inr (extend (induction present.1.1.2) rfl (List.cons_ne_nil _ _) present.1.1.1)
  | case5 receiver method args induction =>
      rw [hasLvalue, Bool.and_eq_true, Bool.and_eq_true] at present
      exact .inr (extend (induction present.1.2) rfl (List.cons_ne_nil _ _) present.1.1)
  | case6 callee args induction =>
      rw [hasLvalue, Bool.and_eq_true, Bool.and_eq_true] at present
      exact .inr (extend (induction present.1.2) rfl (List.cons_ne_nil _ _) present.1.1)
  | case7 expr index field deref substring methodCall indirectCall =>
      have none : selections manner expr = [] := by rw [selections] <;> assumption
      exact .inl ⟨none, rfl⟩

/-! ### What stands behind a name -/

/-- No parenthesis makes the word a conversion, and no point makes it the name of a module. -/
structure Plain (ctx : Context) (name : Name) (kind : TokenKind) : Prop where
  parenthesis : kind = .LeftParen → ctx.opts.turbo = true → name.module? = none →
    ctx.namesAType name = false
  point : kind = .Dot → name.module? = none → ctx.qualifiedModules (toLower name.word) = false

theorem qualifiedName_plain {word : Text}
    (plain : headKind tokens = .Dot → ctx.qualifiedModules (toLower word) = false) :
    Comes (fun _ => lift (ctx.qualifiedName word)) (state.reading tokens) ⟨none, word⟩
      (state.reading tokens) := by
  apply lift_comes
  refine (Comes.pure _ (state.toParserState.reading tokens)).of_eq ?_
  intro fuel
  have unqualified : ¬((state.toParserState.reading tokens).current.kind = .Dot ∧
      ctx.qualifiedModules (toLower word) = true) := by
    rintro ⟨point, module⟩
    rw [plain point] at module
    cases module
  simp only [Context.qualifiedName, bind_apply, current_apply, Option.bind_some, if_neg unqualified]

theorem qualifiedName_module {module word point : Text}
    (qualified : ctx.qualifiedModules (toLower module) = true) :
    Comes (fun _ => lift (ctx.qualifiedName module))
      (state.reading (⟨.Dot, point⟩ :: ⟨.Identifier, word⟩ :: tokens)) ⟨some module, word⟩
      (state.reading tokens) := by
  apply lift_comes
  refine (Comes.pure _ (state.toParserState.reading tokens)).of_eq ?_
  intro fuel
  simp only [Context.qualifiedName, bind_apply, current_apply, Option.bind_some,
    current_reading_cons, qualified, and_self, if_true, advance_reading, expect_reading]

/-- Every word is read as a name, also one that is reserved for a type. -/
theorem word_comes {word : Text} (plain : Plain ctx ⟨none, word⟩ (headKind tokens))
    (more : Comes (fun fuel =>
      lift ((stmtParsers ctx fuel).exprs.parsePostfix (.ident ⟨none, word⟩)) >>= fun lval =>
        (stmtParsers ctx fuel).finishLvalueStatement lval word) (state.reading tokens) stmt after) :
    Comes (fun fuel => statementAt ctx (stmtParsers ctx fuel) ⟨.Identifier, word⟩)
      (state.reading (⟨.Identifier, word⟩ :: tokens)) stmt after := by
  have uncast : ¬(ctx.opts.turbo = true ∧ ctx.namesAType ⟨none, word⟩ = true ∧
      (tokens.headD .eof).kind = .LeftParen) := by
    rintro ⟨turbo, type, parenthesis⟩
    rw [plain.parenthesis parenthesis turbo rfl] at type
    cases type
  have named : Comes (fun _ => lift (ctx.qualifiedName word)) (state.reading tokens)
      ⟨none, word⟩ (state.reading tokens) :=
    qualifiedName_plain fun point => plain.point point rfl
  exact advancing (looking (.of_neg uncast (named.bind more)))

theorem identifier_comes {name : Name} (named : ctx.hasName name = true)
    (plain : Plain ctx name (headKind tokens))
    (more : ∀ word, Comes (fun fuel =>
      lift ((stmtParsers ctx fuel).exprs.parsePostfix (.ident name)) >>= fun lval =>
        (stmtParsers ctx fuel).finishLvalueStatement lval word) (state.reading tokens) stmt after) :
    Comes (fun fuel => statementAt ctx (stmtParsers ctx fuel)
      ((manner.name name ++ tokens).headD .eof)) (state.reading (manner.name name ++ tokens)) stmt
      after := by
  obtain ⟨module?, word⟩ := name
  cases module? with
  | none =>
      have unreserved : isTypeKeyword (keywordKind word) = false := by
        simpa [Context.hasName] using named
      have written : manner.name ⟨none, word⟩ = [⟨.Identifier, word⟩] := by
        simp [Manner.name, Manner.word, unreserved]
      rw [written]
      exact word_comes plain (more word)
  | some module =>
      have qualified : ctx.qualifiedModules (toLower module) = true := by
        simpa [Context.hasName] using named
      have uncast : ¬(ctx.opts.turbo = true ∧ ctx.namesAType ⟨none, module⟩ = true ∧
          (manner.token .Dot).kind = .LeftParen) := fun wrong => TokenKind.noConfusion wrong.2.2
      exact advancing (looking (.of_neg uncast
        ((qualifiedName_module qualified).bind (more module))))

/-! ### Conversions and calls -/

theorem selection?_root (expr : ExprNode) : (root expr).selection? = none := by
  fun_induction root expr with
  | case1 array index induction => exact induction
  | case2 record field induction => exact induction
  | case3 pointer induction => exact induction
  | case4 str low high induction => exact induction
  | case5 receiver method args induction => exact induction
  | case6 callee args induction => exact induction
  | case7 expr index field deref substring methodCall indirectCall =>
      cases expr <;> first | rfl | simp_all

/-- A path behind a conversion, from its parenthesis on. -/
theorem cast_comes {name : Name} {operand : ExprNode} (from_cast : root expr = .typeCast name operand)
    (present : hasLvalue ctx manner expr = true) (operand_present : hasExpr ctx manner 0 operand = true)
    (idle : state.Idle) (further : beyond expr (headKind rest) = true)
    (ends : follows (headKind rest) = true) :
    Comes (fun fuel => lift (Context.castOperand (stmtParsers ctx fuel).exprs name))
      (state.reading (manner.token .LeftParen :: (manner.write 0 operand ++
        manner.token .RightParen :: (selections manner expr ++ rest)))) expr (state.reading rest) := by
  have room : Room MaxExprDepth MaxValueDepth state.toParserState :=
    idle.room (Nat.le_refl _) (Nat.le_refl _)
  have goes := path_selection present state.toParserState rest expr
    (state.toParserState.reading rest) true room further (postfix_ends expr ends)
  rw [from_cast] at goes
  simp only [exprs_stmtParsers]
  exact lift_comes (castOperand_read _ _ (exprReads_of_hasExpr operand_present) room goes).comes

/-- A name is no path where a parenthesis or no selection at all is behind it. -/
theorem name_comes {name : Name}
    (ends : headKind tokens = .LeftParen ∨ follows (headKind tokens) = true) :
    Comes (fun fuel => lift ((stmtParsers ctx fuel).exprs.parsePostfix (.ident name)))
      (state.reading tokens) (.ident name) (state.reading tokens) := by
  simp only [exprs_stmtParsers]
  apply lift_comes
  rcases ends with parenthesis | ends
  · apply Comes.call (fun fuel => Context.parsePostfix (ctx.parsers fuel) (.ident name)) fun _ => rfl
    refine (Comes.pure _ (state.toParserState.reading tokens)).of_eq fun fuel => ?_
    have kind : (state.toParserState.reading tokens).current.kind = .LeftParen := parenthesis
    simp only [Context.parsePostfix, bind_apply, current_apply, Option.bind_some, kind,
      ExprNode.isIdent, if_true]
  · have stays : Ends (Lost follows 0) (fun fuel => (ctx.parsers fuel).parsePostfix (.ident name))
        (state.toParserState.reading tokens) (.ident name) (state.toParserState.reading tokens)
        true := postfix_ends (.ident name) ends
    exact stays.comes

theorem starts_argument {write : Bool} {arg : Argument}
    (present : hasArgument ctx manner write arg = true) (rest : List Expressions.Token) :
    startsExpr (headKind (writeArgument manner arg ++ rest)) = true := by
  cases arg with
  | expr value =>
      rw [hasArgument] at present
      exact starts_of_hasExpr present 0 rest
  | writeParam value width decimals =>
      simp only [hasArgument, Bool.and_eq_true] at present
      cases decimals <;>
      · rw [writeArgument, List.append_assoc]
        exact starts_of_hasExpr present.1.1.2 0 _

theorem callParens_comes {name : Name} {args : List Argument}
    (present : args.all (hasArgument ctx manner (isWrite name)) = true) (idle : state.Idle) :
    Comes (fun fuel => callParens (stmtParsers ctx fuel) name)
      (state.reading (manner.parens (withCommas manner (writeArgument manner) args) ++ rest)) args
      (state.reading rest) := by
  rw [Manner.parens, Manner.brackets, List.cons_append, List.append_assoc, List.singleton_append]
  cases args with
  | nil => exact taken (checked (expecting (.pure _ _)) rfl)
  | cons arg args =>
      have starts : startsExpr (headKind (withCommas manner (writeArgument manner) (arg :: args) ++
          manner.token .RightParen :: rest)) = true := by
        rw [withCommas, List.append_assoc]
        exact starts_argument (List.all_eq_true.mp present arg List.mem_cons_self) _
      have other : headKind (withCommas manner (writeArgument manner) (arg :: args) ++
          manner.token .RightParen :: rest) ≠ .RightParen := by
        intro wrong
        rw [wrong] at starts
        exact absurd starts (by decide)
      exact taken (unchecked other ((callArguments_comes (List.cons_ne_nil _ _) present idle).bind
        (expecting (.pure _ _))))

/-- The parentheses of a call, which are not needed without arguments. -/
theorem writeParens_comes {name : Name} {args : List Argument}
    (present : args.all (hasArgument ctx manner (isWrite name)) = true) (idle : state.Idle)
    (other : headKind rest ≠ .LeftParen) :
    Comes (fun fuel => callParens (stmtParsers ctx fuel) name)
      (state.reading (writeParens manner args.isEmpty
        (withCommas manner (writeArgument manner) args) ++ rest)) args (state.reading rest) := by
  unfold writeParens
  split
  · next bare =>
      obtain rfl : args = [] := by simpa using bare.1
      exact passed other (.pure _ _)
  · exact callParens_comes present idle

theorem behindComma_map (args : List ExprNode) :
    behindComma manner (writeArgument manner) (args.map .expr) = manner.writeMore .Comma args := by
  induction args with
  | nil => rfl
  | cons arg args induction =>
      rw [Manner.writeMore, ← induction]
      rfl

theorem withCommas_map (args : List ExprNode) :
    withCommas manner (writeArgument manner) (args.map .expr) = manner.writeAll .Comma args := by
  cases args with
  | nil => rfl
  | cons arg args =>
      rw [Manner.writeAll, ← behindComma_map]
      rfl

theorem value_map (args : List ExprNode) : (args.map Argument.expr).map Argument.value = args := by
  rw [List.map_map]
  exact List.map_id args

/-- A name that is called is not taken for a label or for something that is assigned to. -/
theorem called_comes {name : Name} {args : List Argument} {word : Text}
    (read : Comes (fun fuel => callParens (stmtParsers ctx fuel) name) (state.reading tokens) args
      (state.reading rest))
    (apart : headKind tokens ≠ .Assign ∧ headKind tokens ≠ .Colon)
    (more : Comes (fun fuel => behindCall (stmtParsers ctx fuel) name args word)
      (state.reading rest) stmt after) :
    Comes (fun fuel => (stmtParsers ctx fuel).finishLvalueStatement (.ident name) word)
      (state.reading tokens) stmt after :=
  .call (fun fuel => finishLvalueStatement (stmtParsers ctx fuel) (.ident name) word) (fun _ => rfl)
    (passed apart.1 (passed apart.2 (read.bind more)))

/-! ### Paths in front of a statement -/

theorem all_map_expr {write : Bool} {args : List ExprNode}
    (present : args.all (hasExpr ctx manner 0) = true) :
    (args.map Argument.expr).all (hasArgument ctx manner write) = true := by
  rw [List.all_map]
  exact present

/-- A statement reads the path that it begins with, and goes on behind it. -/
theorem lvalue_comes (present : hasLvalue ctx manner expr = true) (uncalled : isCall expr = false)
    (unreserved : startsReserved expr = false) (idle : state.Idle)
    (further : beyond expr (headKind rest) = true) (ends : follows (headKind rest) = true)
    (finish : ∀ word, Comes (fun fuel => (stmtParsers ctx fuel).finishLvalueStatement expr word)
      (state.reading rest) stmt after) :
    Comes (fun fuel => statementAt ctx (stmtParsers ctx fuel)
      ((manner.write 4 expr ++ rest).headD .eof)) (state.reading (manner.write 4 expr ++ rest)) stmt
      after := by
  have base := hasLvalue_root present
  have behind := behind_root present
  have path := path_comes present idle further ends
  have single := selection?_root expr
  rw [write_path, List.append_assoc]
  cases found : root expr with
  | ident name =>
      rw [found] at base path behind
      rw [hasLvalue] at base
      have plain : Plain ctx name (headKind (selections manner expr ++ rest)) := by
        rcases behind with ⟨none, -⟩ | behind
        · rw [none, List.nil_append]
          exact ⟨fun wrong => by rw [wrong] at ends; exact absurd ends (by decide),
            fun wrong => by rw [wrong] at ends; exact absurd ends (by decide)⟩
        · obtain ⟨-, goes⟩ := behind rest
          simp only [goesBehind, Bool.decide_and, Bool.and_eq_true, decide_eq_true_eq] at goes
          exact ⟨fun wrong => absurd wrong goes.1, fun point unqualified => by
            simpa [unqualified] using goes.2 point⟩
      rw [Manner.write]
      exact identifier_comes base plain fun word => path.bind (finish word)
  | typeCast name operand =>
      rw [found, hasLvalue, Bool.and_eq_true] at base
      obtain ⟨cast, operand_present⟩ := base
      have plain : Context.isReservedType name = false := by
        rw [startsReserved, found] at unreserved
        exact unreserved
      simp only [isCastName, plain, Bool.false_eq_true, false_or, decide_eq_true_eq] at cast
      obtain ⟨turbo, single, named, type⟩ := cast
      obtain ⟨module?, word⟩ := name
      obtain rfl : module? = none := single
      have written : manner.name ⟨none, word⟩ = [⟨.Identifier, word⟩] := by
        have unreserved : isTypeKeyword (keywordKind word) = false := by
          simpa [Context.hasName] using named
        simp [Manner.name, Manner.word, unreserved]
      rw [Manner.write, written, Manner.parens, Manner.brackets, List.singleton_append,
        List.cons_append, List.cons_append, List.append_assoc, List.singleton_append]
      have read := cast_comes found present operand_present idle further ends
      exact advancing (looking (.of_pos ⟨turbo, type, rfl⟩ (read.bind (finish word))))
  | call name args =>
      rw [found] at base path behind
      rw [hasLvalue, Bool.and_eq_true] at base
      obtain ⟨callee, args_present⟩ := base
      simp only [isCallee, Bool.decide_and, Bool.and_eq_true, decide_eq_true_eq] at callee
      obtain ⟨operator, goes⟩ : isSelection (headKind (selections manner expr ++ rest)) = true ∧
          headKind (selections manner expr ++ rest) ≠ .LeftParen := by
        rcases behind with ⟨-, same⟩ | behind
        · rw [← same] at uncalled
          cases uncalled
        · exact ⟨(behind rest).1, of_decide_eq_true (behind rest).2⟩
      have reaches : headKind (selections manner expr ++ rest) = .Dot ∨
          headKind (selections manner expr ++ rest) = .Caret ∨
            headKind (selections manner expr ++ rest) = .LeftBracket := by
        revert operator goes
        cases headKind (selections manner expr ++ rest) <;> decide
      have read : Comes (fun fuel => callParens (stmtParsers ctx fuel) name)
          (state.reading (manner.parens (manner.writeAll .Comma args) ++
            (selections manner expr ++ rest))) (args.map .expr)
          (state.reading (selections manner expr ++ rest)) := by
        rw [← withCommas_map]
        exact callParens_comes (all_map_expr args_present) idle
      rw [Manner.write, List.append_assoc]
      apply identifier_comes callee.1
      · exact ⟨fun _ turbo single => by simpa using callee.2 turbo single,
          fun wrong => TokenKind.noConfusion wrong⟩
      · intro word
        refine (name_comes (.inl rfl)).bind (called_comes read
          ⟨fun wrong => TokenKind.noConfusion wrong, fun wrong => TokenKind.noConfusion wrong⟩ ?_)
        apply looking
        apply Comes.of_pos reaches
        rw [value_map]
        exact path.bind (finish word)
  | _ => first | (rw [found] at base; cases base) | (rw [found] at single; cases single)

end Plang.Statements
