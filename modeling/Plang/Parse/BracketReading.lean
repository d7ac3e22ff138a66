import Plang.Parse.ExprParser

/-!
# Names with a bracket behind them

What the expression parser builds of a name and the parentheses or brackets that follow it: a type
cast, a typed constructor, or something that is no constructor.
-/

namespace Plang.Expressions

open Fuel

/-- The expression that components, fields and calls are selected from. -/
def ExprNode.root : ExprNode → ExprNode
  | .index array _ => array.root
  | .field record _ => record.root
  | .deref pointer => pointer.root
  | .substring str _ _ => str.root
  | .methodCall receiver _ _ => receiver.root
  | .indirectCall callee _ => callee.root
  | node => node

/-- A type cast, or a constructor with the name of a type, and what is selected from it. -/
def ExprNode.isTyped (node : ExprNode) : Bool :=
  match node.root with
  | .typeCast _ _ => true
  | .setLiteral typeName _ => typeName.isSome
  | .structuredValue typeName _ => typeName.isSome
  | _ => false

/-- A constructor with arms, and what is selected from it. -/
def ExprNode.hasArms (node : ExprNode) : Bool :=
  match node.root with
  | .structuredValue _ _ => true
  | _ => false

/-- A typed constructor with arms, and what is selected from it. -/
def HasTypedArms (node : ExprNode) : Prop := node.hasArms = true ∧ node.isTyped = true

theorem ExprNode.root_foldl_index (labels : List ExprNode) (array : ExprNode) :
    (labels.foldl .index array).root = array.root := by
  induction labels generalizing array with
  | nil => rfl
  | cons label labels induction => exact induction _

namespace Context

variable (ctx : Context)

/-- What follows an expression selects from it. -/
theorem yields_root (fuel : Nat) :
    (∀ expr : ExprNode,
      Yields (fun node => node.root = expr.root) ((ctx.parsers fuel).parsePostfix expr)) ∧
    ∀ expr : ExprNode,
      Yields (fun node => node.root = expr.root) ((ctx.parsers fuel).subscripts expr) := by
  induction fuel with
  | zero => exact ⟨fun _ => .failure, fun _ => .failure⟩
  | succ fuel induction =>
      obtain ⟨postfix_, subscripts⟩ := induction
      constructor
      · intro expr
        refine .bind fun token => ?_
        split
        · exact .bind fun _ => .bind_of (subscripts expr) fun selected same =>
            .bind fun _ => (postfix_ selected).mono fun _ => (·.trans same)
        · exact .bind fun _ => .bind fun _ => .bind fun _ =>
            .ite (.bind fun _ => postfix_ _) (postfix_ _)
        · exact .bind fun _ => postfix_ _
        · exact .ite (.pure rfl) (.bind fun _ => .bind fun _ => postfix_ _)
        · exact .pure rfl
      · intro expr
        have more (selected : ExprNode) (same : selected.root = expr.root) :
            Yields (fun node => node.root = expr.root)
              (moreSubscripts (ctx.parsers fuel) selected) :=
          .bind fun _ => .ite ((subscripts selected).mono fun _ => (·.trans same)) (.pure same)
        exact .bind fun _ => .bind fun _ => .ite (.bind fun _ => more _ rfl) (more _ rfl)

/-- Labels are never empty. -/
theorem yields_labels (fuel : Nat) :
    Yields (fun labels => labels ≠ []) (ctx.parsers fuel).parseValueLabels := by
  cases fuel with
  | zero => exact .failure
  | succ fuel => exact .bind fun _ => .bind fun _ => .pure (by simp)

variable {ctx} (fuel : Nat) (name : Name)

/-- What is selected from an expression is a cast or constructor if and only if the expression is. -/
theorem yields_isTyped (expr : ExprNode) :
    Yields (fun node => node.hasArms = expr.hasArms ∧ node.isTyped = expr.isTyped)
      ((ctx.parsers fuel).parsePostfix expr) :=
  ((ctx.yields_root fuel).1 expr).mono fun _ same =>
    ⟨by rw [ExprNode.hasArms, ExprNode.hasArms, same], by rw [ExprNode.isTyped, ExprNode.isTyped, same]⟩

/-- Labels without a colon behind them make a typed constructor of the name of a type, and of no
other name. -/
theorem yields_setOrIndex {labels : List ExprNode} (labels_ne : labels ≠ []) :
    Yields (fun node => node.hasArms = false ∧ node.isTyped = ctx.namesAType name)
      (ctx.setOrIndex (ctx.parsers fuel) name labels) := by
  have selects (expr : ExprNode) (same : expr.root = .ident name)
      (other : ctx.namesAType name = false) :
      Yields (fun node => node.hasArms = false ∧ node.isTyped = ctx.namesAType name)
        ((ctx.parsers fuel).parsePostfix expr) := by
    refine (yields_isTyped fuel expr).mono fun _ => And.imp (·.trans ?_) (·.trans ?_)
    · rw [ExprNode.hasArms, same]
    · rw [other, ExprNode.isTyped, same]
  match labels, labels_ne with
  | [label], _ =>
      cases names : ctx.namesAType name with
      | true =>
          simp only [setOrIndex, names, List.length_singleton, and_self, if_true, Bool.not_true,
            Bool.false_eq_true, and_false, if_false]
          exact .pure ⟨rfl, rfl⟩
      | false =>
          rw [names] at selects
          simp only [setOrIndex, names, List.length_singleton, lt_irrefl, Bool.false_eq_true,
            false_and, and_false, if_false]
          split
          · exact .pure ⟨rfl, rfl⟩
          · exact selects _ rfl rfl
          · rename_i other
            exact absurd rfl (other label)
  | first :: second :: more, _ =>
      cases names : ctx.namesAType name with
      | true =>
          simp only [setOrIndex, names, List.length_cons, Bool.not_true, Bool.false_eq_true,
            and_false, if_false]
          exact .ite (.pure ⟨rfl, rfl⟩) (.pure ⟨rfl, rfl⟩)
      | false =>
          rw [names] at selects
          have several : 1 < (first :: second :: more).length := by simp
          simp only [setOrIndex, names, several, Bool.not_false, and_self, if_true]
          exact selects _ (ExprNode.root_foldl_index _ _) rfl

theorem yields_structuredValue (arms : List ExprNode) :
    Yields HasTypedArms
      ((ctx.parsers fuel).parsePostfix (.structuredValue (some name) arms)) :=
  yields_isTyped fuel _

/-- Where a run has reported nothing, its result is of the kind. -/
def Silent (kind : ExprNode → Prop) (run : Parse ExprNode) : Prop :=
  ∀ state node final, run state = some (node, final) → final.errors = [] → kind node

theorem Silent.of_yields {kind : ExprNode → Prop} {run : Parse ExprNode}
    (yields : Yields kind run) : Silent kind run :=
  fun state node final built _ => yields state node final built

theorem Silent.bind_of {α : Type} {middle : α → Prop} {kind : ExprNode → Prop} {run : Parse α}
    {next : α → Parse ExprNode} (first : Yields middle run)
    (second : ∀ result, middle result → Silent kind (next result)) : Silent kind (run >>= next) := by
  intro state node final built silent
  rw [bind_apply] at built
  obtain ⟨⟨between, state'⟩, begun, built⟩ := Option.bind_eq_some_iff.mp built
  exact second between (first state between state' begun) state' node final built silent

theorem Silent.bind {α : Type} {kind : ExprNode → Prop} {run : Parse α}
    {next : α → Parse ExprNode} (second : ∀ result, Silent kind (next result)) :
    Silent kind (run >>= next) :=
  .bind_of (fun _ _ _ _ => trivial) fun result (_ : True) => second result

/-- A kind of token behind a left bracket that only a constructor can have there. -/
def beginsConstructor (kind : TokenKind) : Bool :=
  kind == .RightBracket || kind == .Case || kind == .Otherwise

/-- A typed constructor where it is the only thing that can be meant, and else what the name makes
of it. -/
def BracketReading (ctx : Context) (name : Name) (kind : TokenKind) (node : ExprNode) : Prop :=
  (beginsConstructor kind = true ∧ node.isTyped = true) ∨ HasTypedArms node ∨
    (beginsConstructor kind = false ∧ node.hasArms = false ∧ node.isTyped = ctx.namesAType name)

/-- What stands behind the labels makes a constructor with arms of them, or leaves it to the name
what they are. -/
theorem silent_constructorOrIndex {labels : List ExprNode} (labels_ne : labels ≠ []) {kind : TokenKind}
    (other : beginsConstructor kind = false) :
    Silent (BracketReading ctx name kind) (ctx.constructorOrIndex (ctx.parsers fuel) name labels) := by
  refine .bind fun colon => ?_
  split
  · exact .of_yields (.bind fun _ => .bind fun _ => .bind fun _ =>
      (yields_structuredValue fuel name _).mono fun _ => .inr ∘ .inl)
  · refine .bind fun closed => ?_
    split
    · exact .of_yields ((yields_setOrIndex fuel name labels_ne).mono fun _ named =>
        .inr (.inr ⟨other, named⟩))
    · rintro state node final ⟨⟩ silent
      simp at silent

/-- What is built of a name and brackets, where nothing is reported. -/
theorem parseStructuredValueOrIndex_reading {state final : ParserState} {node : ExprNode}
    (built : (ctx.parsers fuel).parseStructuredValueOrIndex name state = some (node, final))
    (silent : final.errors = []) :
    BracketReading ctx name (headKind state.tokens.tail) node := by
  cases fuel with
  | zero => cases built
  | succ fuel =>
      change ctx.parseStructuredValueOrIndex (ctx.parsers fuel) name state = _ at built
      rw [parseStructuredValueOrIndex, bind_apply] at built
      obtain ⟨⟨_, inside⟩, advanced, built⟩ := Option.bind_eq_some_iff.mp built
      rw [bind_apply] at built
      obtain ⟨⟨token, same⟩, taken, built⟩ := Option.bind_eq_some_iff.mp built
      have kind : headKind state.tokens.tail = token.kind := by
        cases advanced
        cases taken
        rfl
      rw [kind]
      refine (?_ : Silent (BracketReading ctx name token.kind) _) same node final built silent
      have only (begins : beginsConstructor token.kind = true) (arms : List ExprNode) :
          Yields (BracketReading ctx name token.kind)
            ((ctx.parsers fuel).parsePostfix (.structuredValue (some name) arms)) :=
        (yields_structuredValue fuel name arms).mono fun _ typed => .inl ⟨begins, typed.2⟩
      split
      · rename_i empty
        exact .of_yields (.bind fun _ => .pure (.inl ⟨by rw [empty]; rfl, rfl⟩))
      · rename_i variant
        exact .of_yields (.bind fun _ => .bind fun _ => .bind fun _ => only (by rw [variant]; rfl) _)
      · rename_i completer
        exact .of_yields (.bind fun _ => .bind fun _ => only (by rw [completer]; rfl) _)
      · rename_i not_empty not_variant not_completer
        refine .bind_of (yields_labels ctx fuel) fun labels labels_ne =>
          silent_constructorOrIndex fuel name labels_ne ?_
        simpa [beginsConstructor] using ⟨⟨not_empty, not_variant⟩, not_completer⟩

end Context

/-- The parser builds the tree of a name and the tokens behind it, and has reported nothing. -/
def Builds (ctx : Context) (name : Name) (tokens : List Token) (node : ExprNode) : Prop :=
  ∃ fuel state final, state.tokens = tokens ∧
    ctx.behindName (ctx.parsers fuel) name state = some (node, final) ∧ final.errors = []

/-- Whether a constructor is meant is for the name to tell: in parentheses in Turbo Pascal, and in
brackets with expressions and ranges in Extended Pascal. -/
def Ambiguous (opts : LangOptions) (tokens : List Token) (node : ExprNode) : Prop :=
  (opts.turbo = true ∧ headKind tokens = .LeftParen) ∨
    (opts.extendedPascal = true ∧ headKind tokens = .LeftBracket ∧
      Context.beginsConstructor (headKind tokens.tail) = false ∧ node.hasArms = false)

variable {ctx : Context} {name : Name} {tokens : List Token} {node : ExprNode}

/-- In parentheses the name of a type makes a cast in Turbo Pascal, and every other name a call. -/
theorem Builds.isTyped_paren (builds : Builds ctx name tokens node) (turbo : ctx.opts.turbo = true)
    (paren : headKind tokens = .LeftParen) : node.isTyped = ctx.namesAType name := by
  obtain ⟨fuel, state, final, rfl, built, -⟩ := builds
  have kind : state.current.kind = .LeftParen := paren
  rw [Context.behindName, bind_apply] at built
  obtain ⟨⟨token, _⟩, ⟨⟩, built⟩ := Option.bind_eq_some_iff.mp built
  cases names : ctx.namesAType name with
  | true =>
      rw [if_pos ⟨turbo, names, kind⟩] at built
      refine (?_ : Yields (fun node => node.isTyped = true) _) _ node final built
      exact .bind fun _ => .bind fun operand => .bind fun _ =>
        (Context.yields_isTyped fuel (.typeCast name operand)).mono fun _ => And.right
  | false =>
      rw [if_neg (fun cast => by rw [names] at cast; exact Bool.false_ne_true cast.2.1),
        if_pos kind] at built
      refine (?_ : Yields (fun node => node.isTyped = false) _) _ node final built
      exact .bind fun _ => .bind fun args =>
        (Context.yields_isTyped fuel (.call name args)).mono fun _ => And.right

/-- Brackets in Extended Pascal are read as a structured value or as an index. -/
theorem Builds.bracketReading (builds : Builds ctx name tokens node)
    (extended : ctx.opts.extendedPascal = true) (bracket : headKind tokens = .LeftBracket) :
    Context.BracketReading ctx name (headKind tokens.tail) node := by
  obtain ⟨fuel, state, final, rfl, built, silent⟩ := builds
  have kind : state.current.kind = .LeftBracket := bracket
  rw [Context.behindName, bind_apply] at built
  obtain ⟨⟨token, _⟩, ⟨⟩, built⟩ := Option.bind_eq_some_iff.mp built
  dsimp only at built
  rw [if_neg (by rw [kind]; exact fun cast => nomatch cast.2.2), if_neg (by rw [kind]; decide),
    if_pos ⟨extended, kind⟩] at built
  exact Context.parseStructuredValueOrIndex_reading fuel name built silent

/-- Where it is for the name to tell, a cast or a typed constructor is built if and only if the name
is that of a type. -/
theorem Builds.isTyped_eq (builds : Builds ctx name tokens node)
    (ambiguous : Ambiguous ctx.opts tokens node) : node.isTyped = ctx.namesAType name := by
  rcases ambiguous with ⟨turbo, paren⟩ | ⟨extended, bracket, listed, plain⟩
  · exact builds.isTyped_paren turbo paren
  · rcases builds.bracketReading extended bracket with ⟨only, -⟩ | arms | ⟨-, -, named⟩
    · exact absurd (only.symm.trans listed) (by decide)
    · exact absurd (arms.1.symm.trans plain) (by decide)
    · exact named

/-- Where only a constructor can be meant, a typed one is built of every name. -/
theorem Builds.isTyped_of_shape (builds : Builds ctx name tokens node)
    (extended : ctx.opts.extendedPascal = true) (bracket : headKind tokens = .LeftBracket)
    (shape : Context.beginsConstructor (headKind tokens.tail) = true ∨ node.hasArms = true) :
    node.isTyped = true := by
  rcases builds.bracketReading extended bracket with ⟨-, typed⟩ | arms | ⟨listed, plain, -⟩
  · exact typed
  · exact arms.2
  · rw [listed, plain] at shape
    simp at shape

end Plang.Expressions
