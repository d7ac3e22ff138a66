import Plang.Lex.Next

/-!
# The scanner as a reader of one text

What scanning means when there are no buffers and no files: a single text is read from left to
right, and what has been read decides how the rest is.
-/

namespace Plang

/-- The part of the scanner's state that the text read so far decides. -/
structure Control where
  /-- The kind of the last token. -/
  prevKind : TokenKind := .Eof
  /-- The next token is known to start an expression. -/
  forceExprStartOnce : Bool := false
  /-- The open conditionals, innermost first: whether a branch has been taken, and whether the
  `{$ELSE}` has been seen. -/
  conditionals : List (Bool × Bool) := []
  /-- The defined symbols. -/
  currentDefines : List Text := []
  /-- The switches. -/
  switchState : CompilerState
  /-- Inside a dead branch: the number of nested conditionals opened in it. -/
  skipDepth : Option Nat := none

namespace Control

/-- The control in front of a text. -/
def initial (opts : LangOptions) : Control where
  currentDefines := opts.defines.map toLower
  switchState := opts.defaultSwitches

/-- A symbol is defined. -/
def isDefined (control : Control) (symbol : Text) : Bool :=
  control.currentDefines.contains (toLower symbol)

/-- Set switches one after the other. -/
def applySwitches (control : Control) (changes : List (Switch × Bool)) : Control :=
  { control with
    switchState := changes.foldl (fun state change => state.set change.1 change.2)
      control.switchState }

/-- Define a symbol or make it undefined. -/
def defineSymbol (control : Control) (define : Bool) (symbol : Text) : Control :=
  if looksLikeIdentifier symbol then
    { control with
      currentDefines :=
        if define then toLower symbol :: control.currentDefines
        else control.currentDefines.filter (· != toLower symbol) }
  else
    control

/-- Open a conditional. -/
def pushConditional (control : Control) (condition : Bool) : Control :=
  { control with
    conditionals := (condition, false) :: control.conditionals
    skipDepth := if condition then none else some 0 }

/-- The condition of `{$IFDEF}` or `{$IFNDEF}`; an argument that is no symbol fails it. -/
def symbolCondition (control : Control) (wanted : Bool) (symbol : Text) : Bool :=
  looksLikeIdentifier symbol && control.isDefined symbol == wanted

/-- The condition of `{$IFOPT}`; an argument that is no switch fails it. -/
def optionCondition (control : Control) (argument : Text) : Bool :=
  (ifoptSwitch argument).any fun asked => control.switchState.on asked.1 == asked.2

/-- The end of a live branch that is not the last. -/
def leaveBranch (control : Control) (isElse : Bool) : Control :=
  match control.conditionals with
  | [] => control
  | (taken, seenElse) :: outer =>
      if seenElse then control
      else { control with conditionals := (taken, isElse) :: outer, skipDepth := some 0 }

/-- The end of the innermost conditional. -/
def closeConditional (control : Control) : Control :=
  { control with conditionals := control.conditionals.tail, skipDepth := none }

/-- A conditional directive of live text. -/
def onConditional (control : Control) (name argument : Text) : Option Control :=
  let folded := toLower name
  if folded = "define".toList then some (control.defineSymbol true argument)
  else if folded = "undef".toList then some (control.defineSymbol false argument)
  else if folded = "ifdef".toList then
    some (control.pushConditional (control.symbolCondition true argument))
  else if folded = "ifndef".toList then
    some (control.pushConditional (control.symbolCondition false argument))
  else if folded = "ifopt".toList then
    some (control.pushConditional (control.optionCondition argument))
  else if folded = "else".toList then some (control.leaveBranch true)
  else if folded = "elseif".toList then some (control.leaveBranch false)
  else if folded = "endif".toList then some control.closeConditional
  else none

/-- A directive of live text. -/
def onDirective (control : Control) (body : Text) : Control :=
  let (name, argument, adjacent) := splitDirectiveBody body
  match multiSwitches body with
  | some changes => control.applySwitches changes
  | none =>
      if MessageDirectives.any fun entry => entry.1.toList == toLower name then control
      else
        match control.onConditional name argument with
        | some after => after
        | none =>
            if isInclude name argument then control
            else
              match directiveSwitch name argument adjacent with
              | some change => control.applySwitches [change]
              | none => control

/-- `{$ELSE}` or `{$ELSEIF}` of the conditional whose branch is being skipped. -/
def deadAlternative (control : Control) (isElse : Bool) (argument : Text) : Control :=
  match control.conditionals with
  | [] => control
  | (taken, seenElse) :: outer =>
      if seenElse then control
      else if isElse then
        { control with
          conditionals := (true, true) :: outer
          skipDepth := if taken then control.skipDepth else none }
      else if taken then control
      else if control.symbolCondition true argument then
        { control with conditionals := (true, seenElse) :: outer, skipDepth := none }
      else control

/-- A directive of a dead branch. -/
def onDeadDirective (control : Control) (depth : Nat) (body : Text) : Control :=
  let (name, argument, _) := splitDirectiveBody body
  let folded := toLower name
  if folded = "ifdef".toList ∨ folded = "ifndef".toList ∨ folded = "ifopt".toList then
    { control with skipDepth := some (depth + 1) }
  else if folded = "endif".toList then
    if 0 < depth then { control with skipDepth := some (depth - 1) } else control.closeConditional
  else if 0 < depth then control
  else if folded = "else".toList then control.deadAlternative true argument
  else if folded = "elseif".toList then control.deadAlternative false argument
  else control

end Control

/-- A comment or directive does not begin with white space. -/
theorem Scanner.trivia_not_space {opts : LangOptions} {c : Char} {rest : Text}
    {piece : Scanner.Trivia} (opens : Scanner.trivia opts (c :: rest) = some piece) : isspace c = false := by
  by_contra space
  have not_brace : c ≠ '{' := by
    rintro rfl
    exact space rfl
  have not_paren : c ≠ '(' := by
    rintro rfl
    exact space rfl
  have not_slash : c ≠ '/' := by
    rintro rfl
    exact space rfl
  simp [Scanner.trivia, not_brace, not_paren, not_slash] at opens

/-- A text being read. -/
structure Reader where
  /-- The state that the text read so far decides. -/
  control : Control
  /-- The text that is still to be read. -/
  rest : Text
  /-- The tokens returned so far, oldest first. -/
  tokens : List (TokenKind × Text) := []

namespace Reader

/-- Step over characters. -/
def drop (reader : Reader) (width : Nat) : Reader := { reader with rest := reader.rest.drop width }

/-- One turn of the raw scan over a dead branch. -/
def skipTurn (opts : LangOptions) (reader : Reader) (depth : Nat) : Reader :=
  match reader.rest with
  | [] => { reader with control := reader.control.closeConditional }
  | c :: after =>
      if c = '\'' then reader.drop (((closingQuote after).getD 0) + 1)
      else if opts.turbo && c == '/' && after.head? == some '/' then
        reader.drop (reader.rest.takeWhile (· != '\n')).length
      else
        match directiveOpener reader.rest with
        | none => reader.drop 1
        | some braced =>
            let width := (opener braced).length + 1
            match findCloser braced (reader.rest.drop width) with
            | none => { reader with control := reader.control.closeConditional, rest := [] }
            | some body =>
                { reader.drop (width + body.length + (closer braced).length) with
                  control := reader.control.onDeadDirective depth body }

theorem skipTurn_quote (opts : LangOptions) (control : Control) (after : Text)
    (tokens : List (TokenKind × Text)) (depth : Nat) :
    skipTurn opts ⟨control, '\'' :: after, tokens⟩ depth =
      ⟨control, after.drop ((closingQuote after).getD 0), tokens⟩ := rfl

theorem skipTurn_line {opts : LangOptions} (turbo : opts.turbo = true) (control : Control)
    {after : Text} (slash : after.head? = some '/') (tokens : List (TokenKind × Text))
    (depth : Nat) :
    skipTurn opts ⟨control, '/' :: after, tokens⟩ depth =
      ⟨control, after.drop (after.takeWhile (· != '\n')).length, tokens⟩ := by
  simp [skipTurn, turbo, slash, drop]

theorem skipTurn_other {opts : LangOptions} (control : Control) {c : Char} {after : Text}
    (not_quote : c ≠ '\'') (not_line : ¬(c = '/' ∧ after.head? = some '/'))
    (tokens : List (TokenKind × Text)) (depth : Nat) :
    skipTurn opts ⟨control, c :: after, tokens⟩ depth =
      match directiveOpener (c :: after) with
      | none => ⟨control, after, tokens⟩
      | some braced =>
          match findCloser braced ((c :: after).drop ((opener braced).length + 1)) with
          | none => ⟨control.closeConditional, [], tokens⟩
          | some body => ⟨control.onDeadDirective depth body, (c :: after).drop
              ((opener braced).length + 1 + body.length + (closer braced).length), tokens⟩ := by
  have no_line : ¬(opts.turbo && c == '/' && after.head? == some '/') = true := by
    simp only [Bool.and_eq_true, beq_iff_eq, not_and]
    exact fun both slash => not_line ⟨both.2, slash⟩
  simp only [skipTurn, if_neg not_quote, if_neg no_line, drop]
  cases directiveOpener (c :: after) with
  | none => rfl
  | some braced => rfl

/-- Step over a comment. -/
def skipComment (opts : LangOptions) (reader : Reader) (braced : Bool) : Reader :=
  let width := (opener braced).length
  let after := reader.rest.drop width
  let body :=
    if opts.turbo then (findCloser braced after).map fun body => body.length + (closer braced).length
    else eitherCloser after
  match body with
  | some body => reader.drop (width + body)
  | none => { reader with rest := [] }

/-- Read a live directive. -/
def readDirective (reader : Reader) (braced : Bool) : Reader :=
  let width := (opener braced).length + 1
  match findCloser braced (reader.rest.drop width) with
  | some body =>
      { reader.drop (width + body.length + (closer braced).length) with
        control := reader.control.onDirective body }
  | none => { reader with rest := [] }

/-- Step over a comment or read a directive. -/
def skipTrivia (opts : LangOptions) (reader : Reader) : Scanner.Trivia → Reader
  | .directive braced => reader.readDirective braced
  | .comment braced => reader.skipComment opts braced
  | .line => reader.drop (2 + ((reader.rest.drop 2).takeWhile (· != '\n')).length)

/-- The parser has been given the tokens; it may have allowed a control character next. -/
def returned (allow : Nat → Bool) (control : Control) (rest : Text)
    (tokens : List (TokenKind × Text)) : Reader :=
  { control :=
      if allow tokens.length then { control with forceExprStartOnce := true } else control
    rest, tokens }

/-- A reader at the beginning of a text. -/
def ofText (opts : LangOptions) (allow : Nat → Bool) (text : Text) : Reader :=
  returned allow (Control.initial opts) text []

/-- Read a token; one that is in error is dropped. -/
def readToken (opts : LangOptions) (allow : Nat → Bool) (reader : Reader) : Reader :=
  let control := reader.control
  let scanned :=
    scanToken opts (startsExpression control.prevKind || control.forceExprStartOnce) reader.rest
  if scanned.kind = .Error then
    reader.drop scanned.width
  else
    returned allow { control with prevKind := scanned.kind, forceExprStartOnce := false }
      (reader.rest.drop scanned.width) (reader.tokens ++ [(scanned.kind, scanned.lexeme)])

/-- One turn of the reader, over a live text or a dead one. -/
def turn (opts : LangOptions) (allow : Nat → Bool) (reader : Reader) : Reader :=
  match reader.control.skipDepth with
  | some depth => reader.skipTurn opts depth
  | none =>
      match reader.rest with
      | [] =>
          returned allow { reader.control with conditionals := [] } [] (reader.tokens ++ [(.Eof, [])])
      | c :: _ =>
          if isspace c then reader.drop 1
          else
            match Scanner.trivia opts reader.rest with
            | some piece => reader.skipTrivia opts piece
            | none => reader.readToken opts allow

theorem turn_trivia {opts : LangOptions} (allow : Nat → Bool) (control : Control)
    (live : control.skipDepth = none) {text : Text} {piece : Scanner.Trivia}
    (opens : Scanner.trivia opts text = some piece) (tokens : List (TokenKind × Text)) :
    turn opts allow ⟨control, text, tokens⟩ =
      skipTrivia opts ⟨control, text, tokens⟩ piece := by
  cases text with
  | nil => cases opens
  | cons c rest =>
      simp only [turn, live, Scanner.trivia_not_space opens, opens, Bool.false_eq_true, if_false]

/-- The reader after a number of turns. -/
def run (opts : LangOptions) (allow : Nat → Bool) (reader : Reader) (turns : Nat) : Reader :=
  (turn opts allow)^[turns] reader

theorem run_add (opts : LangOptions) (allow : Nat → Bool) (reader : Reader) (first second : Nat) :
    reader.run opts allow (second + first) = (reader.run opts allow first).run opts allow second :=
  Function.iterate_add_apply (turn opts allow) second first reader

end Reader

end Plang
