import Plang.Lex.Scanner

/-!
# Compiler directives

The handlers of the `{$...}` directives, tried one after the other, and the raw scan over the
branches of a conditional that are not taken.
-/

namespace Plang

namespace Scanner

/-- Where the search for a closing delimiter ended. -/
structure Sought where
  /-- The scanner there. -/
  scanner : Scanner
  /-- The text in between, when the delimiter was found. -/
  body : Option Text
  /-- A delimiter of the other kind was seen. -/
  sawOtherCloser : Bool

/-- Look for a closing delimiter, going back to the including files where an include ends first.
The first argument is the include stack. -/
def seekCloser (braced : Bool) :
    List IncludeFrame → Scanner → Text → Bool → Sought
  | stack, s, body, sawOther =>
      match findCloser braced s.rest with
      | some piece =>
          ⟨s.advance (piece.length + (closer braced).length), some (body ++ piece), sawOther⟩
      | none =>
          let sawOther := sawOther || hasOtherCloser braced s.rest
          match stack with
          | [] => ⟨s.advance s.rest.length, none, sawOther⟩
          | frame :: frames =>
              seekCloser braced frames (s.resume frame frames) (body ++ s.rest) sawOther

/-- A comment or directive that nothing closes. -/
def reportUnclosed (s : Scanner) (openLoc : Nat) (braced sawOther : Bool) : Scanner :=
  if sawOther then s.emitError openLoc .err_comment_delim_mismatch [opener braced, closer braced]
  else s.emitError openLoc .err_unterminated_comment []

/-- `{$MESSAGE text}` and its relatives. -/
def dispatchMessageDirective (s : Scanner) (name argument : Text) (loc : Nat) :
    Option Scanner :=
  (MessageDirectives.find? fun entry => entry.1.toList == toLower name).map fun entry =>
    s.emitError loc entry.2 [argument]

/-- Open a conditional; when its condition fails the branch is skipped. -/
def pushConditional (s : Scanner) (condition : Bool) (name : Text) (loc : Nat) :
    Scanner :=
  { s with
    condStack := { anyBranchTaken := condition, openLoc := loc, openName := name } :: s.condStack
    skipDepth := if condition then none else some 0 }

/-- `{$DEFINE}` and `{$UNDEF}`. -/
def defineSymbol (s : Scanner) (define : Bool) (name argument : Text) (loc : Nat) :
    Scanner :=
  if looksLikeIdentifier argument then
    { s with
      currentDefines :=
        if define then toLower argument :: s.currentDefines
        else s.currentDefines.filter (· != toLower argument) }
  else
    s.emitError loc .err_directive_expects_symbol [name]

/-- A symbol is defined. -/
def isDefined (s : Scanner) (symbol : Text) : Bool := s.currentDefines.contains (toLower symbol)

/-- `{$IFDEF}` and `{$IFNDEF}`. -/
def ifSymbol (s : Scanner) (wanted : Bool) (name argument : Text) (loc : Nat) : Scanner :=
  if looksLikeIdentifier argument then
    s.pushConditional (s.isDefined argument == wanted) name loc
  else
    (s.emitError loc .err_directive_expects_symbol [name]).pushConditional false name loc

/-- `{$IFOPT}`. -/
def ifOption (s : Scanner) (name argument : Text) (loc : Nat) : Scanner :=
  match ifoptSwitch argument with
  | some (switch, wanted) => s.pushConditional (s.switchState.on switch == wanted) name loc
  | none =>
      (s.emitError loc .err_directive_ifopt_bad_switch [argument]).pushConditional false name loc

/-- `{$ELSE}` and `{$ELSEIF}` at the end of a live branch. -/
def leaveBranch (s : Scanner) (isElse : Bool) (name : Text) (loc : Nat) : Scanner :=
  match s.condStack with
  | [] => s.emitError loc .err_directive_no_matching_ifdef [name]
  | frame :: frames =>
      if frame.seenElse then
        s.emitError loc .err_directive_else_already_seen [name]
      else
        { s with
          condStack := { frame with seenElse := isElse } :: frames
          skipDepth := some 0 }

/-- `{$ENDIF}` at the end of a live branch. -/
def closeConditional (s : Scanner) (name : Text) (loc : Nat) : Scanner :=
  match s.condStack with
  | [] => s.emitError loc .err_directive_no_matching_ifdef [name]
  | _ :: frames => { s with condStack := frames }

/-- Conditional compilation. -/
def dispatchConditionalDirective (s : Scanner) (name argument : Text) (loc : Nat) :
    Option Scanner :=
  let folded := toLower name
  if folded = "define".toList then some (s.defineSymbol true name argument loc)
  else if folded = "undef".toList then some (s.defineSymbol false name argument loc)
  else if folded = "ifdef".toList then some (s.ifSymbol true name argument loc)
  else if folded = "ifndef".toList then some (s.ifSymbol false name argument loc)
  else if folded = "ifopt".toList then some (s.ifOption name argument loc)
  else if folded = "else".toList then some (s.leaveBranch true name loc)
  else if folded = "elseif".toList then some (s.leaveBranch false name loc)
  else if folded = "endif".toList then some (s.closeConditional name loc)
  else none

/-- Where an include file is found: an absolute name as it is; another one in the directory of the
including file, in the working directory, or in one of the search directories. -/
def resolveIncludePath (fs : FileSystem) (s : Scanner) (filename : Text) : Option Text :=
  if Path.is_absolute filename then
    if fs.is_regular_file filename then some filename else none
  else
    let directories :=
      Path.parent_path (s.sm.getBufferName s.fid) :: fs.current_path.toList ++
        s.opts.includeSearchPaths
    (directories.map fun directory => Path.join directory filename).find? fs.is_regular_file

/-- Switch over to an include file. -/
def enterInclude (s : Scanner) (fid : Nat) (sm : SourceManager) (identity : Text) : Scanner :=
  recordBoundary
    { s with
      sm
      fid
      text := truncateAtCtrlZ (sm.getBufferData fid) s.opts
      pos := 0
      includeStack := ⟨s.fid, s.text, s.pos⟩ :: s.includeStack
      openIncludePaths := s.openIncludePaths ++ [identity] }

/-- Splice a file in, unless it cannot be found or is open already. -/
def openInclude (fs : FileSystem) (s : Scanner) (filename : Text) (loc : Nat) : Scanner :=
  match s.resolveIncludePath fs filename with
  | none => s.emitError loc .err_directive_include_not_found [filename]
  | some resolved =>
      let identity := canonicalIdentity fs resolved
      if s.openIncludePaths.contains identity then
        s.emitError loc .err_directive_include_cycle [filename]
      else
        match s.sm.addFile fs resolved with
        | none => s.emitError loc .err_directive_include_not_found [filename]
        | some (fid, sm) => s.enterInclude fid sm identity

/-- `{$I file}` and `{$INCLUDE file}`; `{$I+}` is a switch. -/
def dispatchIncludeDirective (fs : FileSystem) (s : Scanner) (name argument : Text)
    (loc : Nat) : Option Scanner :=
  if !isInclude name argument then none
  else if (unquote argument).isEmpty then
    some (s.emitError loc .err_directive_include_expects_filename [name])
  else
    some (s.openInclude fs (unquote argument) loc)

/-- A single switch. -/
def dispatchSwitchDirective (s : Scanner) (name argument : Text) (loc : Nat)
    (adjacent : Bool) : Option Scanner :=
  (directiveSwitch name argument adjacent).map fun (switch, value) => s.applySwitch switch value loc

/-- Several switches in one directive. -/
def dispatchMultiSwitchDirective (s : Scanner) (body : Text) (loc : Nat) :
    Option Scanner :=
  (multiSwitches body).map fun parsed =>
    parsed.foldl (fun s (switch, value) => s.applySwitch switch value loc) s

/-- A directive that is known and does nothing. -/
def dispatchIgnoredDirective (s : Scanner) (name : Text) (loc : Nat) : Option Scanner :=
  if IgnoredDirectiveNames.any fun known => known.toList == toLower name then
    some (s.emitError loc .warn_directive_ignored [name])
  else
    none

/-- Hand a directive to the first handler that knows it. -/
def dispatchDirective (fs : FileSystem) (s : Scanner) (body : Text) (loc : Nat) :
    Scanner :=
  let (name, argument, adjacent) := splitDirectiveBody body
  let handled :=
    s.dispatchMultiSwitchDirective body loc <|>
      s.dispatchMessageDirective name argument loc <|>
      s.dispatchConditionalDirective name argument loc <|>
      s.dispatchIncludeDirective fs name argument loc <|>
      s.dispatchSwitchDirective name argument loc adjacent <|>
      s.dispatchIgnoredDirective name loc
  handled.getD (s.emitError loc .warn_directive_unknown [name])

/-- Where the body of a directive begins, behind its opening delimiter and the `$`. -/
def bodyStart (s : Scanner) (braced : Bool) : Nat := s.pos + (opener braced).length + 1

/-- The search for the end of a live directive. -/
def seekDirective (s : Scanner) (braced : Bool) : Sought :=
  seekCloser braced s.includeStack (s.moveTo (s.bodyStart braced)) [] false

/-- A live directive; the text begins with its opening delimiter and `$`. -/
def skipDirective (fs : FileSystem) (s : Scanner) (braced : Bool) : Scanner :=
  let sought := s.seekDirective braced
  match sought.body with
  | some body => sought.scanner.dispatchDirective fs body (s.locAt (s.bodyStart braced))
  | none => sought.scanner.reportUnclosed (s.locAt s.pos) braced sought.sawOtherCloser

/-- The innermost conditional never ends. -/
def abandonConditional (s : Scanner) : Scanner :=
  match s.condStack with
  | [] => { s with skipDepth := none }
  | frame :: frames =>
      { s.emitError frame.openLoc .err_directive_unterminated_conditional [frame.openName] with
        condStack := frames
        skipDepth := none }

/-- `{$ELSE}` or `{$ELSEIF}` of the conditional whose branch is being skipped. -/
def deadAlternative (s : Scanner) (isElse : Bool) (name argument : Text) (loc : Nat) :
    Scanner :=
  match s.condStack with
  | [] => s
  | frame :: frames =>
      if frame.seenElse then
        s.emitError loc .err_directive_else_already_seen [name]
      else if isElse then
        { s with
          condStack := { frame with seenElse := true, anyBranchTaken := true } :: frames
          skipDepth := if frame.anyBranchTaken then s.skipDepth else none }
      else if frame.anyBranchTaken then
        s
      else if looksLikeIdentifier argument then
        if s.isDefined argument then
          { s with
            condStack := { frame with anyBranchTaken := true } :: frames
            skipDepth := none }
        else
          s
      else
        s.emitError loc .err_directive_expects_symbol [name]

/-- A directive of a dead branch. -/
def deadDirective (s : Scanner) (depth : Nat) (body : Text) (loc : Nat) : Scanner :=
  let (name, argument, _) := splitDirectiveBody body
  let folded := toLower name
  if folded = "ifdef".toList ∨ folded = "ifndef".toList ∨ folded = "ifopt".toList then
    { s with skipDepth := some (depth + 1) }
  else if folded = "endif".toList then
    if 0 < depth then { s with skipDepth := some (depth - 1) }
    else { s with condStack := s.condStack.tail, skipDepth := none }
  else if 0 < depth then
    s
  else if folded = "else".toList then
    s.deadAlternative true name argument loc
  else if folded = "elseif".toList then
    s.deadAlternative false name argument loc
  else
    s

/-- The body of a directive in a dead branch, which ends in the same buffer. -/
def rawDirectiveBody (s : Scanner) (braced : Bool) : Option Text :=
  findCloser braced (s.rest.drop ((opener braced).length + 1))

/-- One turn of the raw scan over a dead branch. -/
def skipToNextConditionalMarker (s : Scanner) (depth : Nat) : Scanner :=
  match s.rest with
  | [] => s.popInclude.getD s.abandonConditional
  | c :: after =>
      if c = '\'' then
        s.advance (((closingQuote after).getD 0) + 1)
      else if s.opts.turbo && c == '/' && after.head? == some '/' then
        s.advance (s.rest.takeWhile (· != '\n')).length
      else
        match directiveOpener s.rest with
        | none => s.advance 1
        | some braced =>
            match s.rawDirectiveBody braced with
            | none => (s.advance s.rest.length).abandonConditional
            | some body =>
                (s.moveTo (s.bodyStart braced + body.length + (closer braced).length)).deadDirective
                  depth body (s.locAt (s.bodyStart braced))

/-- Report the conditionals that are open at the end of the text, outermost first. -/
def reportUnterminatedConditionals (s : Scanner) : Scanner :=
  { s with
    diags := s.diags ++ s.condStack.reverse.map fun frame =>
      ⟨frame.openLoc, .err_directive_unterminated_conditional, [frame.openName]⟩
    condStack := [] }

end Scanner

end Plang
