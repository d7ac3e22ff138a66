import Mathlib.Data.List.TakeWhile
import Plang.Lex.DirectiveBody

/-!
# The scanner's state

Everything the scanner keeps from one token to the next, and the elementary operations on it.
-/

namespace Plang

/-- A file that has been left for an include and will be resumed. -/
structure IncludeFrame where
  /-- Its buffer. -/
  fid : Nat
  /-- Its text. -/
  text : Text
  /-- Where scanning goes on. -/
  pos : Nat

/-- A conditional whose `{$ENDIF}` has not been scanned yet. -/
structure CondFrame where
  /-- Some branch of the chain has been live. -/
  anyBranchTaken : Bool
  /-- The chain's `{$ELSE}` has been seen. -/
  seenElse : Bool := false
  /-- Where the opening directive is. -/
  openLoc : Nat
  /-- Its name as spelled there. -/
  openName : Text

/-- The scanner.  Both stacks have their innermost entry first. -/
structure Scanner where
  /-- Dialect and warning options. -/
  opts : LangOptions
  /-- The owner of the text. -/
  sm : SourceManager
  /-- The buffer being scanned. -/
  fid : Nat := 0
  /-- That buffer's text, up to its end marker. -/
  text : Text := []
  /-- Index of the next character. -/
  pos : Nat := 0
  /-- The kind of the last token returned. -/
  prevKind : TokenKind := .Eof
  /-- The parser has said that an expression starts here. -/
  forceExprStartOnce : Bool := false
  /-- The open conditionals. -/
  condStack : List CondFrame := []
  /-- The defined symbols. -/
  currentDefines : List Text := []
  /-- The files waiting to be resumed. -/
  includeStack : List IncludeFrame := []
  /-- The identities of the open files. -/
  openIncludePaths : List Text := []
  /-- The table of switch changes, once there is one. -/
  switches : Option SwitchTable := none
  /-- The state the table was last recorded at. -/
  currentSwitchState : CompilerState := ⟨0#16⟩
  /-- What has been reported, oldest first. -/
  diags : List Diag := []
  /-- Inside a dead branch: the number of nested conditionals opened in it. -/
  skipDepth : Option Nat := none

namespace Scanner

/-- In Turbo Pascal a text ends before its first Ctrl-Z. -/
def truncateAtCtrlZ (text : Text) (opts : LangOptions) : Text :=
  if opts.turbo then text.takeWhile (· != '\x1a') else text

theorem length_truncateAtCtrlZ_le (text : Text) (opts : LangOptions) :
    (truncateAtCtrlZ text opts).length ≤ text.length := by
  unfold truncateAtCtrlZ
  split
  · exact (List.takeWhile_prefix _).length_le
  · exact le_rfl

theorem not_mem_truncateAtCtrlZ (text : Text) {opts : LangOptions} (turbo : opts.turbo = true) :
    '\x1a' ∉ truncateAtCtrlZ text opts := by
  intro member
  rw [truncateAtCtrlZ, if_pos turbo] at member
  simpa using List.mem_takeWhile_imp member

theorem truncateAtCtrlZ_eq_self {text : Text} {opts : LangOptions}
    (no_marker : opts.turbo = true → '\x1a' ∉ text) : truncateAtCtrlZ text opts = text := by
  unfold truncateAtCtrlZ
  split
  case isTrue turbo =>
    refine List.takeWhile_eq_self_iff.mpr fun c member => ?_
    rw [bne_iff_ne]
    rintro rfl
    exact no_marker turbo member
  case isFalse => rfl

/-- The text not read yet. -/
def rest (s : Scanner) : Text := s.text.drop s.pos

/-- The location of an offset in the buffer being scanned. -/
def locAt (s : Scanner) (offset : Nat) : Nat := s.sm.getLocForOffset s.fid offset

/-- Go on at another place of the buffer. -/
def moveTo (s : Scanner) (pos : Nat) : Scanner := { s with pos }

/-- Step over characters. -/
def advance (s : Scanner) (width : Nat) : Scanner := s.moveTo (s.pos + width)

@[simp] theorem rest_moveTo (s : Scanner) (pos : Nat) : (s.moveTo pos).rest = s.text.drop pos := rfl

@[simp] theorem rest_advance (s : Scanner) (width : Nat) :
    (s.advance width).rest = s.rest.drop width := by
  simp [advance, rest, moveTo]

/-- Report a diagnostic. -/
def emitError (s : Scanner) (loc : Nat) (id : DiagID) (args : List Text) : Scanner :=
  { s with diags := s.diags ++ [⟨loc, id, args⟩] }

/-- The switch state in force. -/
def switchState (s : Scanner) : CompilerState :=
  if s.switches.isSome then s.currentSwitchState else s.opts.defaultSwitches

/-- The boundary point that a change of buffer leaves in the table, when there is a table. -/
def recordBoundary (s : Scanner) : Scanner :=
  { s with switches := s.switches.map fun table => table.record (s.locAt s.pos) s.currentSwitchState }

/-- Go back to a file that was left for an include. -/
def resume (s : Scanner) (frame : IncludeFrame) (frames : List IncludeFrame) : Scanner :=
  recordBoundary
    { s with
      fid := frame.fid
      text := frame.text
      pos := frame.pos
      includeStack := frames
      openIncludePaths := s.openIncludePaths.dropLast }

/-- Leave an include at its end. -/
def popInclude (s : Scanner) : Option Scanner :=
  match s.includeStack with
  | [] => none
  | frame :: frames => some (s.resume frame frames)

/-- Set one switch from a place on; the first change makes the table. -/
def applySwitch (s : Scanner) (switch : Switch) (value : Bool) (loc : Nat) : Scanner :=
  let state := s.switchState.set switch value
  { s with
    switches := some ((s.switches.getD PointTable.empty).record loc state)
    currentSwitchState := state }

/-- The next token is known to start an expression. -/
def allowCaretControlCharNext (s : Scanner) : Scanner := { s with forceExprStartOnce := true }

/-- The identity a file is known under. -/
def canonicalIdentity (fs : FileSystem) (path : Text) : Text := (fs.canonical path).getD path

/-- A scanner that has read nothing yet, without a buffer. -/
def unopened (sm : SourceManager) (opts : LangOptions) : Scanner :=
  { opts, sm, currentDefines := opts.defines.map toLower }

/-- A scanner at the start of a buffer. -/
def atStart (sm : SourceManager) (opts : LangOptions) (fid : Nat) : Scanner :=
  { unopened sm opts with fid, text := truncateAtCtrlZ (sm.getBufferData fid) opts }

/-- A scanner over a file. -/
def ofFile (fs : FileSystem) (sm : SourceManager) (filename : Text) (opts : LangOptions) : Scanner :=
  match sm.addFile fs filename with
  | some (fid, sm) =>
      { atStart sm opts fid with openIncludePaths := [canonicalIdentity fs filename] }
  | none =>
      (unopened sm opts).emitError 0
        (if (fs.read filename).isSome then .err_source_too_large else .err_file_not_found)
        [filename]

/-- A scanner over text that is already in memory. -/
def ofBuffer (sm : SourceManager) (sourceName content : Text) (opts : LangOptions) : Scanner :=
  match sm.addBuffer sourceName content with
  | some (fid, sm) => atStart sm opts fid
  | none => (unopened sm opts).emitError 0 .err_source_too_large [sourceName]

end Scanner

end Plang
