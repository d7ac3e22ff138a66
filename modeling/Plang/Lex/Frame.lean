import Plang.Lex.Next

/-!
# What an operation of the scanner can change

Most operations stay in their buffer and leave the switches alone.  The others leave an include,
enter one or set switches.
-/

namespace Plang

namespace Scanner

/-- The scanner stays in its buffer, goes forward at most, and keeps its switches. -/
structure Keeps (before after : Scanner) : Prop where
  opts : after.opts = before.opts
  sm : after.sm = before.sm
  fid : after.fid = before.fid
  text : after.text = before.text
  includeStack : after.includeStack = before.includeStack
  openIncludePaths : after.openIncludePaths = before.openIncludePaths
  switches : after.switches = before.switches
  currentSwitchState : after.currentSwitchState = before.currentSwitchState
  pos_le : before.pos ≤ after.pos

namespace Keeps

theorem refl (s : Scanner) : Keeps s s := ⟨rfl, rfl, rfl, rfl, rfl, rfl, rfl, rfl, le_rfl⟩

theorem trans {first second third : Scanner} (left : Keeps first second)
    (right : Keeps second third) : Keeps first third :=
  ⟨right.opts.trans left.opts, right.sm.trans left.sm, right.fid.trans left.fid,
    right.text.trans left.text, right.includeStack.trans left.includeStack,
    right.openIncludePaths.trans left.openIncludePaths, right.switches.trans left.switches,
    right.currentSwitchState.trans left.currentSwitchState, left.pos_le.trans right.pos_le⟩

theorem moveTo {s : Scanner} {pos : Nat} (forward : s.pos ≤ pos) : Keeps s (s.moveTo pos) :=
  ⟨rfl, rfl, rfl, rfl, rfl, rfl, rfl, rfl, forward⟩

theorem advance (s : Scanner) (width : Nat) : Keeps s (s.advance width) :=
  moveTo (Nat.le_add_right _ _)

theorem switchState {before after : Scanner} (keeps : Keeps before after) :
    after.switchState = before.switchState := by
  simp only [Scanner.switchState, keeps.switches, keeps.currentSwitchState, keeps.opts]

theorem locAt {before after : Scanner} (keeps : Keeps before after) (offset : Nat) :
    after.locAt offset = before.locAt offset := by
  simp only [Scanner.locAt, keeps.sm, keeps.fid]

end Keeps

/-- The scanner stays where it is and keeps its switches. -/
structure Stays (before after : Scanner) : Prop extends Keeps before after where
  pos_eq : after.pos = before.pos

namespace Stays

theorem refl (s : Scanner) : Stays s s := ⟨.refl s, rfl⟩

theorem trans {first second third : Scanner} (left : Stays first second)
    (right : Stays second third) : Stays first third :=
  ⟨left.toKeeps.trans right.toKeeps, right.pos_eq.trans left.pos_eq⟩

theorem rest {before after : Scanner} (stays : Stays before after) : after.rest = before.rest := by
  simp only [Scanner.rest, stays.text, stays.pos_eq]

theorem emitError (s : Scanner) (loc : Nat) (id : DiagID) (args : List Text) :
    Stays s (s.emitError loc id args) :=
  ⟨⟨rfl, rfl, rfl, rfl, rfl, rfl, rfl, rfl, le_rfl⟩, rfl⟩

theorem reportUnclosed (s : Scanner) (loc : Nat) (braced sawOther : Bool) :
    Stays s (s.reportUnclosed loc braced sawOther) := by
  unfold Scanner.reportUnclosed
  split <;> exact emitError ..

theorem pushConditional (s : Scanner) (condition : Bool) (name : Text) (loc : Nat) :
    Stays s (s.pushConditional condition name loc) :=
  ⟨⟨rfl, rfl, rfl, rfl, rfl, rfl, rfl, rfl, le_rfl⟩, rfl⟩

theorem defineSymbol (s : Scanner) (define : Bool) (name argument : Text) (loc : Nat) :
    Stays s (s.defineSymbol define name argument loc) := by
  unfold Scanner.defineSymbol
  split
  · exact ⟨⟨rfl, rfl, rfl, rfl, rfl, rfl, rfl, rfl, le_rfl⟩, rfl⟩
  · exact emitError ..

theorem ifSymbol (s : Scanner) (wanted : Bool) (name argument : Text) (loc : Nat) :
    Stays s (s.ifSymbol wanted name argument loc) := by
  unfold Scanner.ifSymbol
  split
  · exact pushConditional ..
  · exact (emitError ..).trans (pushConditional ..)

theorem ifOption (s : Scanner) (name argument : Text) (loc : Nat) :
    Stays s (s.ifOption name argument loc) := by
  unfold Scanner.ifOption
  split
  · exact pushConditional ..
  · exact (emitError ..).trans (pushConditional ..)

theorem leaveBranch (s : Scanner) (isElse : Bool) (name : Text) (loc : Nat) :
    Stays s (s.leaveBranch isElse name loc) := by
  unfold Scanner.leaveBranch
  split
  · exact emitError ..
  · split
    · exact emitError ..
    · exact ⟨⟨rfl, rfl, rfl, rfl, rfl, rfl, rfl, rfl, le_rfl⟩, rfl⟩

theorem closeConditional (s : Scanner) (name : Text) (loc : Nat) :
    Stays s (s.closeConditional name loc) := by
  unfold Scanner.closeConditional
  split
  · exact emitError ..
  · exact ⟨⟨rfl, rfl, rfl, rfl, rfl, rfl, rfl, rfl, le_rfl⟩, rfl⟩

theorem dispatchMessageDirective {s after : Scanner} {name argument : Text} {loc : Nat}
    (handled : s.dispatchMessageDirective name argument loc = some after) : Stays s after := by
  obtain ⟨entry, _, rfl⟩ := Option.map_eq_some_iff.mp handled
  exact emitError ..

theorem dispatchConditionalDirective {s after : Scanner} {name argument : Text} {loc : Nat}
    (handled : s.dispatchConditionalDirective name argument loc = some after) :
    Stays s after := by
  unfold Scanner.dispatchConditionalDirective at handled
  simp only at handled
  split_ifs at handled <;> obtain rfl := Option.some.inj handled
  · exact defineSymbol ..
  · exact defineSymbol ..
  · exact ifSymbol ..
  · exact ifSymbol ..
  · exact ifOption ..
  · exact leaveBranch ..
  · exact leaveBranch ..
  · exact closeConditional ..

theorem dispatchIgnoredDirective {s after : Scanner} {name : Text} {loc : Nat}
    (handled : s.dispatchIgnoredDirective name loc = some after) : Stays s after := by
  unfold Scanner.dispatchIgnoredDirective at handled
  split_ifs at handled
  obtain rfl := Option.some.inj handled
  exact emitError ..

theorem abandonConditional (s : Scanner) : Stays s s.abandonConditional := by
  unfold Scanner.abandonConditional
  split <;> exact ⟨⟨rfl, rfl, rfl, rfl, rfl, rfl, rfl, rfl, le_rfl⟩, rfl⟩

theorem deadAlternative (s : Scanner) (isElse : Bool) (name argument : Text) (loc : Nat) :
    Stays s (s.deadAlternative isElse name argument loc) := by
  unfold Scanner.deadAlternative
  split
  · exact refl s
  · split_ifs
    all_goals first
      | exact refl s
      | exact emitError ..
      | exact ⟨⟨rfl, rfl, rfl, rfl, rfl, rfl, rfl, rfl, le_rfl⟩, rfl⟩

theorem deadDirective (s : Scanner) (depth : Nat) (body : Text) (loc : Nat) :
    Stays s (s.deadDirective depth body loc) := by
  unfold Scanner.deadDirective
  simp only
  split_ifs
  all_goals first
    | exact refl s
    | exact deadAlternative ..
    | exact ⟨⟨rfl, rfl, rfl, rfl, rfl, rfl, rfl, rfl, le_rfl⟩, rfl⟩

theorem reportUnterminatedConditionals (s : Scanner) :
    Stays s s.reportUnterminatedConditionals :=
  ⟨⟨rfl, rfl, rfl, rfl, rfl, rfl, rfl, rfl, le_rfl⟩, rfl⟩

theorem allowCaretControlCharNext (s : Scanner) : Stays s s.allowCaretControlCharNext :=
  ⟨⟨rfl, rfl, rfl, rfl, rfl, rfl, rfl, rfl, le_rfl⟩, rfl⟩

theorem returned (allow : Nat → Bool) (s : Scanner) (tokens : List Token) :
    Stays s (Session.returned allow s tokens).scanner := by
  unfold Session.returned
  simp only
  split
  · exact allowCaretControlCharNext s
  · exact refl s

end Stays

namespace Keeps

theorem skipCommentISO (s : Scanner) (braced : Bool) : Keeps s (s.skipCommentISO braced) := by
  unfold Scanner.skipCommentISO
  simp only
  split
  · exact advance ..
  · exact (advance ..).trans (Stays.emitError ..).toKeeps

theorem skipLineComment (s : Scanner) : Keeps s s.skipLineComment := advance ..

theorem returnToken (s : Scanner) : Keeps s s.returnToken.1 := by
  unfold Scanner.returnToken
  simp only
  split <;> exact ⟨rfl, rfl, rfl, rfl, rfl, rfl, rfl, rfl, Nat.le_add_right _ _⟩

end Keeps

/-- Set switches one after the other. -/
def applySwitches (s : Scanner) (changes : List (Switch × Bool)) (loc : Nat) : Scanner :=
  changes.foldl (fun s change => s.applySwitch change.1 change.2 loc) s

/-- The name of the file that a directive with this body includes: the body is no list of switches,
its name is that of the include, and its argument is no sign and not empty. -/
def includeName (body : Text) : Option Text :=
  let (name, argument, _) := splitDirectiveBody body
  if multiSwitches body = none ∧ isInclude name argument = true ∧ unquote argument ≠ [] then
    some (unquote argument)
  else
    none

/-- A directive with this body includes a file that can be opened. -/
structure Includes (fs : FileSystem) (s : Scanner) (body path : Text) (fid : Nat)
    (sm : SourceManager) : Prop where
  resolved : (includeName body).bind (s.resolveIncludePath fs) = some path
  not_open : canonicalIdentity fs path ∉ s.openIncludePaths
  added : s.sm.addFile fs path = some (fid, sm)

theorem openInclude_cases (fs : FileSystem) (s : Scanner) (filename : Text) (loc : Nat) :
    Stays s (s.openInclude fs filename loc) ∨
      ∃ path fid sm, s.resolveIncludePath fs filename = some path ∧
        canonicalIdentity fs path ∉ s.openIncludePaths ∧ s.sm.addFile fs path = some (fid, sm) ∧
        s.openInclude fs filename loc = s.enterInclude fid sm (canonicalIdentity fs path) := by
  unfold openInclude
  split
  case h_1 => exact .inl (Stays.emitError ..)
  case h_2 path resolved =>
    simp only
    split_ifs with already_open
    · exact .inl (Stays.emitError ..)
    · split
      case h_1 => exact .inl (Stays.emitError ..)
      case h_2 fid sm added =>
        exact .inr ⟨path, fid, sm, resolved, by simpa using already_open, added, rfl⟩

/-- A directive keeps the scanner where it is, enters an include or sets switches. -/
theorem dispatchDirective_cases (fs : FileSystem) (s : Scanner) (body : Text) (loc : Nat) :
    Stays s (s.dispatchDirective fs body loc) ∨
      (∃ path fid sm, Includes fs s body path fid sm ∧
        s.dispatchDirective fs body loc = s.enterInclude fid sm (canonicalIdentity fs path)) ∨
      ∃ changes, bodySwitches body = some changes ∧
        s.dispatchDirective fs body loc = s.applySwitches changes loc := by
  unfold dispatchDirective bodySwitches
  rcases body_split : splitDirectiveBody body with ⟨name, argument, adjacent⟩
  simp only
  cases multi : s.dispatchMultiSwitchDirective body loc with
  | some after =>
      obtain ⟨changes, parsed, rfl⟩ := Option.map_eq_some_iff.mp multi
      exact .inr (.inr ⟨changes, by simp [parsed], rfl⟩)
  | none =>
      have not_multi : multiSwitches body = none := Option.map_eq_none_iff.mp multi
      cases message : s.dispatchMessageDirective name argument loc with
      | some after => exact .inl (Stays.dispatchMessageDirective message)
      | none =>
          cases conditional : s.dispatchConditionalDirective name argument loc with
          | some after => exact .inl (Stays.dispatchConditionalDirective conditional)
          | none =>
              cases inclusion : s.dispatchIncludeDirective fs name argument loc with
              | some after =>
                  unfold dispatchIncludeDirective at inclusion
                  split_ifs at inclusion with unnamed filename_ne <;>
                    obtain rfl := Option.some.inj inclusion
                  · exact .inl (Stays.emitError ..)
                  · rcases openInclude_cases fs s (unquote argument) loc with stays |
                      ⟨path, fid, sm, resolved, not_open, added, entered⟩
                    · exact .inl stays
                    · have named : includeName body = some (unquote argument) := by
                        unfold includeName
                        rw [body_split]
                        exact if_pos ⟨not_multi, by simpa using unnamed, by simpa using filename_ne⟩
                      exact .inr (.inl ⟨path, fid, sm,
                        ⟨by rw [named]; exact resolved, not_open, added⟩, entered⟩)
              | none =>
                  cases switch : s.dispatchSwitchDirective name argument loc adjacent with
                  | some after =>
                      obtain ⟨change, parsed, rfl⟩ := Option.map_eq_some_iff.mp switch
                      exact .inr (.inr ⟨[change], by simp [not_multi, parsed], rfl⟩)
                  | none =>
                      cases ignored : s.dispatchIgnoredDirective name loc with
                      | some after => exact .inl (Stays.dispatchIgnoredDirective ignored)
                      | none => exact .inl (Stays.emitError ..)

/-- One turn of the raw scan stays in its buffer or leaves an include at its end. -/
theorem skipToNextConditionalMarker_cases (s : Scanner) (depth : Nat) :
    Keeps s (s.skipToNextConditionalMarker depth) ∨
      ∃ frame frames, s.rest = [] ∧ s.includeStack = frame :: frames ∧
        s.skipToNextConditionalMarker depth = s.resume frame frames := by
  unfold skipToNextConditionalMarker
  split
  case h_1 rest_nil =>
    unfold popInclude
    split
    case h_1 => exact .inl (Stays.abandonConditional s).toKeeps
    case h_2 frame frames stack_eq => exact .inr ⟨frame, frames, rest_nil, stack_eq, rfl⟩
  case h_2 c after _ =>
    refine .inl ?_
    split_ifs
    · exact Keeps.advance ..
    · exact Keeps.advance ..
    · split
      case h_1 => exact Keeps.advance ..
      case h_2 braced _ =>
        split
        case h_1 => exact (Keeps.advance ..).trans (Stays.abandonConditional _).toKeeps
        case h_2 body _ =>
          refine (Keeps.moveTo ?_).trans (Stays.deadDirective ..).toKeeps
          unfold bodyStart
          omega

/-- No file has been opened. -/
structure SameFiles (before after : Scanner) : Prop where
  opts : after.opts = before.opts
  sm : after.sm = before.sm
  stack : before.includeStack = [] → after.includeStack = []

namespace SameFiles

theorem of_keeps {before after : Scanner} (keeps : Keeps before after) : SameFiles before after :=
  ⟨keeps.opts, keeps.sm, fun stack_nil => keeps.includeStack.trans stack_nil⟩

theorem trans {first second third : Scanner} (left : SameFiles first second)
    (right : SameFiles second third) : SameFiles first third :=
  ⟨right.opts.trans left.opts, right.sm.trans left.sm, fun stack_nil =>
    right.stack (left.stack stack_nil)⟩

theorem resume {s : Scanner} {frame : IncludeFrame} {frames : List IncludeFrame}
    (stack_eq : s.includeStack = frame :: frames) : SameFiles s (s.resume frame frames) :=
  ⟨rfl, rfl, fun stack_nil => by simp [stack_eq] at stack_nil⟩

/-- No file is opened on the way to a closing delimiter. -/
theorem seekCloser (braced : Bool) (stack : List IncludeFrame) {s : Scanner}
    (stack_eq : s.includeStack = stack) (body : Text) (sawOther : Bool) :
    SameFiles s (seekCloser braced stack s body sawOther).scanner := by
  induction stack generalizing s body sawOther with
  | nil =>
      unfold Scanner.seekCloser
      split <;> exact of_keeps (.advance ..)
  | cons frame frames induction =>
      unfold Scanner.seekCloser
      split
      · exact of_keeps (.advance ..)
      · exact (resume stack_eq).trans (induction rfl _ _)

theorem applySwitches (s : Scanner) (changes : List (Switch × Bool)) (loc : Nat) :
    SameFiles s (s.applySwitches changes loc) := by
  unfold Scanner.applySwitches
  induction changes generalizing s with
  | nil => exact of_keeps (.refl s)
  | cons change changes induction =>
      have first : SameFiles s (s.applySwitch change.1 change.2 loc) := ⟨rfl, rfl, id⟩
      exact first.trans (induction _)

theorem skipComment (s : Scanner) (braced : Bool) : SameFiles s (s.skipComment braced) := by
  unfold Scanner.skipComment
  split
  · have opened : SameFiles s (s.advance (opener braced).length) := of_keeps (.advance ..)
    have sought := opened.trans
      (seekCloser braced s.includeStack (s := s.advance (opener braced).length) rfl [] false)
    unfold skipCommentTurbo
    simp only
    split
    · exact sought
    · exact sought.trans (of_keeps (Stays.reportUnclosed ..).toKeeps)
  · exact of_keeps (.skipCommentISO ..)

end SameFiles

theorem trivia_directive {opts : LangOptions} {text : Text} {braced : Bool}
    (opens : trivia opts text = some (.directive braced)) :
    opts.turbo = true ∧ directiveOpener text = some braced := by
  cases text with
  | nil => cases opens
  | cons c rest =>
      unfold trivia at opens
      simp only at opens
      split_ifs at opens with brace dollar paren dollar
      all_goals cases opens
      · have both : opts.turbo = true ∧ rest.head? = some '$' := by simpa using dollar
        exact ⟨both.1, by simp [directiveOpener, brace, both.2]⟩
      · have both : opts.turbo = true ∧ (rest.drop 1).head? = some '$' := by
          simpa only [Bool.and_eq_true, beq_iff_eq] using dollar
        exact ⟨both.1, by simp only [directiveOpener, paren, both.2]; simp⟩

/-- A file has been added, which only Turbo Pascal does. -/
structure AddsFile (fs : FileSystem) (before after : Scanner) : Prop where
  turbo : before.opts.turbo = true
  opts : after.opts = before.opts
  added : ∃ path fid, before.sm.addFile fs path = some (fid, after.sm)

theorem skipDirective_files (fs : FileSystem) (s : Scanner) (braced : Bool)
    (turbo : s.opts.turbo = true) :
    SameFiles s (s.skipDirective fs braced) ∨ AddsFile fs s (s.skipDirective fs braced) := by
  have opened : SameFiles s (s.moveTo (s.bodyStart braced)) := ⟨rfl, rfl, id⟩
  have sought : SameFiles s (s.seekDirective braced).scanner :=
    opened.trans
      (.seekCloser braced s.includeStack (s := s.moveTo (s.bodyStart braced)) rfl [] false)
  unfold skipDirective
  simp only
  split
  case h_1 body _ =>
    rcases dispatchDirective_cases fs (s.seekDirective braced).scanner body
        (s.locAt (s.bodyStart braced)) with stays | ⟨path, fid, sm, includes, entered⟩ |
        ⟨changes, _, applied⟩
    · exact .inl (sought.trans (.of_keeps stays.toKeeps))
    · rw [entered]
      exact .inr ⟨turbo, sought.opts, path, fid, by rw [← sought.sm]; exact includes.added⟩
    · rw [applied]
      exact .inl (sought.trans (.applySwitches ..))
  case h_2 => exact .inl (sought.trans (.of_keeps (Stays.reportUnclosed ..).toKeeps))

/-- A turn opens at most one file. -/
theorem step_files (fs : FileSystem) (s : Scanner) :
    SameFiles s (s.step fs).1 ∨ AddsFile fs s (s.step fs).1 := by
  unfold step
  split
  case h_1 depth _ =>
    rcases s.skipToNextConditionalMarker_cases depth with keeps |
      ⟨frame, frames, _, stack_eq, resumed⟩
    · exact .inl (.of_keeps keeps)
    · rw [resumed]
      exact .inl (.resume stack_eq)
  case h_2 =>
    split
    case h_1 =>
      cases stack_eq : s.includeStack with
      | nil =>
          simp only [popInclude, stack_eq]
          exact .inl (.of_keeps (Stays.reportUnterminatedConditionals s).toKeeps)
      | cons frame frames =>
          simp only [popInclude, stack_eq]
          exact .inl (.resume stack_eq)
    case h_2 =>
      split_ifs
      · exact .inl (.of_keeps (.advance ..))
      · split
        case h_1 braced opens => exact skipDirective_files fs s braced (trivia_directive opens).1
        case h_2 => exact .inl (.skipComment ..)
        case h_3 => exact .inl (.of_keeps (.skipLineComment s))
        case h_4 => exact .inl (.of_keeps (.returnToken s))

end Scanner

end Plang
