import Plang.Lex.Locality
import Plang.Lex.Reader

/-!
# The scanner refines the reader

Every operation of the scanner changes what the text has established as the reader's does; where the
scanner goes from one file to another it keeps what has been established.
-/

namespace Plang

namespace Scanner

/-- The control of the scanner, without the places in its buffers. -/
def control (s : Scanner) : Control where
  prevKind := s.prevKind
  forceExprStartOnce := s.forceExprStartOnce
  conditionals := s.condStack.map fun frame => (frame.anyBranchTaken, frame.seenElse)
  currentDefines := s.currentDefines
  switchState := s.switchState
  skipDepth := s.skipDepth

@[simp] theorem control_moveTo (s : Scanner) (pos : Nat) : (s.moveTo pos).control = s.control := rfl

@[simp] theorem control_advance (s : Scanner) (width : Nat) :
    (s.advance width).control = s.control := rfl

@[simp] theorem control_emitError (s : Scanner) (loc : Nat) (id : DiagID) (args : List Text) :
    (s.emitError loc id args).control = s.control := rfl

@[simp] theorem switchState_recordBoundary (s : Scanner) :
    s.recordBoundary.switchState = s.switchState := by
  simp [recordBoundary, switchState]

@[simp] theorem control_resume (s : Scanner) (frame : IncludeFrame) (frames : List IncludeFrame) :
    (s.resume frame frames).control = s.control := by
  simp only [resume, control, switchState_recordBoundary]
  rfl

@[simp] theorem control_enterInclude (s : Scanner) (fid : Nat) (sm : SourceManager)
    (identity : Text) : (s.enterInclude fid sm identity).control = s.control := by
  simp only [enterInclude, control, switchState_recordBoundary]
  rfl

@[simp] theorem control_reportUnclosed (s : Scanner) (loc : Nat) (braced sawOther : Bool) :
    (s.reportUnclosed loc braced sawOther).control = s.control := by
  unfold reportUnclosed
  split <;> rfl

@[simp] theorem control_openInclude (fs : FileSystem) (s : Scanner) (filename : Text) (loc : Nat) :
    (s.openInclude fs filename loc).control = s.control := by
  unfold openInclude
  split
  · rfl
  · simp only
    split
    · rfl
    · split
      · rfl
      · exact control_enterInclude ..

@[simp] theorem control_seekCloser (braced : Bool) (stack : List IncludeFrame) (s : Scanner)
    (body : Text) (sawOther : Bool) :
    (seekCloser braced stack s body sawOther).scanner.control = s.control := by
  induction stack generalizing s body sawOther with
  | nil =>
      unfold seekCloser
      split <;> rfl
  | cons frame frames induction =>
      unfold seekCloser
      split
      · rfl
      · rw [induction, control_resume]

theorem control_applySwitches (s : Scanner) (changes : List (Switch × Bool)) (loc : Nat) :
    (changes.foldl (fun s change => s.applySwitch change.1 change.2 loc) s).control =
      s.control.applySwitches changes := by
  induction changes generalizing s with
  | nil => rfl
  | cons change changes induction => exact induction (s.applySwitch change.1 change.2 loc)

theorem control_defineSymbol (s : Scanner) (define : Bool) (name argument : Text) (loc : Nat) :
    (s.defineSymbol define name argument loc).control = s.control.defineSymbol define argument := by
  unfold defineSymbol Control.defineSymbol
  split <;> rfl

theorem control_ifSymbol (s : Scanner) (wanted : Bool) (name argument : Text) (loc : Nat) :
    (s.ifSymbol wanted name argument loc).control =
      s.control.pushConditional (s.control.symbolCondition wanted argument) := by
  unfold ifSymbol Control.symbolCondition
  by_cases symbol : looksLikeIdentifier argument
  · simp only [symbol, if_true, Bool.true_and]
    rfl
  · simp only [symbol, if_false, Bool.false_and, Bool.false_eq_true]
    rfl

theorem control_ifOption (s : Scanner) (name argument : Text) (loc : Nat) :
    (s.ifOption name argument loc).control =
      s.control.pushConditional (s.control.optionCondition argument) := by
  unfold ifOption Control.optionCondition
  cases ifoptSwitch argument <;> rfl

theorem control_leaveBranch (s : Scanner) (isElse : Bool) (name : Text) (loc : Nat) :
    (s.leaveBranch isElse name loc).control = s.control.leaveBranch isElse := by
  cases stack_eq : s.condStack with
  | nil => simp [leaveBranch, Control.leaveBranch, control, stack_eq, emitError, switchState]
  | cons frame frames =>
      cases seen : frame.seenElse <;>
        simp [leaveBranch, Control.leaveBranch, control, stack_eq, seen, emitError, switchState]

theorem control_closeConditional {s : Scanner} (live : s.skipDepth = none) (name : Text)
    (loc : Nat) : (s.closeConditional name loc).control = s.control.closeConditional := by
  cases stack_eq : s.condStack <;>
    simp [closeConditional, Control.closeConditional, control, stack_eq, emitError, switchState, live]

/-- Conditional directives are claimed by the scanner and the reader alike. -/
theorem control_dispatchConditionalDirective {s : Scanner} (live : s.skipDepth = none)
    (name argument : Text) (loc : Nat) :
    (s.dispatchConditionalDirective name argument loc).map control =
      s.control.onConditional name argument := by
  unfold dispatchConditionalDirective Control.onConditional
  simp only [apply_ite (Option.map control), Option.map_some, Option.map_none,
    control_defineSymbol, control_ifSymbol, control_ifOption, control_leaveBranch,
    control_closeConditional live]

/-- A live directive establishes the same wherever its files are. -/
theorem control_dispatchDirective (fs : FileSystem) (s : Scanner) (live : s.skipDepth = none)
    (body : Text) (loc : Nat) :
    (s.dispatchDirective fs body loc).control = s.control.onDirective body := by
  unfold dispatchDirective Control.onDirective
  obtain ⟨name, argument, adjacent⟩ := splitDirectiveBody body
  simp only
  cases multi : multiSwitches body with
  | some changes =>
      rw [show s.dispatchMultiSwitchDirective body loc = some _ from
        congrArg (Option.map _) multi]
      exact control_applySwitches ..
  | none =>
      rw [show s.dispatchMultiSwitchDirective body loc = none from congrArg (Option.map _) multi]
      cases message : MessageDirectives.find? fun entry => entry.1.toList == toLower name with
      | some entry =>
          have named : MessageDirectives.any fun entry => entry.1.toList == toLower name :=
            List.any_eq_true.mpr ⟨entry, List.mem_of_find?_eq_some message, by
              simpa using List.find?_some message⟩
          rw [show s.dispatchMessageDirective name argument loc = some _ from
            congrArg (Option.map _) message, if_pos named]
          rfl
      | none =>
          have unnamed : ¬ MessageDirectives.any fun entry => entry.1.toList == toLower name := by
            simpa using List.find?_eq_none.mp message
          rw [show s.dispatchMessageDirective name argument loc = none from
            congrArg (Option.map _) message, if_neg unnamed]
          have claimed := control_dispatchConditionalDirective live name argument loc
          cases conditional : s.dispatchConditionalDirective name argument loc with
          | some after =>
              rw [conditional] at claimed
              rw [← claimed]
              rfl
          | none =>
              rw [conditional] at claimed
              rw [← claimed]
              unfold dispatchIncludeDirective
              cases inclusion : isInclude name argument with
              | true =>
                  by_cases unnamed : (unquote argument).isEmpty
                  · simp [unnamed]
                  · simp [unnamed]
              | false =>
                  unfold dispatchSwitchDirective
                  cases switch : directiveSwitch name argument adjacent with
                  | some change => rfl
                  | none =>
                      unfold dispatchIgnoredDirective
                      by_cases known :
                          IgnoredDirectiveNames.any fun known => known.toList == toLower name
                      · rw [if_pos known]
                        rfl
                      · rw [if_neg known]
                        rfl

@[simp] theorem control_abandonConditional (s : Scanner) :
    s.abandonConditional.control = s.control.closeConditional := by
  cases stack_eq : s.condStack <;>
    simp [abandonConditional, Control.closeConditional, control, stack_eq, emitError, switchState]

theorem control_deadAlternative (s : Scanner) (isElse : Bool) (name argument : Text) (loc : Nat) :
    (s.deadAlternative isElse name argument loc).control =
      s.control.deadAlternative isElse argument := by
  cases stack_eq : s.condStack with
  | nil => simp [deadAlternative, Control.deadAlternative, control, stack_eq]
  | cons frame frames =>
      have conditionals_eq : s.control.conditionals = (frame.anyBranchTaken, frame.seenElse) ::
          frames.map fun frame => (frame.anyBranchTaken, frame.seenElse) := by
        simp [control, stack_eq]
      have defined : s.control.isDefined argument = s.isDefined argument := rfl
      unfold deadAlternative Control.deadAlternative Control.symbolCondition
      rw [conditionals_eq, stack_eq, defined]
      simp only
      split_ifs with seen last taken symbol <;> simp_all [control, switchState, emitError]

theorem control_deadDirective (s : Scanner) (depth : Nat) (body : Text) (loc : Nat) :
    (s.deadDirective depth body loc).control = s.control.onDeadDirective depth body := by
  unfold deadDirective Control.onDeadDirective
  obtain ⟨name, argument, _⟩ := splitDirectiveBody body
  simp only
  split_ifs
  · rfl
  · rfl
  · simp [control, Control.closeConditional, switchState]
  · rfl
  · exact control_deadAlternative ..
  · exact control_deadAlternative ..
  · rfl

end Scanner

end Plang
