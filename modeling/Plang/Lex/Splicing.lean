import Plang.Lex.Frame
import Plang.Lex.Refinement

/-!
# Includes are text

While an include is open, the scanner has before it the rest of the include, a line break, the rest
of the including file, and so on outwards.  A turn either takes the first part of this text away, or
puts a file in the place of a directive.  The reader of the spliced text follows the scanner turn by
turn.
-/

namespace Plang

namespace Scanner

/-- The rests of the files waiting to be resumed, each behind a line break. -/
def suspended (s : Scanner) : Text :=
  s.includeStack.flatMap fun frame => '\n' :: frame.text.drop frame.pos

/-- All the text that is still to be read, as far as it is known. -/
def unread (s : Scanner) : Text := s.rest ++ s.suspended

theorem endsLine_suspended (s : Scanner) : EndsLine s.suspended := by
  unfold suspended
  cases s.includeStack with
  | nil => exact endsLine_nil
  | cons frame frames => exact endsLine_cons _

theorem rest_bodyStart (s : Scanner) (braced : Bool) :
    (s.moveTo (s.bodyStart braced)).rest = s.rest.drop ((opener braced).length + 1) := by
  simp [bodyStart, rest, moveTo, Nat.add_assoc]

theorem Stays.unread {before after : Scanner} (stays : Stays before after) :
    after.unread = before.unread := by
  simp only [Scanner.unread, suspended, stays.rest, stays.includeStack]

theorem suspended_of_stack {s : Scanner} {frame : IncludeFrame} {frames : List IncludeFrame}
    (stack_eq : s.includeStack = frame :: frames) :
    s.suspended = '\n' :: (s.resume frame frames).unread := by
  simp [suspended, unread, rest, resume, recordBoundary, stack_eq]

theorem rest_past_closer {s : Scanner} {braced : Bool} {piece rest : Text}
    (rest_eq : s.rest = piece ++ closer braced ++ rest) :
    (s.advance (piece.length + (closer braced).length)).rest = rest := by
  rw [rest_advance, rest_eq, ← List.length_append, List.drop_left]

/-- The search for a closing delimiter goes through the unread text as through one text. -/
theorem seekCloser_unread (braced : Bool) (stack : List IncludeFrame) {s : Scanner}
    (stack_eq : s.includeStack = stack) (body : Text) (sawOther : Bool) :
    match (seekCloser braced stack s body sawOther).body with
    | some _ => ∃ inner, findCloser braced s.unread = some inner ∧
        s.unread = inner ++ closer braced ++ (seekCloser braced stack s body sawOther).scanner.unread
    | none => findCloser braced s.unread = none ∧
        (seekCloser braced stack s body sawOther).scanner.unread = [] := by
  induction stack generalizing s body sawOther with
  | nil =>
      have unread_eq : s.unread = s.rest := by simp [unread, suspended, stack_eq]
      have suspended_nil (width : Nat) : (s.advance width).suspended = [] := by
        simp [suspended, advance, moveTo, stack_eq]
      rw [unread_eq]
      unfold seekCloser
      cases found : findCloser braced s.rest with
      | none => exact ⟨rfl, by simp [unread, suspended_nil]⟩
      | some piece =>
          obtain ⟨rest, rest_eq⟩ := findCloser_eq_some found
          refine ⟨piece, rfl, ?_⟩
          simp only [unread, rest_past_closer rest_eq, suspended_nil, List.append_nil]
          exact rest_eq
  | cons frame frames induction =>
      have unread_eq : s.unread = s.rest ++ '\n' :: (s.resume frame frames).unread := by
        rw [unread, suspended_of_stack stack_eq]
      have newline := findCloser_newline braced s.rest (s.resume frame frames).unread
      rw [← unread_eq] at newline
      unfold seekCloser
      cases found : findCloser braced s.rest with
      | some piece =>
          obtain ⟨rest, rest_eq⟩ := findCloser_eq_some found
          refine ⟨piece, by simp [newline, found], ?_⟩
          have suspended_eq (width : Nat) : (s.advance width).suspended = s.suspended := rfl
          simp only [unread, rest_past_closer rest_eq, suspended_eq, ← List.append_assoc, ← rest_eq]
      | none =>
          have inner := induction (s := s.resume frame frames) rfl (body ++ s.rest)
            (sawOther || hasOtherCloser braced s.rest)
          simp only
          split at inner
          case h_1 text sought =>
            obtain ⟨piece, piece_found, split_eq⟩ := inner
            refine ⟨s.rest ++ '\n' :: piece, by simp [newline, found, piece_found], ?_⟩
            rw [unread_eq, split_eq]
            simp
          case h_2 unsought =>
            exact ⟨by simp [newline, found, inner.1], inner.2⟩

/-- Two texts agree on a first part, and the first one goes on with a directive where the second has
a line break or ends. -/
def AgreesBeyond (opts : LangOptions) (width : Nat) (text other : Text) : Prop :=
  text = other ∨ opts.turbo ∧ ∃ common braced rest after,
    text = common ++ (opener braced ++ '$' :: rest) ∧ other = common ++ after ∧ EndsLine after ∧
      width ≤ common.length

namespace AgreesBeyond

variable {opts : LangOptions}

theorem append {text other : Text} (agrees : AgreesBeyond opts 0 text other) (read : Text) :
    AgreesBeyond opts read.length (read ++ text) (read ++ other) := by
  rcases agrees with rfl | ⟨turbo, common, braced, rest, after, rfl, rfl, ends, _⟩
  · exact .inl rfl
  · exact .inr ⟨turbo, read ++ common, braced, rest, after, by simp, by simp, ends, by simp⟩

theorem mono {less width : Nat} {text other : Text} (agrees : AgreesBeyond opts width text other)
    (less_le : less ≤ width) : AgreesBeyond opts less text other := by
  rcases agrees with equal | ⟨turbo, common, braced, rest, after, before_eq, other_eq, ends, width_le⟩
  · exact .inl equal
  · exact .inr ⟨turbo, common, braced, rest, after, before_eq, other_eq, ends, less_le.trans width_le⟩

/-- What the agreement says about the file being scanned. -/
theorem file {width : Nat} {file suspended other : Text}
    (agrees : AgreesBeyond opts width (file ++ suspended) other) (ends : EndsLine suspended)
    (plain : opts.turbo = true ∨ suspended = []) (file_ne : file ≠ []) (width_pos : 0 < width) :
    ∃ common x y, file = common ++ x ∧ other = common ++ y ∧ common ≠ [] ∧
      min width file.length ≤ common.length ∧ StopsToken x ∧ EndsLine y ∧
      (opts.turbo = true ∨ x = y) := by
  rcases agrees with equal | ⟨turbo, common, braced, rest, after, split_eq, rfl, ends_after, width_le⟩
  · exact ⟨file, [], suspended, by simp, equal.symm, file_ne, by omega, stopsToken_nil, ends,
      plain.imp_right Eq.symm⟩
  · rcases List.append_eq_append_iff.mp split_eq with ⟨more, rfl, suspended_eq⟩ | ⟨x, rfl, tail_eq⟩
    · refine ⟨file, [], more ++ after, by simp, by simp, file_ne, by omega, stopsToken_nil, ?_,
        .inl turbo⟩
      intro c member
      cases more with
      | nil => exact ends_after c member
      | cons d more =>
          refine ends c ?_
          rw [suspended_eq]
          exact member
    · have common_ne : common ≠ [] := by
        rintro rfl
        simp at width_le
        omega
      refine ⟨common, x, after, rfl, rfl, common_ne, by omega, ?_, ends_after, .inl turbo⟩
      intro c member
      refine stopsToken_opener braced ('$' :: rest) c ?_
      rw [tail_eq]
      cases x with
      | nil => cases member
      | cons d x => exact member

/-- No directive follows behind the whole text. -/
theorem whole {text future : Text} (agrees : AgreesBeyond opts text.length text (text ++ future)) :
    future = [] := by
  rcases agrees with equal | ⟨_, common, braced, rest, after, split_eq, _, _, width_le⟩
  · simpa using equal
  · rw [split_eq] at width_le
    simp only [List.length_append, List.length_cons] at width_le
    omega

end AgreesBeyond

/-- A first part of a text is taken away, and `turn` takes it away from every text that agrees with
this one. -/
def Takes (opts : LangOptions) (before after : Text) (turn answer : Text → Reader) : Prop :=
  ∃ read, before = read ++ after ∧ (read = [] → before = []) ∧
    ∀ future, AgreesBeyond opts read.length before (read ++ future) →
      turn (read ++ future) = answer future

namespace Takes

variable {opts : LangOptions} {turn answer : Text → Reader}

/-- What the turn does depends on the part it takes away only. -/
theorem of_read {read : Text} (after : Text) (read_ne : read ≠ [])
    (same : ∀ future, turn (read ++ future) = answer future) :
    Takes opts (read ++ after) after turn answer :=
  ⟨read, rfl, fun read_nil => absurd read_nil read_ne, fun future _ => same future⟩

/-- The whole text is taken away. -/
theorem of_all {text : Text} (same : turn text = answer []) : Takes opts text [] turn answer := by
  refine ⟨text, (List.append_nil _).symm, id, fun future agrees => ?_⟩
  obtain rfl := agrees.whole
  rwa [List.append_nil]

/-- The turn stays in the file being scanned. -/
theorem of_width {s after : Scanner} (width : Nat) (plain : opts.turbo = true ∨ s.includeStack = [])
    (unread_eq : after.unread = (s.advance width).unread) (width_pos : 0 < width)
    (width_le : width ≤ s.rest.length)
    (same : ∀ c u x y, s.rest = (c :: u) ++ x → StopsToken x → EndsLine y →
      (opts.turbo = true ∨ x = y) → width ≤ (c :: u).length →
      turn ((c :: u) ++ y) = answer (((c :: u) ++ y).drop width)) :
    Takes opts s.unread after.unread turn answer := by
  have read_length : (s.rest.take width).length = width := by simp [width_le]
  have rest_ne : s.rest ≠ [] := List.ne_nil_of_length_pos (by omega)
  refine ⟨s.rest.take width, ?_, ?_, ?_⟩
  · have suspended_eq : (s.advance width).suspended = s.suspended := rfl
    rw [unread_eq, unread, unread, rest_advance, suspended_eq, ← List.append_assoc,
      List.take_append_drop]
  · intro read_nil
    rw [read_nil] at read_length
    simp at read_length
    omega
  · intro future agrees
    have plain_suspended : opts.turbo = true ∨ s.suspended = [] :=
      plain.imp_right fun stack_nil => by simp [suspended, stack_nil]
    obtain ⟨common, x, y, file_eq, other_eq, common_ne, width_common, stops, ends, turbo⟩ :=
      agrees.file s.endsLine_suspended plain_suspended rest_ne (by omega)
    obtain ⟨c, u, rfl⟩ := List.exists_cons_of_ne_nil common_ne
    rw [other_eq, same c u x y file_eq stops ends turbo (by omega), ← other_eq]
    exact congrArg answer (List.drop_left' read_length)

end Takes

/-- A directive at the scanner's place ends in the file it begins in, unless no file is waiting. -/
def DirectiveEndsInFile (s : Scanner) : Prop :=
  ∀ braced ∈ directiveOpener s.rest, s.includeStack ≠ [] →
    (findCloser braced (s.rest.drop ((opener braced).length + 1))).isSome

instance (s : Scanner) : Decidable s.DirectiveEndsInFile := by
  unfold DirectiveEndsInFile
  infer_instance

/-- The end of the file being scanned, inside an include. -/
theorem unread_of_rest_nil {s : Scanner} {frame : IncludeFrame} {frames : List IncludeFrame}
    (rest_nil : s.rest = []) (stack_eq : s.includeStack = frame :: frames) :
    s.unread = ['\n'] ++ (s.resume frame frames).unread := by
  rw [unread, rest_nil, suspended_of_stack stack_eq]
  rfl

theorem unread_of_stack_nil (s : Scanner) (stack_nil : s.includeStack = []) :
    s.unread = s.rest := by
  simp [unread, suspended, stack_nil]

/-- Where neither a string nor a line comment begins, the reader of a dead branch sees the directive
that the scanner sees. -/
theorem skipTurn_directive {opts : LangOptions} {c : Char} {u x y : Text} (not_quote : c ≠ '\'')
    (not_line : ¬(opts.turbo && c == '/' && (u ++ x).head? == some '/') = true)
    (stops : StopsToken x) (ends : EndsLine y) (control : Control)
    (tokens : List (TokenKind × Text)) (depth : Nat) :
    Reader.skipTurn opts ⟨control, (c :: u) ++ y, tokens⟩ depth =
      match directiveOpener ((c :: u) ++ x) with
      | none => ⟨control, u ++ y, tokens⟩
      | some braced =>
          match findCloser braced (((c :: u) ++ y).drop ((opener braced).length + 1)) with
          | none => ⟨control.closeConditional, [], tokens⟩
          | some body => ⟨control.onDeadDirective depth body,
              ((c :: u) ++ y).drop
                ((opener braced).length + 1 + body.length + (closer braced).length), tokens⟩ := by
  have same : directiveOpener (c :: (u ++ y)) = directiveOpener ((c :: u) ++ x) := by
    rw [directiveOpener_append (by simp) stops, ← List.cons_append,
      directiveOpener_append (by simp) ends.stopsToken]
  rw [head?_append_beq stops (by decide)] at not_line
  rw [← head?_append_beq ends.stopsToken (by decide)] at not_line
  simp only [Reader.skipTurn, List.cons_append, if_neg not_quote, if_neg not_line, same, Reader.drop]
  cases directiveOpener (c :: (u ++ x)) with
  | none => rfl
  | some braced => rfl

/-- A turn of the raw scan, followed by the reader. -/
theorem skip_takes {s : Scanner} (depth : Nat) (plain : s.opts.turbo = true ∨ s.includeStack = [])
    (ends_in_file : s.DirectiveEndsInFile) (tokens : List (TokenKind × Text)) :
    Takes s.opts s.unread (s.skipToNextConditionalMarker depth).unread
      (fun text => Reader.skipTurn s.opts ⟨s.control, text, tokens⟩ depth)
      (fun future => ⟨(s.skipToNextConditionalMarker depth).control, future, tokens⟩) := by
  unfold skipToNextConditionalMarker
  cases rest_eq : s.rest with
  | nil =>
      cases stack_eq : s.includeStack with
      | nil =>
          have popped : s.popInclude = none := by simp [popInclude, stack_eq]
          have unread_nil : s.unread = [] := by rw [unread_of_stack_nil s stack_eq, rest_eq]
          simp only [popped, Option.getD_none, (Stays.abandonConditional s).unread, unread_nil]
          exact .of_all (by simp [Reader.skipTurn])
      | cons frame frames =>
          have popped : s.popInclude = some (s.resume frame frames) := by simp [popInclude, stack_eq]
          simp only [popped, Option.getD_some, unread_of_rest_nil rest_eq stack_eq]
          exact .of_read _ (by simp) fun future => by
            simp [Reader.skipTurn, directiveOpener, Reader.drop]
  | cons c tail =>
      have tail_eq {d : Char} {u x : Text} (split_eq : s.rest = (d :: u) ++ x) :
          c = d ∧ tail = u ++ x := List.cons.inj (rest_eq.symm.trans split_eq)
      simp only
      split_ifs with quote line
      · subst quote
        refine .of_width ((closingQuote tail).getD 0 + 1) plain rfl (by omega) ?_ ?_
        · rw [rest_eq]
          cases found : closingQuote tail with
          | none => simp
          | some width => simpa using closingQuote_le found
        · intro d u x y rest_split stops ends _ width_le
          obtain ⟨rfl, tail_split⟩ := tail_eq rest_split
          have same : closingQuote (u ++ y) = closingQuote tail := by
            rw [tail_split]
            refine closingQuote_append stops ends fun width found => ?_
            rw [tail_split, found] at width_le
            simpa using width_le
          simp [Reader.skipTurn, Reader.drop, same]
      · obtain ⟨⟨turbo, rfl⟩, second⟩ : (s.opts.turbo ∧ c = '/') ∧ tail.head? = some '/' := by
          simpa using line
        refine .of_width (('/' :: tail).takeWhile (· != '\n')).length plain rfl
          (by simp) ?_ ?_
        · rw [rest_eq]
          exact takeWhile_length_le _ _
        · intro d u x y rest_split stops ends _ width_le
          obtain ⟨rfl, tail_split⟩ := tail_eq rest_split
          have next_eq : (u ++ y).head? = some '/' := by
            rw [tail_split] at second
            rw [head?_append_iff ends.stopsToken (by decide)]
            rwa [head?_append_iff stops (by decide)] at second
          rw [← rest_eq, rest_split] at width_le ⊢
          rw [← takeWhile_line_append ends width_le]
          simp [Reader.skipTurn, Reader.drop, turbo, next_eq]
      · rw [← rest_eq]
        cases opens : directiveOpener s.rest with
        | none =>
            refine .of_width 1 plain rfl Nat.one_pos (by simp [rest_eq]) ?_
            intro d u x y rest_split stops ends _ width_le
            obtain ⟨rfl, tail_split⟩ := tail_eq rest_split
            rw [skipTurn_directive quote (tail_split ▸ line) stops ends, ← rest_split, opens]
            rfl
        | some braced =>
            simp only
            cases found : s.rawDirectiveBody braced with
            | none =>
                have stack_nil : s.includeStack = [] := by
                  by_contra stack_ne
                  have closed := ends_in_file braced opens stack_ne
                  rw [show findCloser braced _ = none from found] at closed
                  cases closed
                have after_nil : (s.advance s.rest.length).unread = [] := by
                  rw [unread_of_stack_nil (s.advance s.rest.length) stack_nil]
                  simp
                simp only [(Stays.abandonConditional _).unread, after_nil]
                refine .of_all ?_
                have turn_eq := skipTurn_directive (u := tail) (x := []) (y := []) quote
                  (by simpa using line) stopsToken_nil endsLine_nil s.control tokens depth
                rw [List.append_nil, ← rest_eq, opens] at turn_eq
                rw [unread_of_stack_nil s stack_nil, turn_eq]
                unfold rawDirectiveBody at found
                simp only [found, control_abandonConditional, control_advance]
            | some body =>
                refine .of_width ((opener braced).length + 1 + body.length +
                  (closer braced).length) plain ?_ (by omega) (directive_width_le opens found) ?_
                · rw [(Stays.deadDirective ..).unread]
                  simp [advance, bodyStart, Nat.add_assoc]
                · intro d u x y rest_split stops ends _ width_le
                  have same : findCloser braced
                      (((d :: u) ++ y).drop ((opener braced).length + 1)) = some body := by
                    unfold rawDirectiveBody at found
                    rw [List.drop_append_of_le_length (by omega)]
                    rw [rest_split, List.drop_append_of_le_length (by omega)] at found
                    exact findCloser_append y found (by rw [List.length_drop]; omega)
                  obtain ⟨rfl, tail_split⟩ := tail_eq rest_split
                  rw [skipTurn_directive quote (tail_split ▸ line) stops ends, ← rest_split, opens]
                  simp only [same, control_deadDirective, control_moveTo]

theorem trivia_opener {opts : LangOptions} (turbo : opts.turbo = true) (braced : Bool)
    (rest : Text) : trivia opts (opener braced ++ '$' :: rest) = some (.directive braced) := by
  cases braced <;> simp [trivia, opener, turbo]

theorem trivia_comment {opts : LangOptions} {text : Text} {braced : Bool}
    (opens : trivia opts text = some (.comment braced)) : ∃ rest, text = opener braced ++ rest := by
  cases text with
  | nil => cases opens
  | cons c rest =>
      unfold trivia at opens
      simp only at opens
      split_ifs at opens with brace dollar paren dollar <;> cases opens
      · exact ⟨rest, by simp [opener, brace]⟩
      · obtain ⟨tail, rfl⟩ := List.head?_eq_some_iff.mp paren.2
        exact ⟨tail, by simp [opener, paren.1]⟩

theorem trivia_line {opts : LangOptions} {text : Text} (opens : trivia opts text = some .line) :
    2 ≤ text.length := by
  cases text with
  | nil => cases opens
  | cons c rest =>
      cases rest with
      | nil => simp [trivia] at opens
      | cons d rest => simp

/-- What stands behind a comment does not make it one. -/
theorem trivia_closed_congr (opts : LangOptions) (braced : Bool) (inner rest other : Text) :
    trivia opts (opener braced ++ inner ++ closer braced ++ rest) =
      trivia opts (opener braced ++ inner ++ closer braced ++ other) := by
  cases braced with
  | true => cases inner <;> simp [trivia, opener, closer]
  | false => cases inner <;> simp [trivia, opener, closer]

/-- A turn opens an include file at a directive; the including file goes on with `behind`. -/
structure Opens (fs : FileSystem) (s after : Scanner) (braced : Bool) (body behind : Text) :
    Prop where
  live : s.skipDepth = none
  turbo : s.opts.turbo = true
  directive : s.rest = opener braced ++ '$' :: (body ++ closer braced ++ behind)
  closed : findCloser braced (body ++ closer braced ++ behind) = some body
  entered : ∃ path fid sm, Includes fs s body path fid sm ∧
    after = (s.advance
        ((opener braced).length + 1 + body.length + (closer braced).length)).enterInclude
      fid sm (canonicalIdentity fs path)

/-- A directive that ends in the file it begins in is handled behind its closing delimiter. -/
theorem skipDirective_closed (fs : FileSystem) {s : Scanner} {braced : Bool} {body : Text}
    (found : findCloser braced (s.moveTo (s.bodyStart braced)).rest = some body) :
    s.skipDirective fs braced =
      (s.advance
        ((opener braced).length + 1 + body.length + (closer braced).length)).dispatchDirective
        fs body (s.locAt (s.bodyStart braced)) := by
  have sought : s.seekDirective braced = ⟨s.advance
      ((opener braced).length + 1 + body.length + (closer braced).length), some body, false⟩ := by
    unfold seekDirective seekCloser
    rw [found]
    simp [advance, moveTo, bodyStart, Nat.add_assoc]
  unfold skipDirective
  rw [sought]

/-- A directive that nothing closes takes the rest of the text. -/
theorem skipDirective_unclosed (fs : FileSystem) {s : Scanner} {braced : Bool}
    (found : findCloser braced (s.moveTo (s.bodyStart braced)).rest = none)
    (stack_nil : s.includeStack = []) :
    (s.skipDirective fs braced).unread = [] ∧ (s.skipDirective fs braced).control = s.control := by
  have sought :=
    seekCloser_unread braced s.includeStack (s := s.moveTo (s.bodyStart braced)) rfl [] false
  have unclosed : (s.seekDirective braced).body = none := by
    unfold seekDirective seekCloser
    rw [found, stack_nil]
  have control_eq : (s.seekDirective braced).scanner.control = s.control := control_seekCloser ..
  unfold seekDirective at unclosed control_eq
  rw [unclosed] at sought
  unfold skipDirective seekDirective
  simp only [unclosed]
  exact ⟨(Stays.reportUnclosed ..).unread.trans sought.2, by rw [control_reportUnclosed, control_eq]⟩

theorem unread_applySwitches (s : Scanner) (changes : List (Switch × Bool)) (loc : Nat) :
    (s.applySwitches changes loc).unread = s.unread := by
  unfold applySwitches
  induction changes generalizing s with
  | nil => rfl
  | cons change changes induction => exact induction (s.applySwitch change.1 change.2 loc)

section Live

variable {s : Scanner} (allow : Nat → Bool) (live : s.skipDepth = none)
  (plain : s.opts.turbo = true ∨ s.includeStack = []) (tokens : List (TokenKind × Text))

include live

theorem commentTurbo_takes (turbo : s.opts.turbo = true) {braced : Bool}
    (opens : trivia s.opts s.rest = some (.comment braced)) :
    Takes s.opts s.unread (s.skipCommentTurbo braced).unread
      (fun text => Reader.turn s.opts allow ⟨s.control, text, tokens⟩)
      (fun future => ⟨(s.skipCommentTurbo braced).control, future, tokens⟩) := by
  obtain ⟨behind, rest_eq⟩ := trivia_comment opens
  have rest_ne : s.rest ≠ [] := by
    rw [rest_eq]
    cases braced <;> simp [opener]
  have opens_unread : trivia s.opts s.unread = some (.comment braced) := by
    rw [unread, trivia_append s.opts rest_ne s.endsLine_suspended.stopsToken, opens]
  have unread_eq : s.unread = opener braced ++ (s.advance (opener braced).length).unread := by
    have suspended_eq : (s.advance (opener braced).length).suspended = s.suspended := rfl
    rw [unread, unread, suspended_eq, rest_advance, rest_eq, List.drop_left, List.append_assoc]
  have sought :=
    seekCloser_unread braced s.includeStack (s := s.advance (opener braced).length) rfl [] false
  have control_eq := control_seekCloser braced s.includeStack (s.advance (opener braced).length) []
    false
  unfold skipCommentTurbo
  simp only
  cases body_eq : (seekCloser braced s.includeStack (s.advance (opener braced).length) []
      false).body with
  | some body =>
      rw [body_eq] at sought
      obtain ⟨inner, found, split_eq⟩ := sought
      simp only [control_eq]
      rw [unread_eq, split_eq, ← List.append_assoc, ← List.append_assoc] at opens_unread
      rw [unread_eq, split_eq, ← List.append_assoc, ← List.append_assoc]
      refine .of_read _ (by cases braced <;> simp [opener]) fun future => ?_
      rw [split_eq] at found
      rw [trivia_closed_congr s.opts braced inner _ future] at opens_unread
      rw [Reader.turn_trivia allow s.control live opens_unread]
      have reader_found : findCloser braced
          ((opener braced ++ inner ++ closer braced ++ future).drop (opener braced).length) =
            some inner := by
        rw [List.append_assoc, List.append_assoc, List.drop_left, ← List.append_assoc]
        exact findCloser_congr future found
      simp only [Reader.skipTrivia, Reader.skipComment, turbo, if_true, reader_found,
        Option.map_some, Reader.drop]
      rw [← Nat.add_assoc, ← List.length_append, ← List.length_append, List.drop_left]
      rfl
  | none =>
      rw [body_eq] at sought
      simp only [(Stays.reportUnclosed ..).unread, sought.2, control_reportUnclosed, control_eq]
      refine .of_all ?_
      rw [Reader.turn_trivia allow s.control live opens_unread]
      simp [Reader.skipTrivia, Reader.skipComment, turbo, unread_eq, sought.1]

/-- A live directive is read by the reader as well, unless it opens an include. -/
theorem directive_takes (fs : FileSystem) (ends_in_file : s.DirectiveEndsInFile) {braced : Bool}
    (opens : trivia s.opts s.rest = some (.directive braced)) :
    Takes s.opts s.unread (s.skipDirective fs braced).unread
        (fun text => Reader.turn s.opts allow ⟨s.control, text, tokens⟩)
        (fun future => ⟨(s.skipDirective fs braced).control, future, tokens⟩) ∨
      ∃ body behind, Opens fs s (s.skipDirective fs braced) braced body behind := by
  obtain ⟨turbo, opens_directive⟩ := trivia_directive opens
  obtain ⟨inside, rest_eq⟩ := directiveOpener_eq_some opens_directive
  have body_rest : (s.moveTo (s.bodyStart braced)).rest = inside := by
    rw [rest_bodyStart, rest_eq]
    simp
  cases found : findCloser braced inside with
  | none =>
      have stack_nil : s.includeStack = [] := by
        by_contra stack_ne
        have closed := ends_in_file braced opens_directive stack_ne
        rw [← rest_bodyStart, body_rest, found] at closed
        cases closed
      have unclosed := skipDirective_unclosed fs (body_rest.symm ▸ found) stack_nil
      rw [unclosed.1, unclosed.2, unread_of_stack_nil s stack_nil]
      refine .inl (.of_all ?_)
      rw [Reader.turn_trivia allow s.control live opens]
      simp [Reader.skipTrivia, Reader.readDirective, ← rest_bodyStart, body_rest, found]
  | some body =>
      obtain ⟨behind, rfl⟩ := findCloser_eq_some found
      have opener_length : (opener braced ++ '$' :: (body ++ closer braced)).length =
          (opener braced).length + 1 + body.length + (closer braced).length := by
        simp
        omega
      have handled := skipDirective_closed fs (body_rest.symm ▸ found)
      rw [← opener_length] at handled
      generalize read_eq : opener braced ++ '$' :: (body ++ closer braced) = read at *
      have control_eq : (s.skipDirective fs braced).control = s.control.onDirective body := by
        rw [handled]
        exact control_dispatchDirective fs (s.advance read.length) live body _
      have reads (unread_eq : (s.skipDirective fs braced).unread = (s.advance read.length).unread) :
          Takes s.opts s.unread (s.skipDirective fs braced).unread
            (fun text => Reader.turn s.opts allow ⟨s.control, text, tokens⟩)
            (fun future => ⟨(s.skipDirective fs braced).control, future, tokens⟩) := by
        have split_eq : s.unread = read ++ (s.advance read.length).unread := by
          have suspended_eq : (s.advance read.length).suspended = s.suspended := rfl
          have file_eq : s.rest = read ++ behind := by simp [rest_eq, ← read_eq]
          rw [unread, unread, suspended_eq, rest_advance, file_eq, List.drop_left, List.append_assoc]
        rw [split_eq, unread_eq, control_eq]
        refine .of_read _ (by simp [← read_eq]) fun future => ?_
        have opens_future : trivia s.opts (read ++ future) = some (.directive braced) := by
          rw [← read_eq, List.append_assoc]
          exact trivia_opener turbo braced _
        have found_future : findCloser braced
            ((read ++ future).drop ((opener braced).length + 1)) = some body := by
          have drop_eq : (read ++ future).drop ((opener braced).length + 1) =
              body ++ closer braced ++ future := by
            simp [← read_eq, ← List.drop_drop]
          rw [drop_eq]
          exact findCloser_congr future found
        rw [Reader.turn_trivia allow s.control live opens_future]
        simp only [Reader.skipTrivia, Reader.readDirective, found_future, Reader.drop]
        rw [← opener_length, List.drop_left]
      rcases dispatchDirective_cases fs (s.advance read.length) body (s.locAt (s.bodyStart braced))
        with stays | ⟨path, fid, sm, includes, entered⟩ | ⟨changes, _, applied⟩
      · exact .inl (reads (by rw [handled, stays.unread]))
      · refine .inr ⟨body, behind, live, turbo, rest_eq, found, path, fid, sm,
          ⟨includes.resolved, includes.not_open, includes.added⟩, ?_⟩
        rw [handled, entered, opener_length]
      · exact .inl (reads (by rw [handled, applied, unread_applySwitches]))

include plain

theorem commentISO_takes (iso : ¬s.opts.turbo = true) {braced : Bool}
    (opens : trivia s.opts s.rest = some (.comment braced)) :
    Takes s.opts s.unread (s.skipCommentISO braced).unread
      (fun text => Reader.turn s.opts allow ⟨s.control, text, tokens⟩)
      (fun future => ⟨(s.skipCommentISO braced).control, future, tokens⟩) := by
  have stack_nil : s.includeStack = [] := plain.resolve_left iso
  obtain ⟨behind, rest_eq⟩ := trivia_comment opens
  have reader_turn := Reader.turn_trivia allow s.control live opens tokens
  unfold skipCommentISO
  simp only
  cases found : eitherCloser (s.rest.drop (opener braced).length) with
  | some body =>
      refine .of_width ((opener braced).length + body) plain rfl ?_ ?_ ?_
      · have opener_pos : 0 < (opener braced).length := by cases braced <;> decide
        omega
      · have body_le := eitherCloser_le found
        rw [List.length_drop] at body_le
        have opener_le : (opener braced).length ≤ s.rest.length := by simp [rest_eq]
        omega
      · intro c u x y rest_split _ _ same _
        obtain rfl := same.resolve_left iso
        rw [← rest_split, reader_turn]
        simp [Reader.skipTrivia, Reader.skipComment, iso, found, Reader.drop]
  | none =>
      have after_nil : (s.advance s.rest.length).unread = [] := by
        rw [unread_of_stack_nil (s.advance s.rest.length) stack_nil]
        simp
      simp only [(Stays.emitError ..).unread, after_nil]
      refine .of_all ?_
      rw [unread_of_stack_nil s stack_nil, reader_turn]
      simp [Reader.skipTrivia, Reader.skipComment, iso, found]

theorem comment_takes {braced : Bool} (opens : trivia s.opts s.rest = some (.comment braced)) :
    Takes s.opts s.unread (s.skipComment braced).unread
      (fun text => Reader.turn s.opts allow ⟨s.control, text, tokens⟩)
      (fun future => ⟨(s.skipComment braced).control, future, tokens⟩) := by
  unfold skipComment
  split
  case isTrue turbo => exact commentTurbo_takes allow live tokens turbo opens
  case isFalse iso => exact commentISO_takes allow live plain tokens iso opens

theorem line_takes (opens : trivia s.opts s.rest = some .line) :
    Takes s.opts s.unread s.skipLineComment.unread
      (fun text => Reader.turn s.opts allow ⟨s.control, text, tokens⟩)
      (fun future => ⟨s.skipLineComment.control, future, tokens⟩) := by
  have two_le := trivia_line opens
  refine .of_width _ plain rfl (by omega) ?_ ?_
  · have line_le := takeWhile_length_le (· != '\n') (s.rest.drop 2)
    rw [List.length_drop] at line_le
    omega
  · intro c u x y rest_split stops ends _ width_le
    have still_opens : trivia s.opts ((c :: u) ++ y) = some .line := by
      rw [trivia_append s.opts (by simp) ends.stopsToken, ← trivia_append s.opts (by simp) stops,
        ← rest_split, opens]
    have two_le' : 2 ≤ (c :: u).length := by omega
    have same : (((c :: u) ++ y).drop 2).takeWhile (· != '\n') =
        (s.rest.drop 2).takeWhile (· != '\n') := by
      rw [rest_split, List.drop_append_of_le_length two_le'] at width_le ⊢
      rw [List.drop_append_of_le_length two_le']
      exact takeWhile_line_append ends (by rw [List.length_drop]; omega)
    rw [Reader.turn_trivia allow s.control live still_opens]
    simp only [Reader.skipTrivia, Reader.drop, same]
    rfl

theorem space_takes {c : Char} {rest : Text} (rest_eq : s.rest = c :: rest)
    (space : isspace c = true) :
    Takes s.opts s.unread (s.advance 1).unread
      (fun text => Reader.turn s.opts allow ⟨s.control, text, tokens⟩)
      (fun future => ⟨(s.advance 1).control, future, tokens⟩) := by
  refine .of_width 1 plain rfl Nat.one_pos (by simp [rest_eq]) ?_
  intro d u x y rest_split _ _ _ _
  obtain rfl : c = d := (List.cons.inj (rest_eq.symm.trans rest_split)).1
  have live' : s.control.skipDepth = none := live
  simp [Reader.turn, live', space, Reader.drop]

end Live

end Scanner

namespace Session

/-- A reader that stands where the session does, before some text. -/
def reader (session : Session) (rest : Text) : Reader :=
  ⟨session.scanner.control, rest, session.tokens.map fun token => (token.kind, token.lexeme)⟩

theorem reader_returned (allow : Nat → Bool) (s : Scanner) (tokens : List Token) (rest : Text) :
    (returned allow s tokens).reader rest =
      Reader.returned allow s.control rest (tokens.map fun token => (token.kind, token.lexeme)) := by
  unfold returned Reader.returned reader
  rw [List.length_map]
  split <;> rfl

open Scanner in
/-- A token is read by the reader as well. -/
theorem token_takes (fs : FileSystem) (allow : Nat → Bool) (session : Session)
    (live : session.scanner.skipDepth = none)
    (plain : session.scanner.opts.turbo = true ∨ session.scanner.includeStack = [])
    {c : Char} {rest : Text} (rest_eq : session.scanner.rest = c :: rest)
    (not_space : isspace c = false)
    (no_trivia : trivia session.scanner.opts session.scanner.rest = none) :
    Takes session.scanner.opts session.scanner.unread (session.step fs allow).scanner.unread
      (fun text => (session.reader text).turn session.scanner.opts allow)
      (session.step fs allow).reader := by
  obtain ⟨s, tokens⟩ := session
  simp only at *
  have rest_ne : s.rest ≠ [] := rest_eq ▸ List.cons_ne_nil c rest
  generalize start_eq : (startsExpression s.prevKind || s.forceExprStartOnce) = exprStart
  have width := scanToken_width s.opts exprStart rest_ne
  generalize scanned_eq : scanToken s.opts exprStart s.rest = scanned at width
  have stepped : Scanner.step fs s = s.returnToken := by
    simp only [Scanner.step, live, rest_eq, not_space, Bool.false_eq_true, if_false]
    rw [← rest_eq, no_trivia]
  -- the reader scans the same token
  have reader_turn {u x y : Text} {d : Char} (rest_split : s.rest = (d :: u) ++ x)
      (stops : StopsToken x) (ends : EndsLine y) (same : s.opts.turbo = true ∨ x = y)
      (width_le : scanned.width ≤ (d :: u).length) :
      Reader.turn s.opts allow (reader ⟨s, tokens⟩ ((d :: u) ++ y)) =
        Reader.readToken s.opts allow (reader ⟨s, tokens⟩ ((d :: u) ++ y)) ∧
      scanToken s.opts exprStart ((d :: u) ++ y) = scanned := by
    obtain rfl : c = d := (List.cons.inj (rest_eq.symm.trans rest_split)).1
    have no_trivia' : trivia s.opts ((c :: u) ++ y) = none := by
      rw [trivia_append s.opts (by simp) ends.stopsToken, ← trivia_append s.opts (by simp) stops,
        ← rest_split, no_trivia]
    have live' : s.control.skipDepth = none := live
    refine ⟨?_, ?_⟩
    · simp only [List.cons_append] at no_trivia' ⊢
      simp only [Reader.turn, reader, live', not_space, no_trivia', Bool.false_eq_true, if_false]
    · rcases same with turbo | rfl
      · rw [scanToken_append turbo exprStart (by simp) stops ends, ← rest_split, scanned_eq]
        rwa [← rest_split, scanned_eq]
      · rw [← rest_split, scanned_eq]
  by_cases failed : scanned.kind = .Error
  · have dropped : step fs allow ⟨s, tokens⟩ =
        ⟨(s.advance scanned.width).emitComplaints s.pos scanned.complaints, tokens⟩ := by
      simp [step, stepped, returnToken, start_eq, scanned_eq, failed]
    rw [dropped]
    refine .of_width scanned.width plain rfl width.1 width.2 ?_
    intro d u x y rest_split stops ends same width_le
    obtain ⟨turn_eq, token_eq⟩ := reader_turn rest_split stops ends same width_le
    have start_eq' : (startsExpression s.control.prevKind || s.control.forceExprStartOnce) =
        exprStart := start_eq
    rw [turn_eq]
    simp only [Reader.readToken, reader, start_eq', token_eq, failed, if_true]
    rfl
  · have kept : step fs allow ⟨s, tokens⟩ = returned allow
        { (s.advance scanned.width).emitComplaints s.pos scanned.complaints with
          prevKind := scanned.kind, forceExprStartOnce := false }
        (tokens ++ [⟨scanned.kind, scanned.lexeme, s.locAt s.pos⟩]) := by
      simp [step, stepped, returnToken, start_eq, scanned_eq, failed]
    rw [kept]
    refine .of_width scanned.width plain (Stays.returned allow _ _).unread width.1 width.2 ?_
    intro d u x y rest_split stops ends same width_le
    obtain ⟨turn_eq, token_eq⟩ := reader_turn rest_split stops ends same width_le
    have start_eq' : (startsExpression s.control.prevKind || s.control.forceExprStartOnce) =
        exprStart := start_eq
    rw [turn_eq, reader_returned]
    simp only [Reader.readToken, reader, start_eq', token_eq, failed, if_false, List.map_append]
    rfl

/-- Every turn is followed by the reader, unless it opens an include. -/
theorem step_takes (fs : FileSystem) (allow : Nat → Bool) (session : Session)
    (plain : session.scanner.opts.turbo = true ∨ session.scanner.includeStack = [])
    (ends_in_file : session.scanner.DirectiveEndsInFile) :
    Scanner.Takes session.scanner.opts session.scanner.unread
        (session.step fs allow).scanner.unread
        (fun text => (session.reader text).turn session.scanner.opts allow)
        (session.step fs allow).reader ∨
      ∃ braced body behind, Scanner.Opens fs session.scanner (session.step fs allow).scanner braced
        body behind := by
  obtain ⟨s, tokens⟩ := session
  simp only at plain ends_in_file ⊢
  -- a silent turn keeps the tokens
  have silent (after : Scanner) (stepped : Scanner.step fs s = (after, none))
      (takes : Scanner.Takes s.opts s.unread after.unread
        (fun text => Reader.turn s.opts allow (reader ⟨s, tokens⟩ text))
        (fun future => reader ⟨after, tokens⟩ future)) :
      Scanner.Takes s.opts s.unread (step fs allow ⟨s, tokens⟩).scanner.unread
        (fun text => Reader.turn s.opts allow (reader ⟨s, tokens⟩ text))
        (step fs allow ⟨s, tokens⟩).reader := by
    have step_eq : step fs allow ⟨s, tokens⟩ = ⟨after, tokens⟩ := by simp [step, stepped]
    rw [step_eq]
    exact takes
  cases live : s.skipDepth with
  | some depth =>
      have live' : s.control.skipDepth = some depth := live
      refine .inl (silent _ (by simp only [Scanner.step, live]; rfl) ?_)
      simp only [Reader.turn, reader, live']
      exact Scanner.skip_takes depth plain ends_in_file _
  | none =>
      cases rest_eq : s.rest with
      | nil =>
          cases stack_eq : s.includeStack with
          | nil =>
              have step_eq : step fs allow ⟨s, tokens⟩ = returned allow s.reportUnterminatedConditionals
                  (tokens ++ [⟨.Eof, [], s.locAt s.pos⟩]) := by
                simp [step, Scanner.step, live, rest_eq, Scanner.popInclude, stack_eq]
              have unread_nil : s.unread = [] := by
                rw [Scanner.unread_of_stack_nil s stack_eq, rest_eq]
              rw [step_eq, (Scanner.Stays.returned allow _ _).unread,
                (Scanner.Stays.reportUnterminatedConditionals s).unread, unread_nil]
              have live' : s.control.skipDepth = none := live
              refine .inl (.of_all ?_)
              rw [reader_returned]
              simp only [Reader.turn, reader, live', List.map_append]
              simp [Scanner.control, Scanner.reportUnterminatedConditionals, Scanner.switchState, live]
          | cons frame frames =>
              refine .inl (silent (s.resume frame frames) ?_ ?_)
              · simp [Scanner.step, live, rest_eq, Scanner.popInclude, stack_eq]
              · rw [Scanner.unread_of_rest_nil rest_eq stack_eq]
                refine .of_read _ (by simp) fun future => ?_
                have live' : s.control.skipDepth = none := live
                simp [Reader.turn, reader, live', Reader.drop, isspace]
      | cons c rest =>
          cases space : isspace c with
          | true =>
              refine .inl (silent _ (by simp only [Scanner.step, live, rest_eq, space, if_true]; rfl) ?_)
              exact Scanner.space_takes allow live plain _ rest_eq space
          | false =>
              cases piece_eq : Scanner.trivia s.opts s.rest with
              | none => exact .inl (token_takes fs allow ⟨s, tokens⟩ live plain rest_eq space piece_eq)
              | some piece =>
                  cases piece with
                  | directive braced =>
                      have step_eq : Scanner.step fs s = (s.skipDirective fs braced, none) :=
                        Scanner.step_trivia fs live rest_eq space piece_eq
                      rcases Scanner.directive_takes allow live (tokens.map fun token =>
                        (token.kind, token.lexeme)) fs ends_in_file piece_eq with takes |
                        ⟨body, behind, opens⟩
                      · exact .inl (silent _ step_eq takes)
                      · exact .inr ⟨braced, body, behind, by simpa [step, step_eq] using opens⟩
                  | comment braced =>
                      exact .inl (silent _ (Scanner.step_trivia fs live rest_eq space piece_eq)
                        (Scanner.comment_takes allow live plain _ piece_eq))
                  | line =>
                      exact .inl (silent _ (Scanner.step_trivia fs live rest_eq space piece_eq)
                        (Scanner.line_takes allow live plain _ piece_eq))

end Session

end Plang
