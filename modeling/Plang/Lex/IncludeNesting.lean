import Plang.Lex.IncludePasting

/-!
# Includes come to an end

Every turn opens a file, which takes room that is never given back, or leaves less to be read, or
returns the end-of-file token.  The identities of the open files are those of the buffers the scanner
is in and will go back to, and no file is among them twice.
-/

namespace Plang

namespace Scanner

theorem unread_moveTo_bodyStart {s : Scanner} {braced : Bool} {rest : Text}
    (directive : s.rest = opener braced ++ '$' :: rest) :
    s.unread = (opener braced ++ ['$']) ++ (s.moveTo (s.bodyStart braced)).unread := by
  have suspended_eq : (s.moveTo (s.bodyStart braced)).suspended = s.suspended := rfl
  have drop_eq : s.rest.drop ((opener braced).length + 1) = rest := by
    rw [directive]
    simp [← List.drop_drop]
  rw [unread, unread, rest_bodyStart, suspended_eq, drop_eq, directive]
  simp

/-- The search for a closing delimiter takes a first part of the text away. -/
theorem seekCloser_suffix (braced : Bool) (s : Scanner) (body : Text) (sawOther : Bool) :
    ∃ read, s.unread =
      read ++ (seekCloser braced s.includeStack s body sawOther).scanner.unread := by
  have sought := seekCloser_unread braced s.includeStack rfl body sawOther
  split at sought
  case h_1 =>
    obtain ⟨inner, _, unread_eq⟩ := sought
    exact ⟨_, unread_eq⟩
  case h_2 =>
    exact ⟨s.unread, by rw [sought.2, List.append_nil]⟩

/-- A live directive is read before it is handled, wherever it ends. -/
theorem skipDirective_reads (fs : FileSystem) {s : Scanner} {braced : Bool}
    (opens : trivia s.opts s.rest = some (.directive braced)) :
    AddsFile fs s (s.skipDirective fs braced) ∨
      ∃ read, read ≠ [] ∧ s.unread = read ++ (s.skipDirective fs braced).unread := by
  obtain ⟨turbo, opener_eq⟩ := trivia_directive opens
  obtain ⟨rest, directive⟩ := directiveOpener_eq_some opener_eq
  have start_eq := unread_moveTo_bodyStart directive
  obtain ⟨read, read_eq⟩ := seekCloser_suffix braced (s.moveTo (s.bodyStart braced)) [] false
  have sought_eq : s.unread =
      (opener braced ++ ['$'] ++ read) ++ (s.seekDirective braced).scanner.unread := by
    rw [start_eq, read_eq]
    exact (List.append_assoc ..).symm
  have read_ne : opener braced ++ ['$'] ++ read ≠ [] := by simp
  have moved : SameFiles s (s.moveTo (s.bodyStart braced)) := ⟨rfl, rfl, id⟩
  have sought : SameFiles s (s.seekDirective braced).scanner :=
    moved.trans
      (.seekCloser braced s.includeStack (s := s.moveTo (s.bodyStart braced)) rfl [] false)
  unfold skipDirective
  simp only
  split
  case h_1 body _ =>
    rcases dispatchDirective_cases fs (s.seekDirective braced).scanner body
        (s.locAt (s.bodyStart braced)) with stays | ⟨path, fid, sm, includes, entered⟩ |
        ⟨changes, _, applied⟩
    · exact .inr ⟨_, read_ne, by rw [stays.unread]; exact sought_eq⟩
    · rw [entered]
      exact .inl ⟨turbo, sought.opts, path, fid, by rw [← sought.sm]; exact includes.added⟩
    · rw [applied]
      exact .inr ⟨_, read_ne, by rw [unread_applySwitches]; exact sought_eq⟩
  case h_2 =>
    exact .inr ⟨_, read_ne, by rw [(Stays.reportUnclosed ..).unread]; exact sought_eq⟩

/-- A directive of a dead branch that nothing in its file closes takes the rest of the file. -/
theorem skipToNextConditionalMarker_unclosed {s : Scanner} {braced : Bool} (depth : Nat)
    (opens : directiveOpener s.rest = some braced) (unclosed : s.rawDirectiveBody braced = none) :
    (s.skipToNextConditionalMarker depth) = (s.advance s.rest.length).abandonConditional := by
  obtain ⟨rest, directive⟩ := directiveOpener_eq_some opens
  have not_plain : ∀ c after, s.rest = c :: after → c ≠ '\'' ∧ c ≠ '/' := by
    intro c after rest_eq
    rw [rest_eq] at directive
    cases braced <;> obtain ⟨rfl, _⟩ := List.cons.inj directive <;> decide
  unfold skipToNextConditionalMarker
  split
  case h_1 rest_nil =>
    rw [rest_nil] at opens
    cases opens
  case h_2 c after rest_eq =>
    obtain ⟨not_quote, not_slash⟩ := not_plain c after rest_eq
    rw [if_neg not_quote, if_neg (by simp [not_slash])]
    simp only [opens, unclosed]

/-- The buffers of the include files that are open, outermost first: those of the frames and the
one being scanned, without the main text's. -/
def includedFids (s : Scanner) : List Nat :=
  (s.fid :: s.includeStack.map IncludeFrame.fid).dropLast.reverse

/-- The identities of the include files that are open. -/
def includedPaths (fs : FileSystem) (s : Scanner) : List Text :=
  s.includedFids.map fun fid => canonicalIdentity fs (s.sm.getBufferName fid)

theorem length_includedPaths (fs : FileSystem) (s : Scanner) :
    (s.includedPaths fs).length = s.includeStack.length := by
  simp [includedPaths, includedFids]

/-- The open paths are the entry of the main text and one for each include, and none is there
twice. -/
structure OpenPaths (fs : FileSystem) (main : List Text) (s : Scanner) : Prop where
  known : ∀ fid ∈ s.fid :: s.includeStack.map IncludeFrame.fid, fid ≤ s.sm.buffers.length
  paths : s.openIncludePaths = main ++ s.includedPaths fs
  nodup : s.openIncludePaths.Nodup

namespace OpenPaths

variable {fs : FileSystem} {main : List Text} {s after : Scanner}

theorem keeps (open_paths : OpenPaths fs main s) (kept : Keeps s after) :
    OpenPaths fs main after := by
  obtain ⟨known, paths, nodup⟩ := open_paths
  refine ⟨?_, ?_, by rwa [kept.openIncludePaths]⟩
  · rwa [kept.fid, kept.includeStack, kept.sm]
  · rw [kept.openIncludePaths, paths, includedPaths, includedPaths, includedFids, includedFids,
      kept.fid, kept.includeStack, kept.sm]

/-- Leaving an include drops its path. -/
theorem resume (open_paths : OpenPaths fs main s) {frame : IncludeFrame}
    {frames : List IncludeFrame} (stack_eq : s.includeStack = frame :: frames) :
    OpenPaths fs main (s.resume frame frames) := by
  obtain ⟨known, paths, nodup⟩ := open_paths
  rw [stack_eq] at known
  have fids_eq : s.includedFids = (s.resume frame frames).includedFids ++ [s.fid] := by
    simp [includedFids, stack_eq, Scanner.resume, recordBoundary]
  have paths_eq : s.openIncludePaths = (main ++ (s.resume frame frames).includedPaths fs) ++
      [canonicalIdentity fs (s.sm.getBufferName s.fid)] := by
    rw [paths, includedPaths, fids_eq, List.map_append, List.append_assoc]
    rfl
  have dropped : (s.resume frame frames).openIncludePaths = s.openIncludePaths.dropLast := rfl
  refine ⟨fun fid member => known fid (List.mem_cons_of_mem _ member), ?_, ?_⟩
  · rw [dropped, paths_eq, List.dropLast_concat]
  · rw [dropped]
    exact nodup.sublist (List.dropLast_sublist _)

/-- Entering an include adds its path, which was not open. -/
theorem enterInclude (open_paths : OpenPaths fs main s) {path : Text} {fid : Nat}
    {sm : SourceManager} (added : s.sm.addFile fs path = some (fid, sm))
    (not_open : canonicalIdentity fs path ∉ s.openIncludePaths) :
    OpenPaths fs main (s.enterInclude fid sm (canonicalIdentity fs path)) := by
  obtain ⟨known, paths, nodup⟩ := open_paths
  obtain ⟨text, _, buffered⟩ := SourceManager.addFile_eq_some added
  obtain ⟨_, fid_eq, buffers_eq, _⟩ := SourceManager.addBuffer_eq_some buffered
  have length_eq : sm.buffers.length = s.sm.buffers.length + 1 := by simp [buffers_eq]
  have entered : (s.enterInclude fid sm (canonicalIdentity fs path)).openIncludePaths =
      s.openIncludePaths ++ [canonicalIdentity fs path] := rfl
  have fids_eq : (s.enterInclude fid sm (canonicalIdentity fs path)).includedFids =
      s.includedFids ++ [fid] := by
    simp [includedFids, Scanner.enterInclude, recordBoundary]
  have names_eq : s.includedFids.map (fun old => canonicalIdentity fs (sm.getBufferName old)) =
      s.includedPaths fs := by
    refine List.map_congr_left fun old member => ?_
    rw [SourceManager.getBufferName_addBuffer buffered
      (known old ((List.dropLast_sublist _).mem (List.mem_reverse.mp member)))]
  refine ⟨fun old member => ?_, ?_, ?_⟩
  · change old ∈ fid :: s.fid :: s.includeStack.map IncludeFrame.fid at member
    change old ≤ sm.buffers.length
    rcases List.mem_cons.mp member with rfl | waiting
    · omega
    · exact (known old waiting).trans (by omega)
  · rw [entered, paths, includedPaths, includedPaths, fids_eq, List.map_append]
    change _ = main ++ (s.includedFids.map (fun old => canonicalIdentity fs (sm.getBufferName old)) ++
      [canonicalIdentity fs (sm.getBufferName fid)])
    rw [names_eq, SourceManager.getBufferName_added buffered, includedPaths, List.append_assoc]
  · rw [entered]
    exact List.nodup_append.mpr ⟨nodup, List.nodup_singleton _, by
      rintro old member _ (_ | ⟨_, ⟨⟩⟩) rfl
      exact not_open member⟩

theorem seekCloser (open_paths : OpenPaths fs main s) (braced : Bool) {stack : List IncludeFrame}
    (stack_eq : s.includeStack = stack) (body : Text) (sawOther : Bool) :
    OpenPaths fs main (seekCloser braced stack s body sawOther).scanner := by
  induction stack generalizing s body sawOther with
  | nil =>
      unfold Scanner.seekCloser
      split <;> exact open_paths.keeps (.advance ..)
  | cons frame frames induction =>
      unfold Scanner.seekCloser
      split
      · exact open_paths.keeps (.advance ..)
      · exact induction (open_paths.resume stack_eq) rfl _ _

theorem applySwitches (open_paths : OpenPaths fs main s) (changes : List (Switch × Bool))
    (loc : Nat) : OpenPaths fs main (s.applySwitches changes loc) := by
  unfold Scanner.applySwitches
  induction changes generalizing s with
  | nil => exact open_paths
  | cons change changes induction =>
      exact induction ⟨open_paths.known, open_paths.paths, open_paths.nodup⟩

theorem skipDirective (open_paths : OpenPaths fs main s) (braced : Bool) :
    OpenPaths fs main (s.skipDirective fs braced) := by
  have moved : OpenPaths fs main (s.moveTo (s.bodyStart braced)) :=
    ⟨open_paths.known, open_paths.paths, open_paths.nodup⟩
  have sought : OpenPaths fs main (s.seekDirective braced).scanner :=
    moved.seekCloser braced rfl [] false
  unfold Scanner.skipDirective
  simp only
  split
  case h_1 body _ =>
    rcases dispatchDirective_cases fs (s.seekDirective braced).scanner body
        (s.locAt (s.bodyStart braced)) with stays | ⟨path, fid, sm, includes, entered⟩ |
        ⟨changes, _, applied⟩
    · exact sought.keeps stays.toKeeps
    · rw [entered]
      exact sought.enterInclude includes.added includes.not_open
    · rw [applied]
      exact sought.applySwitches changes _
  case h_2 => exact sought.keeps (Stays.reportUnclosed ..).toKeeps

theorem skipComment (open_paths : OpenPaths fs main s) (braced : Bool) :
    OpenPaths fs main (s.skipComment braced) := by
  unfold Scanner.skipComment
  split
  · have opened : OpenPaths fs main (s.advance (opener braced).length) :=
      open_paths.keeps (.advance ..)
    have sought : OpenPaths fs main
        (Scanner.seekCloser braced s.includeStack (s.advance (opener braced).length) []
          false).scanner := opened.seekCloser braced rfl [] false
    unfold skipCommentTurbo
    simp only
    split
    · exact sought
    · exact sought.keeps (Stays.reportUnclosed ..).toKeeps
  · exact open_paths.keeps (.skipCommentISO ..)

/-- What one turn does to the open paths. -/
theorem step (open_paths : OpenPaths fs main s) : OpenPaths fs main (s.step fs).1 := by
  unfold Scanner.step
  split
  case h_1 depth _ =>
    rcases s.skipToNextConditionalMarker_cases depth with keeps |
      ⟨frame, frames, _, stack_eq, resumed⟩
    · exact open_paths.keeps keeps
    · rw [resumed]
      exact open_paths.resume stack_eq
  case h_2 =>
    split
    case h_1 =>
      cases stack_eq : s.includeStack with
      | nil =>
          simp only [popInclude, stack_eq]
          exact open_paths.keeps (Stays.reportUnterminatedConditionals s).toKeeps
      | cons frame frames =>
          simp only [popInclude, stack_eq]
          exact open_paths.resume stack_eq
    case h_2 =>
      split_ifs
      · exact open_paths.keeps (.advance ..)
      · split
        case h_1 braced _ => exact open_paths.skipDirective braced
        case h_2 => exact open_paths.skipComment _
        case h_3 => exact open_paths.keeps (.skipLineComment s)
        case h_4 => exact open_paths.keeps (.returnToken s)

end OpenPaths

end Scanner

namespace Session

variable {fs : FileSystem} {allow : Nat → Bool}

theorem step_scanner (fs : FileSystem) (allow : Nat → Bool) (session : Session) :
    Scanner.Stays (session.scanner.step fs).1 (session.step fs allow).scanner := by
  rcases step_eq : session.scanner.step fs with ⟨after, token | token⟩ <;> simp only [step, step_eq]
  · exact .refl after
  · exact .returned allow after _

/-- A turn opens a file or reads on. -/
theorem step_reads (fs : FileSystem) (allow : Nat → Bool) {session : Session} (plain : session.Plain) :
    Scanner.AddsFile fs session.scanner (session.step fs allow).scanner ∨
      ∃ read, session.scanner.unread = read ++ (session.step fs allow).scanner.unread ∧
        (read = [] → session.scanner.unread = []) := by
  by_cases ends_in_file : session.scanner.DirectiveEndsInFile
  · rcases step_takes fs allow session plain ends_in_file with
      ⟨read, unread_eq, read_nil, _⟩ | ⟨braced, body, behind, opens⟩
    · exact .inr ⟨read, unread_eq, read_nil⟩
    · exact .inl opens.addsFile
  · have stays := session.step_scanner fs allow
    obtain ⟨braced, opens, stack_ne, open_end⟩ : ∃ braced,
        directiveOpener session.scanner.rest = some braced ∧ session.scanner.includeStack ≠ [] ∧
          session.scanner.rawDirectiveBody braced = none := by
      unfold Scanner.DirectiveEndsInFile at ends_in_file
      simp only [Option.mem_def, not_forall, Bool.not_eq_true, Option.isSome_eq_false_iff,
        Option.isNone_iff_eq_none, exists_prop] at ends_in_file
      exact ends_in_file
    obtain ⟨rest, directive⟩ := directiveOpener_eq_some opens
    have turbo := plain.resolve_right stack_ne
    have rest_ne : session.scanner.rest ≠ [] := by
      rw [directive]
      simp
    cases live : session.scanner.skipDepth with
    | some depth =>
        have stepped : (session.scanner.step fs).1 =
            (session.scanner.advance session.scanner.rest.length).abandonConditional := by
          rw [← Scanner.skipToNextConditionalMarker_unclosed depth opens open_end]
          simp only [Scanner.step, live]
        refine .inr ⟨session.scanner.rest, ?_, fun rest_nil => absurd rest_nil rest_ne⟩
        rw [stays.unread, stepped, (Scanner.Stays.abandonConditional _).unread]
        have suspended_eq : (session.scanner.advance session.scanner.rest.length).suspended =
            session.scanner.suspended := rfl
        rw [Scanner.unread, Scanner.unread, suspended_eq, Scanner.rest_advance, List.drop_length,
          List.nil_append]
    | none =>
        have trivia_eq : Scanner.trivia session.scanner.opts session.scanner.rest =
            some (.directive braced) := by
          rw [directive]
          exact Scanner.trivia_opener turbo braced rest
        obtain ⟨c, tail, rest_eq⟩ := List.exists_cons_of_ne_nil rest_ne
        have not_space : isspace c = false := by
          rw [rest_eq] at trivia_eq
          exact Scanner.trivia_not_space trivia_eq
        have stepped : session.scanner.step fs =
            (session.scanner.skipDirective fs braced, none) :=
          Scanner.step_trivia fs live rest_eq not_space trivia_eq
        have step_eq : (session.step fs allow).scanner = session.scanner.skipDirective fs braced := by
          simp only [step, stepped]
        rw [step_eq]
        rcases Scanner.skipDirective_reads fs trivia_eq with adds | ⟨read, read_ne, unread_eq⟩
        · exact .inl adds
        · exact .inr ⟨read, unread_eq, fun read_nil => absurd read_nil read_ne⟩

/-- The room that is left for files, and what is to be read in front of the end.  Leaving a dead
branch at the end of the text counts. -/
def remaining (session : Session) : Nat ×ₗ Nat :=
  toLex (SourceManager.maxLocation - session.scanner.sm.nextBase,
    2 * session.scanner.unread.length + if session.scanner.skipDepth.isSome then 1 else 0)

/-- At the end of everything, outside of dead branches, a turn returns the end-of-file token. -/
theorem step_eof {session : Session} (unread_nil : session.scanner.unread = [])
    (live : session.scanner.skipDepth = none) :
    ∃ token, token.kind = .Eof ∧ (session.step fs allow).tokens = session.tokens ++ [token] := by
  obtain ⟨rest_nil, suspended_nil⟩ := List.append_eq_nil_iff.mp unread_nil
  have stack_nil : session.scanner.includeStack = [] := by
    cases stack_eq : session.scanner.includeStack with
    | nil => rfl
    | cons frame frames => simp [Scanner.suspended, stack_eq] at suspended_nil
  refine ⟨⟨.Eof, [], session.scanner.locAt session.scanner.pos⟩, rfl, ?_⟩
  simp [step, Scanner.step, live, rest_nil, Scanner.popInclude, stack_nil, returned]

/-- At the end of everything a turn leaves the dead branch. -/
theorem step_abandons (fs : FileSystem) (allow : Nat → Bool) {session : Session} {depth : Nat}
    (unread_nil : session.scanner.unread = []) (dead : session.scanner.skipDepth = some depth) :
    (session.step fs allow).scanner.sm = session.scanner.sm ∧
      (session.step fs allow).scanner.unread = [] ∧
      (session.step fs allow).scanner.skipDepth = none := by
  obtain ⟨rest_nil, suspended_nil⟩ := List.append_eq_nil_iff.mp unread_nil
  have popped : session.scanner.popInclude = none := by
    cases stack_eq : session.scanner.includeStack with
    | nil => simp [Scanner.popInclude, stack_eq]
    | cons frame frames => simp [Scanner.suspended, stack_eq] at suspended_nil
  have stepped : (session.step fs allow).scanner = session.scanner.abandonConditional := by
    simp [step, Scanner.step, dead, Scanner.skipToNextConditionalMarker, rest_nil, popped]
  have stays := Scanner.Stays.abandonConditional session.scanner
  refine ⟨by rw [stepped, stays.sm], by rw [stepped, stays.unread, unread_nil], ?_⟩
  rw [stepped]
  unfold Scanner.abandonConditional
  split <;> rfl

/-- A turn that does not return the end-of-file token leaves less to be done. -/
theorem remaining_step (fs : FileSystem) (allow : Nat → Bool) {session : Session} (plain : session.Plain) :
    (∃ token, token.kind = .Eof ∧ (session.step fs allow).tokens = session.tokens ++ [token]) ∨
      (session.step fs allow).remaining < session.remaining := by
  by_cases unread_nil : session.scanner.unread = []
  · cases live : session.scanner.skipDepth with
    | none => exact .inl (step_eof unread_nil live)
    | some depth =>
        obtain ⟨sm_eq, after_nil, after_live⟩ :=
          step_abandons fs allow unread_nil live
        refine .inr (Prod.Lex.toLex_lt_toLex.mpr (.inr ⟨by rw [sm_eq], ?_⟩))
        simp [after_nil, after_live, unread_nil, live]
  · rcases step_reads fs allow plain with adds | ⟨read, unread_eq, read_nil⟩
    · exact .inr (Prod.Lex.toLex_lt_toLex.mpr (.inl adds.room_lt))
    · rcases session.step_files fs allow with same | adds
      · refine .inr (Prod.Lex.toLex_lt_toLex.mpr (.inr ⟨by rw [same.sm], ?_⟩))
        have read_pos : 0 < read.length :=
          List.length_pos_of_ne_nil fun nil_eq => unread_nil (read_nil nil_eq)
        have lengths := congrArg List.length unread_eq
        rw [List.length_append] at lengths
        split_ifs <;> omega
      · exact .inr (Prod.Lex.toLex_lt_toLex.mpr (.inl adds.room_lt))

theorem tokens_step (fs : FileSystem) (allow : Nat → Bool) (session : Session) :
    ∃ new, (session.step fs allow).tokens = session.tokens ++ new := by
  rcases step_eq : session.scanner.step fs with ⟨after, token | token⟩ <;> simp only [step, step_eq]
  · exact ⟨[], (List.append_nil _).symm⟩
  · exact ⟨[token], rfl⟩

theorem run_openPaths {session : Session} {main : List Text}
    (open_paths : session.scanner.OpenPaths fs main) (turns : Nat) :
    (session.run fs allow turns).scanner.OpenPaths fs main := by
  induction turns with
  | zero => exact open_paths
  | succ turns induction =>
      rw [run_succ]
      exact induction.step.keeps (step_scanner fs allow _).toKeeps

/-- The main text is a file that could be opened. -/
def MainFile (fs : FileSystem) (allow : Nat → Bool) (session : Session) (filename : Text) : Prop :=
  ∃ sm opts, session = ofFile fs allow sm filename opts ∧ (sm.addFile fs filename).isSome

theorem openPaths_atStart (fs : FileSystem) (sm : SourceManager) (opts : LangOptions) (fid : Nat)
    (main : List Text) (fid_le : fid ≤ sm.buffers.length) (main_nodup : main.Nodup) :
    Scanner.OpenPaths fs main { Scanner.atStart sm opts fid with openIncludePaths := main } := by
  refine ⟨fun old member => ?_, ?_, main_nodup⟩
  · obtain rfl := List.mem_singleton.mp member
    exact fid_le
  · simp [Scanner.includedPaths, Scanner.includedFids, Scanner.atStart, Scanner.unopened]

theorem MainFile.openPaths {session : Session} {filename : Text}
    (main_file : MainFile fs allow session filename) :
    session.scanner.OpenPaths fs [Scanner.canonicalIdentity fs filename] := by
  obtain ⟨sm, opts, rfl, opened⟩ := main_file
  obtain ⟨⟨fid, after⟩, added⟩ := Option.isSome_iff_exists.mp opened
  obtain ⟨text, _, buffered⟩ := SourceManager.addFile_eq_some added
  obtain ⟨_, fid_eq, buffers_eq, _⟩ := SourceManager.addBuffer_eq_some buffered
  simp only [ofFile, Scanner.ofFile, added]
  refine (openPaths_atStart fs after opts fid _ ?_ (List.nodup_singleton _)).keeps
    (Scanner.Stays.returned allow _ []).toKeeps
  simp [fid_eq, buffers_eq]

/-- Without a main file no path is open at the start. -/
theorem Start.openPaths {session : Session} (start : session.Start fs allow)
    (no_main : ∀ filename, ¬MainFile fs allow session filename) :
    session.scanner.OpenPaths fs [] := by
  have unopened (sm : SourceManager) (opts : LangOptions) (id : DiagID) (args : List Text) :
      (returned allow ((Scanner.unopened sm opts).emitError 0 id args) []).scanner.OpenPaths fs [] := by
    have nothing : (Scanner.unopened sm opts).OpenPaths fs [] :=
      ⟨by simp [Scanner.unopened], by simp [Scanner.includedPaths, Scanner.includedFids,
        Scanner.unopened], List.nodup_nil⟩
    exact nothing.keeps ((Scanner.Stays.emitError ..).trans (.returned allow _ [])).toKeeps
  rcases start with ⟨sm, filename, opts, rfl⟩ | ⟨sm, sourceName, content, opts, rfl⟩
  · cases added : sm.addFile fs filename with
    | none =>
        simp only [ofFile, Scanner.ofFile, added]
        exact unopened ..
    | some entry => exact absurd ⟨sm, opts, rfl, by simp [added]⟩ (no_main filename)
  · cases added : sm.addBuffer sourceName content with
    | none =>
        simp only [ofBuffer, Scanner.ofBuffer, added]
        exact unopened ..
    | some entry =>
        obtain ⟨fid, after⟩ := entry
        obtain ⟨_, fid_eq, buffers_eq, _⟩ := SourceManager.addBuffer_eq_some added
        simp only [ofBuffer, Scanner.ofBuffer, added]
        refine (openPaths_atStart fs after opts fid [] ?_ List.nodup_nil).keeps
          (Scanner.Stays.returned allow _ []).toKeeps
        simp [fid_eq, buffers_eq]

/-- From wherever the scanner is, it reaches the end-of-file token. -/
theorem reaches_eof (fs : FileSystem) (allow : Nat → Bool) {session : Session} (plain : session.Plain) :
    ∃ turns new token, token.kind = .Eof ∧
      (session.run fs allow turns).tokens = session.tokens ++ new ++ [token] := by
  induction remaining_eq : session.remaining using WellFoundedLT.induction generalizing session with
  | ind remaining induction =>
      subst remaining_eq
      rcases remaining_step fs allow plain with
        ⟨token, is_eof, tokens_eq⟩ | falls
      · exact ⟨1, [], token, is_eof, by simpa [run_succ', run_zero] using tokens_eq⟩
      · obtain ⟨turns, later, token, is_eof, run_eq⟩ :=
          induction _ falls (plain.step fs allow) rfl
        obtain ⟨new, new_eq⟩ := session.tokens_step fs allow
        refine ⟨turns + 1, new ++ later, token, is_eof, ?_⟩
        rw [run_succ', run_eq, new_eq]
        simp

/-- Wherever the scanner is, it reaches the end-of-file token; the open paths, no two of which are
the same, are that of the main file, when there is one, and one for each open include. -/
theorem includes_end {session : Session} (start : session.Start fs allow) (turns : Nat) :
    (∃ more new token, token.kind = .Eof ∧
        (session.run fs allow (more + turns)).tokens =
          (session.run fs allow turns).tokens ++ new ++ [token]) ∧
      (session.run fs allow turns).scanner.openIncludePaths.Nodup ∧
      (∀ filename, MainFile fs allow session filename →
        (session.run fs allow turns).scanner.openIncludePaths =
          Scanner.canonicalIdentity fs filename ::
            (session.run fs allow turns).scanner.includedPaths fs) ∧
      ((∀ filename, ¬MainFile fs allow session filename) →
        (session.run fs allow turns).scanner.openIncludePaths =
          (session.run fs allow turns).scanner.includedPaths fs) ∧
      ((session.run fs allow turns).scanner.includedPaths fs).length =
        (session.run fs allow turns).scanner.includeStack.length := by
  have plain : session.Plain := .inr start.fresh.stack
  refine ⟨?_, ?_, fun filename main_file => (run_openPaths main_file.openPaths turns).paths,
    fun no_main => (run_openPaths (start.openPaths no_main) turns).paths,
    Scanner.length_includedPaths fs _⟩
  · obtain ⟨more, new, token, is_eof, tokens_eq⟩ :=
      reaches_eof fs allow (run_plain fs allow plain turns).1
    exact ⟨more, new, token, is_eof, by rw [run_add, tokens_eq]⟩
  · by_cases main_file : ∃ filename, MainFile fs allow session filename
    · obtain ⟨filename, main_file⟩ := main_file
      exact (run_openPaths main_file.openPaths turns).nodup
    · exact (run_openPaths (start.openPaths (not_exists.mp main_file)) turns).nodup

/-- Two files that include each other and themselves. -/
def cyclicExample : FileSystem where
  is_regular_file path := path = "main".toList ∨ path = "a".toList
  file_size _ := none
  read path :=
    if path = "main".toList then some "{$I a}{$I main}{$I a}".toList
    else if path = "a".toList then some "x{$I main}{$I a}".toList
    else none
  canonical _ := none
  current_path := none

/-- A session over the first of them. -/
def cyclicSession : Session :=
  ofFile cyclicExample (fun _ => false) .empty "main".toList { std := .Turbo }

/-- Behind the first directive both files are open. -/
theorem includes_end_cycle :
    (cyclicSession.run cyclicExample (fun _ => false) 2).scanner.openIncludePaths =
        ["main".toList, "a".toList] ∧
      (∃ more new token, token.kind = .Eof ∧
        (cyclicSession.run cyclicExample (fun _ => false) (more + 2)).tokens =
          (cyclicSession.run cyclicExample (fun _ => false) 2).tokens ++ new ++ [token]) ∧
      (cyclicSession.run cyclicExample (fun _ => false) 2).scanner.openIncludePaths.Nodup :=
  have start : cyclicSession.Start cyclicExample fun _ => false := .inl ⟨_, _, _, rfl⟩
  have ends := includes_end start 2
  ⟨by decide +kernel, ends.1, ends.2.1⟩

end Session

end Plang
