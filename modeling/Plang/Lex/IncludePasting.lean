import Mathlib.Data.Prod.Lex
import Plang.Lex.Splicing

/-!
# Includes are pasted in

The text that arises when every live directive that names a file to be included is replaced by the
text of the file, between two line breaks, is finite, and a scanner that has it as its only buffer
returns the same tokens, turn by turn.  Which file a directive names, and whether it can be included,
is said here of the text and the file system.
-/

namespace Plang

/-! ### The files that are named -/

/-- The source manager has room for the locations in a file. -/
def SourceManager.HasRoom (sm : SourceManager) (fs : FileSystem) (path content : Text) : Prop :=
  (∀ size ∈ fs.file_size path, sm.nextBase + size + 1 ≤ maxLocation) ∧
    sm.nextBase + (dropByteOrderMark content).length + 1 ≤ maxLocation

/-- A file is added if and only if it can be read and there is room for it. -/
theorem SourceManager.addFile_iff {sm : SourceManager} {fs : FileSystem} {path : Text} :
    (∃ fid after, sm.addFile fs path = some (fid, after)) ↔
      ∃ content, fs.read path = some content ∧ sm.HasRoom fs path content := by
  have full (size : Nat) : sm.wouldOverflow size = true ↔ ¬sm.nextBase + size + 1 ≤ maxLocation := by
    simp [wouldOverflow]
  have some_full : (fs.file_size path).any sm.wouldOverflow = true ↔
      ¬∀ size ∈ fs.file_size path, sm.nextBase + size + 1 ≤ maxLocation := by
    cases fs.file_size path <;> simp [full]
  constructor
  · rintro ⟨fid, after, added⟩
    obtain ⟨content, read_eq, buffered⟩ := addFile_eq_some added
    refine ⟨content, read_eq, ?_, (addBuffer_eq_some buffered).1⟩
    by_contra sized
    rw [addFile, if_pos (some_full.mpr sized)] at added
    cases added
  · rintro ⟨content, read_eq, sized, fits⟩
    rw [addFile, if_neg (fun filled => some_full.mp filled sized), read_eq, Option.bind_some,
      addBuffer, if_neg (fun filled => (full _).mp filled fits)]
    exact ⟨_, _, rfl⟩

namespace Scanner

/-- The directories that a relative name is looked up in, in their order: that of the including
file, the working directory, and those of the search path. -/
def searchDirectories (fs : FileSystem) (s : Scanner) : List Text :=
  Path.parent_path (s.sm.getBufferName s.fid) :: fs.current_path.toList ++ s.opts.includeSearchPaths

/-- A name stands for a file: an absolute one for itself, another one for the file of the first
directory that has one. -/
def Finds (fs : FileSystem) (s : Scanner) (filename path : Text) : Prop :=
  fs.is_regular_file path = true ∧
    (Path.is_absolute filename = true ∧ path = filename ∨
      Path.is_absolute filename = false ∧ ∃ before directory behind,
        s.searchDirectories fs = before ++ directory :: behind ∧
          path = Path.join directory filename ∧
          ∀ earlier ∈ before, fs.is_regular_file (Path.join earlier filename) = false)

theorem resolveIncludePath_eq_some_iff {fs : FileSystem} {s : Scanner} {filename path : Text} :
    s.resolveIncludePath fs filename = some path ↔ s.Finds fs filename path := by
  unfold resolveIncludePath Finds
  by_cases absolute : Path.is_absolute filename = true
  · simp only [absolute, if_true, true_and, Bool.true_eq_false, false_and, or_false]
    constructor
    · intro resolved
      split at resolved
      · rename_i regular
        obtain rfl := Option.some.inj resolved
        exact ⟨regular, rfl⟩
      · cases resolved
    · rintro ⟨regular, rfl⟩
      rw [if_pos regular]
  · have relative : Path.is_absolute filename = false := Bool.eq_false_of_not_eq_true absolute
    simp only [relative, Bool.false_eq_true, if_false, false_and, false_or, true_and]
    change ((s.searchDirectories fs).map fun directory => Path.join directory filename).find? _ = _ ↔
      _
    rw [List.find?_map, Option.map_eq_some_iff]
    constructor
    · rintro ⟨directory, found, rfl⟩
      obtain ⟨regular, before, behind, split_eq, earlier⟩ := List.find?_eq_some_iff_append.mp found
      exact ⟨regular, before, directory, behind, split_eq, rfl, fun other member => by
        simpa using earlier other member⟩
    · rintro ⟨regular, before, directory, behind, split_eq, rfl, earlier⟩
      refine ⟨directory, List.find?_eq_some_iff_append.mpr ⟨regular, before, behind, split_eq, ?_⟩,
        rfl⟩
      intro other member
      simpa using earlier other member

/-- What is to be read begins with a live directive, closed in its file, that names a file: the file
is found, is not open already, can be read, and there is room for it. -/
structure Pastes (fs : FileSystem) (s : Scanner) (braced : Bool) (body behind content : Text) :
    Prop where
  live : s.skipDepth = none
  turbo : s.opts.turbo = true
  directive : s.rest = opener braced ++ '$' :: (body ++ closer braced ++ behind)
  closed : findCloser braced (body ++ closer braced ++ behind) = some body
  file : ∃ filename path, includeName body = some filename ∧ s.Finds fs filename path ∧
    canonicalIdentity fs path ∉ s.openIncludePaths ∧ fs.read path = some content ∧
      s.sm.HasRoom fs path content

/-- Such a directive is handled by opening the file. -/
theorem dispatchDirective_of_includeName {body filename : Text}
    (named : includeName body = some filename) (fs : FileSystem) (s : Scanner) (loc : Nat) :
    s.dispatchDirective fs body loc = s.openInclude fs filename loc := by
  unfold includeName at named
  rcases body_split : splitDirectiveBody body with ⟨name, argument, adjacent⟩
  rw [body_split] at named
  simp only at named
  split at named
  case isFalse => cases named
  case isTrue includes =>
    obtain ⟨not_multi, include_eq, filename_ne⟩ := includes
    obtain rfl := Option.some.inj named
    have folded : toLower name = "include".toList ∨ toLower name = "i".toList := by
      have either : toLower name = "include".toList ∨
          toLower name = "i".toList ∧ (signValue argument).isNone = true := by
        simpa [isInclude] using include_eq
      exact either.imp_right And.left
    have multi : s.dispatchMultiSwitchDirective body loc = none := by
      rw [dispatchMultiSwitchDirective, not_multi]
      rfl
    have message : s.dispatchMessageDirective name argument loc = none := by
      unfold dispatchMessageDirective
      rcases folded with folded | folded <;> rw [folded] <;> rfl
    have conditional : s.dispatchConditionalDirective name argument loc = none := by
      unfold dispatchConditionalDirective
      rcases folded with folded | folded <;> rw [folded] <;> rfl
    have included : s.dispatchIncludeDirective fs name argument loc =
        some (s.openInclude fs (unquote argument) loc) := by
      simp [dispatchIncludeDirective, include_eq, filename_ne]
    unfold dispatchDirective
    simp [body_split, multi, message, conditional, included]

theorem Pastes.opens {fs : FileSystem} {s : Scanner} {braced : Bool} {body behind content : Text}
    (pastes : Pastes fs s braced body behind content) :
    Opens fs s (s.skipDirective fs braced) braced body behind := by
  obtain ⟨filename, path, named, finds, not_open, read_eq, room⟩ := pastes.file
  obtain ⟨fid, sm, added⟩ := SourceManager.addFile_iff.mpr ⟨content, read_eq, room⟩
  have resolved := resolveIncludePath_eq_some_iff.mpr finds
  have body_rest : (s.moveTo (s.bodyStart braced)).rest = body ++ closer braced ++ behind := by
    rw [rest_bodyStart, pastes.directive]
    simp
  refine ⟨pastes.live, pastes.turbo, pastes.directive, pastes.closed, path, fid, sm,
    ⟨by rw [named]; exact resolved, not_open, added⟩, ?_⟩
  rw [skipDirective_closed fs (body_rest.symm ▸ pastes.closed),
    dispatchDirective_of_includeName named]
  -- what has been read of the text plays no part in opening the file
  generalize (opener braced).length + 1 + body.length + (closer braced).length = width
  have resolved : (s.advance width).resolveIncludePath fs filename = some path := resolved
  have not_open : (s.advance width).openIncludePaths.contains (canonicalIdentity fs path) = false := by
    simpa [advance, moveTo] using not_open
  have added : (s.advance width).sm.addFile fs path = some (fid, sm) := added
  simp only [openInclude, resolved, not_open, added, Bool.false_eq_true, if_false]


namespace Opens

variable {fs : FileSystem} {s after : Scanner} {braced : Bool} {body behind : Text}

/-- The directive is what is to be read first. -/
theorem unread_before (opens : Opens fs s after braced body behind) :
    s.unread = opener braced ++ '$' :: (body ++ closer braced) ++ (behind ++ s.suspended) := by
  simp [unread, opens.directive]

/-- The directive names a file, and the text of the file and a line break take its place. -/
theorem pastes (opens : Opens fs s after braced body behind) :
    ∃ content, Pastes fs s braced body behind content ∧
      after.unread = truncateAtCtrlZ (SourceManager.dropByteOrderMark content) s.opts ++
        '\n' :: (behind ++ s.suspended) := by
  obtain ⟨path, fid, sm, includes, entered⟩ := opens.entered
  obtain ⟨filename, named, resolved⟩ := Option.bind_eq_some_iff.mp includes.resolved
  obtain ⟨content, read_eq, buffered⟩ := SourceManager.addFile_eq_some includes.added
  obtain ⟨other, other_eq, room⟩ := SourceManager.addFile_iff.mp ⟨fid, sm, includes.added⟩
  obtain rfl : content = other := Option.some.inj (read_eq.symm.trans other_eq)
  have data_eq : sm.getBufferData fid = SourceManager.dropByteOrderMark content := by
    simp [SourceManager.getBufferData, SourceManager.bufferFor_added buffered]
  refine ⟨content, ⟨opens.live, opens.turbo, opens.directive, opens.closed, filename, path, named,
    resolveIncludePath_eq_some_iff.mp resolved, includes.not_open, read_eq, room⟩, ?_⟩
  have behind_eq : (s.advance ((opener braced).length + 1 + body.length +
      (closer braced).length)).rest = behind := by
    have read_length : (opener braced ++ '$' :: (body ++ closer braced)).length =
        (opener braced).length + 1 + body.length + (closer braced).length := by
      simp
      omega
    have directive_eq : s.rest = opener braced ++ '$' :: (body ++ closer braced) ++ behind := by
      simp [opens.directive]
    rw [rest_advance, directive_eq, ← read_length, List.drop_left]
  rw [entered, ← behind_eq, ← data_eq]
  simp [unread, suspended, enterInclude, recordBoundary, rest, advance, moveTo]

theorem control (opens : Opens fs s after braced body behind) : after.control = s.control := by
  obtain ⟨path, fid, sm, _, entered⟩ := opens.entered
  rw [entered, control_enterInclude, control_advance]

theorem addsFile (opens : Opens fs s after braced body behind) : AddsFile fs s after := by
  obtain ⟨path, fid, sm, includes, entered⟩ := opens.entered
  exact ⟨opens.turbo, by rw [entered]; rfl, path, fid, by rw [entered]; exact includes.added⟩

/-- The turn returns no token. -/
theorem step_eq (opens : Opens fs s after braced body behind) :
    s.step fs = (s.skipDirective fs braced, none) := by
  have opens_directive : trivia s.opts s.rest = some (.directive braced) := by
    rw [opens.directive]
    exact trivia_opener opens.turbo braced _
  cases rest_eq : s.rest with
  | nil =>
      rw [rest_eq] at opens_directive
      cases opens_directive
  | cons c rest =>
      rw [rest_eq] at opens_directive
      simp [step, opens.live, rest_eq, trivia_not_space opens_directive, opens_directive]

end Opens

end Scanner

/-- Every file that is added takes room. -/
theorem Scanner.AddsFile.room_lt {fs : FileSystem} {s after : Scanner} (adds : AddsFile fs s after) :
    SourceManager.maxLocation - after.sm.nextBase < SourceManager.maxLocation - s.sm.nextBase := by
  obtain ⟨path, fid, added⟩ := adds.added
  obtain ⟨content, _, buffered⟩ := SourceManager.addFile_eq_some added
  obtain ⟨fits, _, _, next_eq⟩ := SourceManager.addBuffer_eq_some buffered
  omega

namespace Session

/-- The categories and texts of the tokens returned so far. -/
def lexemes (session : Session) : List (TokenKind × Text) :=
  session.tokens.map fun token => (token.kind, token.lexeme)

/-- Includes are read in Turbo Pascal only. -/
def Plain (session : Session) : Prop :=
  session.scanner.opts.turbo = true ∨ session.scanner.includeStack = []

theorem step_files (fs : FileSystem) (allow : Nat → Bool) (session : Session) :
    Scanner.SameFiles session.scanner (session.step fs allow).scanner ∨
      Scanner.AddsFile fs session.scanner (session.step fs allow).scanner := by
  have files := session.scanner.step_files fs
  rcases step_eq : session.scanner.step fs with ⟨after, token | token⟩ <;> rw [step_eq] at files <;>
    simp only [step, step_eq]
  · exact files
  · have kept := Scanner.Stays.returned allow after (session.tokens ++ [token])
    rcases files with same | adds
    · exact .inl (same.trans (.of_keeps kept.toKeeps))
    · obtain ⟨path, fid, added⟩ := adds.added
      exact .inr ⟨adds.turbo, kept.opts.trans adds.opts, path, fid, by rw [kept.sm]; exact added⟩

theorem opts_step (fs : FileSystem) (allow : Nat → Bool) (session : Session) :
    (session.step fs allow).scanner.opts = session.scanner.opts := by
  rcases session.step_files fs allow with same | adds
  · exact same.opts
  · exact adds.opts

theorem Plain.step {session : Session} (plain : session.Plain) (fs : FileSystem)
    (allow : Nat → Bool) : (session.step fs allow).Plain := by
  rcases session.step_files fs allow with same | adds
  · rcases plain with turbo | stack_nil
    · exact .inl (by rw [same.opts]; exact turbo)
    · exact .inr (same.stack stack_nil)
  · exact .inl (by rw [adds.opts]; exact adds.turbo)

open Scanner in
/-- What the session is still to read, when each live directive that names a file is replaced by a
line break, the text of the file and another line break.  Everything else stays as it is. -/
inductive Pasted (fs : FileSystem) (allow : Nat → Bool) : Session → Text → Prop
  | finished {session : Session} (unread_nil : session.scanner.unread = []) :
      Pasted fs allow session []
  | read {session : Session} {read text : Text}
      (no_include : ∀ braced body behind content,
        ¬Pastes fs session.scanner braced body behind content)
      (read_ne : read ≠ [])
      (unread_eq : session.scanner.unread = read ++ (session.step fs allow).scanner.unread)
      (pasted : Pasted fs allow (session.step fs allow) text) : Pasted fs allow session (read ++ text)
  | opened {session : Session} {braced : Bool} {body behind content text : Text}
      (pastes : Pastes fs session.scanner braced body behind content)
      (unread_eq : (session.step fs allow).scanner.unread =
        truncateAtCtrlZ (SourceManager.dropByteOrderMark content) session.scanner.opts ++
          '\n' :: (behind ++ session.scanner.suspended))
      (pasted : Pasted fs allow (session.step fs allow) text) :
      Pasted fs allow session ('\n' :: text)

variable {fs : FileSystem} {allow : Nat → Bool}

/-- A turn opens the file that the directive before it names. -/
theorem opens_of_pastes {session : Session} {braced : Bool} {body behind content : Text}
    (pastes : Scanner.Pastes fs session.scanner braced body behind content) :
    Scanner.Opens fs session.scanner (session.step fs allow).scanner braced body behind := by
  have opens := pastes.opens
  simpa [Session.step, opens.step_eq] using opens

/-- The room for files, and the text in front. -/
def rank (session : Session) : Nat ×ₗ Nat :=
  toLex (SourceManager.maxLocation - session.scanner.sm.nextBase, session.scanner.unread.length)

theorem rank_lt_of_addsFile {session : Session}
    (adds : Scanner.AddsFile fs session.scanner (session.step fs allow).scanner) :
    (session.step fs allow).rank < session.rank :=
  Prod.Lex.toLex_lt_toLex.mpr (.inl adds.room_lt)

theorem rank_lt_of_read {session : Session} {read : Text} (read_ne : read ≠ [])
    (unread_eq : session.scanner.unread = read ++ (session.step fs allow).scanner.unread) :
    (session.step fs allow).rank < session.rank := by
  rcases session.step_files fs allow with same | adds
  · refine Prod.Lex.toLex_lt_toLex.mpr (.inr ⟨by rw [same.sm], ?_⟩)
    have read_pos := List.length_pos_of_ne_nil read_ne
    have lengths := congrArg List.length unread_eq
    rw [List.length_append] at lengths
    omega
  · exact rank_lt_of_addsFile adds

theorem run_plain (fs : FileSystem) (allow : Nat → Bool) {session : Session}
    (plain : session.Plain) (turns : Nat) :
    (session.run fs allow turns).Plain ∧
      (session.run fs allow turns).scanner.opts = session.scanner.opts := by
  induction turns with
  | zero => exact ⟨plain, rfl⟩
  | succ turns induction =>
      rw [run_succ]
      exact ⟨induction.1.step fs allow, (opts_step ..).trans induction.2⟩

/-- Pasting comes to an end. -/
theorem exists_pasted {session : Session} (plain : session.Plain)
    (ends_in_file : ∀ turns, (session.run fs allow turns).scanner.DirectiveEndsInFile) :
    ∃ text, Pasted fs allow session text := by
  induction rank_eq : session.rank using WellFoundedLT.induction generalizing session with
  | ind rank induction =>
      subst rank_eq
      by_cases unread_nil : session.scanner.unread = []
      · exact ⟨[], .finished unread_nil⟩
      have later (rank_lt : (session.step fs allow).rank < session.rank) :
          ∃ text, Pasted fs allow (session.step fs allow) text :=
        induction _ rank_lt (plain.step fs allow)
          (fun turns => by rw [← run_succ']; exact ends_in_file (turns + 1)) rfl
      by_cases included : ∃ braced body behind, Scanner.Opens fs session.scanner
          (session.step fs allow).scanner braced body behind
      · obtain ⟨braced, body, behind, opens⟩ := included
        obtain ⟨content, pastes, unread_eq⟩ := opens.pastes
        obtain ⟨text, pasted⟩ := later (rank_lt_of_addsFile opens.addsFile)
        exact ⟨_, .opened pastes unread_eq pasted⟩
      · obtain ⟨read, unread_eq, read_nil, _⟩ :=
          (step_takes fs allow session plain (ends_in_file 0)).resolve_right included
        have read_ne : read ≠ [] := fun nil_eq => unread_nil (read_nil nil_eq)
        obtain ⟨text, pasted⟩ := later (rank_lt_of_read read_ne unread_eq)
        have no_include (braced : Bool) (body behind content : Text)
            (pastes : Scanner.Pastes fs session.scanner braced body behind content) : False :=
          included ⟨braced, body, behind, opens_of_pastes pastes⟩
        exact ⟨_, .read no_include read_ne unread_eq pasted⟩

/-- When everything has been read, the reader has nothing to read either. -/
theorem step_done (fs : FileSystem) (allow : Nat → Bool) {session : Session} (plain : session.Plain)
    (unread_nil : session.scanner.unread = []) :
    (session.step fs allow).scanner.unread = [] ∧
      (session.reader []).turn session.scanner.opts allow = (session.step fs allow).reader [] := by
  have ends_in_file : session.scanner.DirectiveEndsInFile := by
    intro braced opens
    rw [(List.append_eq_nil_iff.mp unread_nil).1] at opens
    cases opens
  rcases step_takes fs allow session plain ends_in_file with
    ⟨read, unread_eq, _, same⟩ | ⟨braced, body, behind, opens⟩
  · rw [unread_nil] at unread_eq
    obtain ⟨rfl, after_nil⟩ := List.append_eq_nil_iff.mp unread_eq.symm
    exact ⟨after_nil, same [] (.inl unread_nil)⟩
  · have unread_eq := opens.unread_before
    rw [unread_nil] at unread_eq
    simp at unread_eq

namespace Pasted

variable {session : Session} {text : Text}

/-- The pasted text goes on as the files do, up to the first include. -/
theorem agrees (pasted : Pasted fs allow session text) :
    Scanner.AgreesBeyond session.scanner.opts 0 session.scanner.unread text := by
  induction pasted with
  | finished unread_nil => exact .inl unread_nil
  | @read session read text _ _ unread_eq _ induction =>
      rw [opts_step] at induction
      rw [unread_eq]
      exact (induction.append read).mono (Nat.zero_le _)
  | @opened session braced body behind _ text pastes _ _ _ =>
      refine .inr ⟨pastes.turbo, [], braced,
        body ++ closer braced ++ (behind ++ session.scanner.suspended), '\n' :: text, ?_, rfl,
        endsLine_cons text, le_rfl⟩
      simp [pastes.opens.unread_before]

/-- A turn of the session is a turn of the reader of the pasted text. -/
theorem step (pasted : Pasted fs allow session text) (plain : session.Plain)
    (ends_in_file : session.scanner.DirectiveEndsInFile) :
    ∃ after, Pasted fs allow (session.step fs allow) after ∧
      (session.reader text).turn session.scanner.opts allow =
        (session.step fs allow).reader after := by
  cases pasted with
  | finished unread_nil =>
      have done := step_done fs allow plain unread_nil
      exact ⟨[], .finished done.1, done.2⟩
  | @read _ before text no_include read_ne unread_eq pasted =>
      rcases step_takes fs allow session plain ends_in_file with
        ⟨taken, taken_eq, _, same⟩ | ⟨braced, body, behind, opens⟩
      · obtain rfl : taken = before := List.append_cancel_right (taken_eq.symm.trans unread_eq)
        refine ⟨text, pasted, same text ?_⟩
        have agrees := pasted.agrees
        rw [opts_step] at agrees
        rw [unread_eq]
        exact agrees.append taken
      · obtain ⟨content, pastes, _⟩ := opens.pastes
        exact absurd pastes (no_include braced body behind content)
  | @opened _ braced body behind _ text pastes _ pasted =>
      have opens : Scanner.Opens fs session.scanner (session.step fs allow).scanner braced body
          behind := opens_of_pastes pastes
      refine ⟨text, pasted, ?_⟩
      have live : session.scanner.control.skipDepth = none := opens.live
      have tokens_eq : (session.step fs allow).tokens = session.tokens := by
        simp [Session.step, opens.step_eq]
      simp [Reader.turn, reader, live, isspace, Reader.drop, opens.control, tokens_eq]

theorem run (pasted : Pasted fs allow session text) (plain : session.Plain)
    (ends_in_file : ∀ turns, (session.run fs allow turns).scanner.DirectiveEndsInFile)
    (turns : Nat) :
    ∃ after, Pasted fs allow (session.run fs allow turns) after ∧
      (session.reader text).run session.scanner.opts allow turns =
        (session.run fs allow turns).reader after := by
  induction turns with
  | zero => exact ⟨text, pasted, rfl⟩
  | succ turns induction =>
      obtain ⟨middle, pasted_middle, run_eq⟩ := induction
      obtain ⟨run_plain, run_opts⟩ := run_plain fs allow plain turns
      obtain ⟨after, pasted_after, turn_eq⟩ := pasted_middle.step run_plain (ends_in_file turns)
      refine ⟨after, run_succ fs allow session turns ▸ pasted_after, ?_⟩
      rw [run_succ, ← turn_eq, run_opts, ← run_eq]
      exact Function.iterate_succ_apply' ..

/-- Pasting brings no end marker in. -/
theorem no_ctrlZ (pasted : Pasted fs allow session text) (turbo : session.scanner.opts.turbo = true)
    (unread_free : '\x1a' ∉ session.scanner.unread) : '\x1a' ∉ text := by
  induction pasted with
  | finished _ => exact List.not_mem_nil
  | @read session read text _ _ unread_eq _ induction =>
      rw [unread_eq, List.mem_append, not_or] at unread_free
      rw [List.mem_append, not_or]
      exact ⟨unread_free.1, induction ((opts_step ..).symm ▸ turbo) unread_free.2⟩
  | @opened session braced body behind content text pastes after_eq _ induction =>
      rw [pastes.opens.unread_before, List.mem_append, not_or] at unread_free
      have file_free :=
        Scanner.not_mem_truncateAtCtrlZ (SourceManager.dropByteOrderMark content) turbo
      have after_free : '\x1a' ∉ (session.step fs allow).scanner.unread := by
        rw [after_eq, List.mem_append, List.mem_cons, not_or, not_or]
        exact ⟨file_free, by decide, unread_free.2⟩
      rw [List.mem_cons, not_or]
      exact ⟨by decide, induction ((opts_step ..).symm ▸ turbo) after_free⟩

/-- The pasted text is determined by the files. -/
theorem unique (pasted : Pasted fs allow session text) {other : Text}
    (others : Pasted fs allow session other) : text = other := by
  induction pasted generalizing other with
  | finished unread_nil =>
      cases others with
      | finished _ => rfl
      | read _ read_ne unread_eq _ =>
          rw [unread_nil] at unread_eq
          exact absurd (List.append_eq_nil_iff.mp unread_eq.symm).1 read_ne
      | opened pastes _ _ => simpa [unread_nil] using pastes.opens.unread_before
  | read no_include read_ne unread_eq _ induction =>
      cases others with
      | finished unread_nil =>
          rw [unread_nil] at unread_eq
          exact absurd (List.append_eq_nil_iff.mp unread_eq.symm).1 read_ne
      | read _ _ other_eq pasted =>
          rw [List.append_cancel_right (unread_eq.symm.trans other_eq), induction pasted]
      | opened pastes _ _ => exact absurd pastes (no_include _ _ _ _)
  | opened pastes _ _ induction =>
      cases others with
      | finished unread_nil => simpa [unread_nil] using pastes.opens.unread_before
      | read no_include _ _ _ => exact absurd pastes (no_include _ _ _ _)
      | opened _ _ pasted => rw [induction pasted]

end Pasted

/-- A file system without files. -/
def noFiles : FileSystem where
  is_regular_file _ := false
  file_size _ := none
  read _ := none
  canonical _ := none
  current_path := none

theorem stack_nil_step {session : Session} (stack_nil : session.scanner.includeStack = []) :
    (session.step noFiles allow).scanner.includeStack = [] := by
  rcases session.step_files noFiles allow with same | adds
  · exact same.stack stack_nil
  · obtain ⟨path, fid, added⟩ := adds.added
    simp [SourceManager.addFile, noFiles] at added

/-- Where there are no files, the reader of the buffer's text takes the same turns. -/
theorem run_noFiles (allow : Nat → Bool) {session : Session}
    (stack_nil : session.scanner.includeStack = []) (turns : Nat) :
    (session.run noFiles allow turns).scanner.includeStack = [] ∧
      (session.run noFiles allow turns).scanner.opts = session.scanner.opts ∧
      (session.reader session.scanner.unread).run session.scanner.opts allow turns =
        (session.run noFiles allow turns).reader (session.run noFiles allow turns).scanner.unread := by
  induction turns with
  | zero => exact ⟨stack_nil, rfl, rfl⟩
  | succ turns induction =>
      obtain ⟨run_nil, run_opts, run_eq⟩ := induction
      rw [run_succ]
      generalize session.run noFiles allow turns = middle at *
      refine ⟨stack_nil_step run_nil, (opts_step ..).trans run_opts, ?_⟩
      rcases step_takes noFiles allow middle (.inr run_nil)
        (fun _ _ stack_ne => absurd run_nil stack_ne) with ⟨read, unread_eq, _, same⟩ | ⟨braced, body, behind, opens⟩
      · have turn_eq := same _ (.inl unread_eq)
        simp only [← unread_eq, run_opts, ← run_eq] at turn_eq
        rw [← turn_eq]
        exact Function.iterate_succ_apply' ..
      · obtain ⟨path, fid, added⟩ := opens.addsFile.added
        simp [SourceManager.addFile, noFiles] at added

/-- Where there are no files, nothing is pasted in. -/
theorem pasted_noFiles (allow : Nat → Bool) {session : Session}
    (stack_nil : session.scanner.includeStack = []) :
    Pasted noFiles allow session session.scanner.unread := by
  induction length_eq : session.scanner.unread.length using Nat.strong_induction_on
    generalizing session with
  | h length induction =>
      by_cases unread_nil : session.scanner.unread = []
      · rw [unread_nil]
        exact .finished unread_nil
      · have no_include (braced : Bool) (body behind content : Text) :
            ¬Scanner.Pastes noFiles session.scanner braced body behind content := by
          intro pastes
          obtain ⟨path, fid, added⟩ := pastes.opens.addsFile.added
          simp [SourceManager.addFile, noFiles] at added
        rcases step_takes noFiles allow session (.inr stack_nil)
          (fun _ _ stack_ne => absurd stack_nil stack_ne) with
          ⟨read, unread_eq, read_nil, _⟩ | ⟨braced, body, behind, opens⟩
        · have read_ne : read ≠ [] := fun nil_eq => unread_nil (read_nil nil_eq)
          rw [unread_eq]
          refine .read no_include read_ne unread_eq (induction _ ?_ (stack_nil_step stack_nil) rfl)
          have read_pos := List.length_pos_of_ne_nil read_ne
          rw [← length_eq, unread_eq, List.length_append]
          omega
        · obtain ⟨content, pastes, _⟩ := opens.pastes
          exact absurd pastes (no_include braced body behind content)

/-- A scanner that has read nothing. -/
structure Fresh (allow : Nat → Bool) (session : Session) : Prop where
  reader : ∀ text, session.reader text = Reader.ofText session.scanner.opts allow text
  stack : session.scanner.includeStack = []
  no_ctrlZ : session.scanner.opts.turbo = true → '\x1a' ∉ session.scanner.unread

theorem Fresh.returned {s : Scanner} {opts : LangOptions} (opts_eq : s.opts = opts)
    (control_eq : s.control = Control.initial opts)
    (stack_nil : s.includeStack = []) (no_ctrlZ : opts.turbo = true → '\x1a' ∉ s.rest) :
    Fresh allow (returned allow s []) := by
  have stays := Scanner.Stays.returned allow s []
  refine ⟨fun text => ?_, stays.includeStack.trans stack_nil, fun turbo => ?_⟩
  · rw [reader_returned, control_eq, stays.opts, opts_eq]
    rfl
  · rw [stays.opts, opts_eq] at turbo
    rw [stays.unread, Scanner.unread_of_stack_nil s stack_nil]
    exact no_ctrlZ turbo

theorem Start.fresh {session : Session} (start : session.Start fs allow) : Fresh allow session := by
  have at_start (sm : SourceManager) (opts : LangOptions) (fid : Nat) (turbo : opts.turbo = true) :
      '\x1a' ∉ (Scanner.atStart sm opts fid).rest :=
    Scanner.not_mem_truncateAtCtrlZ _ turbo
  rcases start with ⟨sm, filename, opts, rfl⟩ | ⟨sm, sourceName, content, opts, rfl⟩
  · unfold ofFile Scanner.ofFile
    cases added : sm.addFile fs filename with
    | none => exact .returned rfl rfl rfl fun _ => List.not_mem_nil
    | some entry => exact .returned rfl rfl rfl (at_start entry.2 opts entry.1)
  · unfold ofBuffer Scanner.ofBuffer
    cases added : sm.addBuffer sourceName content with
    | none => exact .returned rfl rfl rfl fun _ => List.not_mem_nil
    | some entry => exact .returned rfl rfl rfl (at_start entry.2 opts entry.1)

/-- A buffer without the end marker is scanned as a whole. -/
theorem unread_ofBuffer (allow : Nat → Bool) {sm after : SourceManager} {sourceName content : Text}
    {opts : LangOptions} {fid : Nat} (added : sm.addBuffer sourceName content = some (fid, after))
    (no_marker : opts.turbo = true → '\x1a' ∉ SourceManager.dropByteOrderMark content) :
    (ofBuffer allow sm sourceName content opts).scanner.unread =
        SourceManager.dropByteOrderMark content ∧
      (ofBuffer allow sm sourceName content opts).scanner.opts = opts := by
  have data_eq : after.getBufferData fid = SourceManager.dropByteOrderMark content := by
    simp [SourceManager.getBufferData, SourceManager.bufferFor_added added]
  have start_eq : Scanner.ofBuffer sm sourceName content opts = Scanner.atStart after opts fid := by
    simp [Scanner.ofBuffer, added]
  have stays := Scanner.Stays.returned allow (Scanner.atStart after opts fid) []
  unfold ofBuffer
  rw [start_eq]
  refine ⟨?_, stays.opts⟩
  rw [stays.unread, Scanner.unread_of_stack_nil _ rfl]
  simp only [Scanner.rest, Scanner.atStart, Scanner.unopened, data_eq, List.drop_zero]
  exact Scanner.truncateAtCtrlZ_eq_self no_marker

/-- Once everything has been read, nothing is left. -/
theorem unread_nil_of_done {session : Session} (plain : session.Plain) {last : Nat}
    (done : (session.run fs allow last).scanner.unread = []) {turn : Nat} (last_le : last ≤ turn) :
    (session.run fs allow turn).scanner.unread = [] := by
  induction turn, last_le using Nat.le_induction with
  | base => exact done
  | succ turn _ induction =>
      rw [run_succ]
      exact (step_done fs allow (run_plain fs allow plain turn).1 induction).1

/-- Directives need to be looked at only until everything has been read. -/
theorem directiveEndsInFile_of_done {session : Session} (last : Nat) (plain : session.Plain)
    (before : ∀ turn < last, (session.run fs allow turn).scanner.DirectiveEndsInFile)
    (done : (session.run fs allow last).scanner.unread = []) (turn : Nat) :
    (session.run fs allow turn).scanner.DirectiveEndsInFile := by
  rcases lt_or_ge turn last with lt | ge
  · exact before turn lt
  · intro braced opens
    rw [(List.append_eq_nil_iff.mp (unread_nil_of_done plain done ge)).1] at opens
    cases opens

/-- A scanner returns the tokens of one text: the main text with every live directive that names a
file replaced by the text of the file, up to its end marker, between line breaks. -/
theorem include_is_pasted {session : Session} (start : session.Start fs allow)
    (ends_in_file : ∀ turns, (session.run fs allow turns).scanner.DirectiveEndsInFile) :
    ∃ text, Pasted fs allow session text ∧
      (∀ other, Pasted fs allow session other → other = text) ∧
      ∀ (sm after : SourceManager) (sourceName content : Text) (fid : Nat),
        SourceManager.dropByteOrderMark content = text →
        sm.addBuffer sourceName content = some (fid, after) →
        ∀ turns, (session.run fs allow turns).lexemes =
          ((ofBuffer allow sm sourceName content session.scanner.opts).run noFiles allow
            turns).lexemes := by
  have fresh := start.fresh
  have plain : session.Plain := .inr fresh.stack
  obtain ⟨text, pasted⟩ := exists_pasted plain ends_in_file
  refine ⟨text, pasted, fun other others => others.unique pasted,
    fun sm after sourceName content fid content_eq added turns => ?_⟩
  have no_marker : session.scanner.opts.turbo = true →
      '\x1a' ∉ SourceManager.dropByteOrderMark content := fun turbo =>
    content_eq ▸ pasted.no_ctrlZ turbo (fresh.no_ctrlZ turbo)
  obtain ⟨single_unread, single_opts⟩ := unread_ofBuffer allow added no_marker
  have single_fresh : Fresh allow (ofBuffer allow sm sourceName content session.scanner.opts) :=
    (show Start noFiles allow _ from .inr ⟨_, _, _, _, rfl⟩).fresh
  obtain ⟨rest, _, run_eq⟩ := pasted.run plain ends_in_file turns
  obtain ⟨_, _, single_eq⟩ := run_noFiles allow single_fresh.stack turns
  rw [single_unread, content_eq, single_fresh.reader, single_opts] at single_eq
  rw [fresh.reader, single_eq] at run_eq
  exact (congrArg Reader.tokens run_eq).symm

theorem include_is_pasted_once :
    ∃ text, Pasted (includeExample "a{$I a}") (fun _ => false) (includeSession "a{$I a}") text ∧
      (∀ other, Pasted (includeExample "a{$I a}") (fun _ => false) (includeSession "a{$I a}") other →
        other = text) ∧
      ∀ (sm after : SourceManager) (sourceName content : Text) (fid : Nat),
        SourceManager.dropByteOrderMark content = text →
        sm.addBuffer sourceName content = some (fid, after) →
        ∀ turns,
          ((includeSession "a{$I a}").run (includeExample "a{$I a}") (fun _ => false) turns).lexemes =
            ((ofBuffer (fun _ => false) sm sourceName content { std := .Turbo }).run noFiles
              (fun _ => false) turns).lexemes :=
  include_is_pasted (.inl ⟨_, _, _, rfl⟩)
    (directiveEndsInFile_of_done 4 (.inl rfl) (by decide +kernel) (by decide +kernel))

/-- A separator behind the include alone does not keep the token before it apart: `a{$I a}` returns
`a` and `x`, and the text `ax` returns `ax`. -/
theorem include_is_not_substituted :
    ((includeSession "a{$I a}").run (includeExample "a{$I a}") (fun _ => false) 3).lexemes =
        [(.Identifier, "a".toList), (.Identifier, "x".toList)] ∧
      ((ofBuffer (fun _ => false) {} "main".toList "ax\n".toList { std := .Turbo }).run noFiles
        (fun _ => false) 3).lexemes = [(.Identifier, "ax".toList), (.Eof, [])] := by
  decide +kernel

end Session

end Plang
