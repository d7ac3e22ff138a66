import Plang.Lex.Frame

/-!
# The switch table and the scanner

Locations of an include lie behind all locations of the file that includes it, so the table answers
rightly only because a point is recorded wherever a buffer is entered or left.  The scanner does so
once it has a table.  This module proves that the table then answers every token with the state the
scanner held when it returned it, and shows the answer to be wrong where the table comes too late.
-/

namespace Plang

namespace Scanner

/-- The answer of the table built so far for a location. -/
def tableStateAt (s : Scanner) (loc : Nat) : CompilerState :=
  match s.switches with
  | none => s.opts.defaultSwitches
  | some table => SwitchTable.stateAt table loc s.opts.defaultSwitches

/-- The scanner is not about to apply a switch directive that ends in another buffer than it begins
in, or one that makes the table after an include has been opened. -/
def SwitchesInPlace (s : Scanner) : Prop :=
  ∀ braced, s.skipDepth = none → trivia s.opts s.rest = some (.directive braced) →
    ∀ body ∈ (s.seekDirective braced).body, (bodySwitches body).isSome →
      (findCloser braced (s.moveTo (s.bodyStart braced)).rest).isSome ∧
        (s.switches.isSome ∨ s.includeStack.isEmpty ∧ s.fid = s.sm.buffers.length)

instance (s : Scanner) : Decidable s.SwitchesInPlace :=
  inferInstanceAs (Decidable (∀ _, _ → _ → ∀ _ ∈ _, _ → _ ∧ _))

end Scanner

/-- The place where a suspended file goes on. -/
def IncludeFrame.loc (frame : IncludeFrame) (sm : SourceManager) : Nat :=
  sm.getLocForOffset frame.fid frame.pos

/-- The invariant that ties the scanner's switch state to a table. -/
structure TableFollows (main : Nat) (s : Scanner) (table : SwitchTable) : Prop where
  /-- Every point lies in a buffer. -/
  keys_below : ∀ key, table.HasKey key → key < s.sm.nextBase
  /-- Every include begins with a point. -/
  boundary : ∀ fid buffer, main < fid → s.sm.bufferFor fid = some buffer →
    table.HasKey buffer.base
  /-- No point lies ahead in the buffer being scanned. -/
  current : ∀ key, table.HasKey key → s.sm.InBuffer s.fid key → key ≤ s.locAt s.pos
  /-- No point lies ahead in a suspended file. -/
  suspended : ∀ frame ∈ s.includeStack, ∀ key, table.HasKey key →
    s.sm.InBuffer frame.fid key → key ≤ frame.loc s.sm
  /-- The table answers the scanner's own place with the scanner's own state. -/
  now : table.lastAt (s.locAt s.pos) = some s.currentSwitchState

/-- The invariant of a run that began in buffer `main`; the history lists the locations of the
returned tokens with the switch states held then. -/
structure Followed (main : Nat) (history : List (Nat × CompilerState)) (s : Scanner) : Prop where
  /-- The text being scanned is a buffer's, up to an end marker. -/
  buffer : ∃ buffer, s.sm.bufferFor s.fid = some buffer ∧ s.text.length ≤ buffer.text.length
  /-- So is every suspended text. -/
  frames : ∀ frame ∈ s.includeStack, main ≤ frame.fid ∧
    ∃ buffer, s.sm.bufferFor frame.fid = some buffer ∧ frame.text.length ≤ buffer.text.length
  /-- An include's buffer comes after its includer's. -/
  descending : (s.fid :: s.includeStack.map IncludeFrame.fid).Pairwise (· > ·)
  /-- The outermost file is the one the run began in. -/
  bottom : (s.fid :: s.includeStack.map IncludeFrame.fid).getLast? = some main
  main_le : main ≤ s.fid
  /-- Every token returned lies in a buffer of this run. -/
  past : ∀ entry ∈ history, ∃ fid, main ≤ fid ∧ s.sm.InBuffer fid entry.1
  past_current : ∀ entry ∈ history, s.sm.InBuffer s.fid entry.1 → entry.1 ≤ s.locAt s.pos
  past_suspended : ∀ entry ∈ history, ∀ frame ∈ s.includeStack,
    s.sm.InBuffer frame.fid entry.1 → entry.1 < frame.loc s.sm
  /-- The table answers every token with the state it was returned under. -/
  agrees : ∀ entry ∈ history, s.tableStateAt entry.1 = entry.2
  table : ∀ table, s.switches = some table → TableFollows main s table

namespace Followed

variable {main : Nat} {history : List (Nat × CompilerState)} {s : Scanner}

/-- Every token of the buffer being scanned lies strictly behind. -/
def Ahead (history : List (Nat × CompilerState)) (s : Scanner) : Prop :=
  ∀ entry ∈ history, s.sm.InBuffer s.fid entry.1 → entry.1 < s.locAt s.pos

theorem inBuffer_locAt (followed : Followed main history s) (offset : Nat) :
    s.sm.InBuffer s.fid (s.locAt offset) := by
  obtain ⟨buffer, found, _⟩ := followed.buffer
  exact SourceManager.inBuffer_getLocForOffset found offset

theorem locAt_mono (followed : Followed main history s) {left right : Nat}
    (le : left ≤ right) : s.locAt left ≤ s.locAt right := by
  obtain ⟨buffer, found, _⟩ := followed.buffer
  unfold Scanner.locAt
  rw [SourceManager.getLocForOffset_eq found, SourceManager.getLocForOffset_eq found]
  omega

theorem locAt_strict (followed : Followed main history s) {left right : Nat}
    (lt : left < right) (left_lt : left < s.text.length) : s.locAt left < s.locAt right := by
  obtain ⟨buffer, found, fits⟩ := followed.buffer
  unfold Scanner.locAt
  rw [SourceManager.getLocForOffset_eq found, SourceManager.getLocForOffset_eq found]
  omega

/-- A location up to one of the buffer being scanned lies in that buffer or below it. -/
theorem inBuffer_of_le (followed : Followed main history s) {loc offset : Nat}
    (loc_le : loc ≤ s.locAt offset) (start : Nat) :
    s.sm.InBuffer s.fid loc ∨ loc ≤ s.locAt start := by
  obtain ⟨buffer, found, _⟩ := followed.buffer
  unfold Scanner.locAt at *
  rw [SourceManager.getLocForOffset_eq found] at loc_le ⊢
  by_cases base_le : buffer.base ≤ loc
  · exact .inl ⟨buffer, found, base_le, by omega⟩
  · exact .inr (by omega)

theorem agrees_of_switches_eq {after : Scanner} (followed : Followed main history s)
    (switches_eq : after.switches = s.switches) (opts_eq : after.opts = s.opts) :
    ∀ entry ∈ history, after.tableStateAt entry.1 = entry.2 := by
  intro entry member
  have agrees := followed.agrees entry member
  unfold Scanner.tableStateAt at agrees ⊢
  rwa [switches_eq, opts_eq]

theorem keeps {after : Scanner} (followed : Followed main history s)
    (keeps : Scanner.Keeps s after) : Followed main history after := by
  have forward : s.locAt s.pos ≤ after.locAt after.pos := by
    rw [keeps.locAt]
    exact followed.locAt_mono keeps.pos_le
  refine
    { buffer := by rw [keeps.sm, keeps.fid, keeps.text]; exact followed.buffer
      frames := by rw [keeps.sm, keeps.includeStack]; exact followed.frames
      descending := by rw [keeps.fid, keeps.includeStack]; exact followed.descending
      bottom := by rw [keeps.fid, keeps.includeStack]; exact followed.bottom
      main_le := keeps.fid ▸ followed.main_le
      past := keeps.sm ▸ followed.past
      past_current := ?_
      past_suspended := by
        rw [keeps.sm, keeps.includeStack]
        exact followed.past_suspended
      agrees := followed.agrees_of_switches_eq keeps.switches keeps.opts
      table := ?_ }
  · intro entry member inside
    rw [keeps.sm, keeps.fid] at inside
    exact (followed.past_current entry member inside).trans forward
  · intro table is_table
    have follows := followed.table table (keeps.switches ▸ is_table)
    refine
      { keys_below := keeps.sm ▸ follows.keys_below
        boundary := keeps.sm ▸ follows.boundary
        current := ?_
        suspended := by
          rw [keeps.sm, keeps.includeStack]
          exact follows.suspended
        now := ?_ }
    · intro key recorded inside
      rw [keeps.sm, keeps.fid] at inside
      exact (follows.current key recorded inside).trans forward
    · rw [keeps.currentSwitchState, ← follows.now]
      refine PointTable.lastAt_eq_of_nothing_between forward fun key recorded key_le => ?_
      rw [keeps.locAt] at key_le
      rcases followed.inBuffer_of_le key_le s.pos with inside | below
      · exact follows.current key recorded inside
      · exact below

theorem ahead_keeps {after : Scanner} (followed : Followed main history s)
    (keeps : Scanner.Keeps s after) (ahead : Ahead history s) : Ahead history after := by
  intro entry member inside
  rw [keeps.sm, keeps.fid] at inside
  rw [keeps.locAt]
  exact (ahead entry member inside).trans_le (followed.locAt_mono keeps.pos_le)

/-- Going forward over at least one character leaves every token strictly behind. -/
theorem ahead_moveTo (followed : Followed main history s) {pos : Nat} (forward : s.pos < pos)
    (pos_lt : s.pos < s.text.length) : Ahead history (s.moveTo pos) := by
  intro entry member inside
  exact (followed.past_current entry member inside).trans_lt
    (followed.locAt_strict forward pos_lt)

/-- A point recorded behind every token of its buffer leaves the answers for all tokens as they
are: a later buffer begins with a point of its own. -/
theorem stateAt_record (followed : Followed main history s) {table : SwitchTable}
    (is_table : s.switches = some table) {fid loc : Nat} (main_le : main ≤ fid)
    (inside : s.sm.InBuffer fid loc)
    (behind : ∀ entry ∈ history, s.sm.InBuffer fid entry.1 → entry.1 < loc)
    (state : CompilerState) {entry : Nat × CompilerState} (member : entry ∈ history) :
    SwitchTable.stateAt (table.record loc state) entry.1 s.opts.defaultSwitches = entry.2 := by
  have agrees := followed.agrees entry member
  simp only [Scanner.tableStateAt, is_table] at agrees
  rw [SwitchTable.stateAt_record, agrees]
  obtain ⟨owner, owner_ge, entry_inside⟩ := followed.past entry member
  rcases lt_trichotomy owner fid with below | rfl | above
  · exact .inl (entry_inside.lt inside below)
  · exact .inl (behind entry member entry_inside)
  · obtain ⟨buffer, found, base_le, le_end⟩ := entry_inside
    have base_inside : s.sm.InBuffer owner buffer.base := ⟨buffer, found, le_rfl, by omega⟩
    exact .inr ⟨buffer.base,
      (followed.table table is_table).boundary owner buffer (main_le.trans_lt above) found,
      inside.lt base_inside above, base_le⟩

end Followed

/-- A table follows a scanner again when a point with the scanner's state is recorded in the buffer
being scanned, behind which there is no other point of that buffer. -/
theorem TableFollows.record {main : Nat} {s : Scanner} {table : SwitchTable} {loc : Nat}
    {buffer : Buffer} (found : s.sm.bufferFor s.fid = some buffer)
    (inside : s.sm.InBuffer s.fid loc) (loc_le : loc ≤ s.locAt s.pos)
    (descending : ∀ frame ∈ s.includeStack, frame.fid < s.fid)
    (keys_below : ∀ key, table.HasKey key → key < s.sm.nextBase)
    (boundary : ∀ fid buffer, main < fid → s.sm.bufferFor fid = some buffer →
      buffer.base = loc ∨ table.HasKey buffer.base)
    (current : ∀ key, table.HasKey key → s.sm.InBuffer s.fid key → key ≤ loc)
    (suspended : ∀ frame ∈ s.includeStack, ∀ key, table.HasKey key →
      s.sm.InBuffer frame.fid key → key ≤ frame.loc s.sm) :
    TableFollows main s (table.record loc s.currentSwitchState) where
  keys_below key recorded := by
    rcases PointTable.hasKey_record.mp recorded with rfl | old
    · exact inside.lt_nextBase
    · exact keys_below key old
  boundary fid other main_lt other_found :=
    PointTable.hasKey_record.mpr (boundary fid other main_lt other_found)
  current key recorded key_inside := by
    rcases PointTable.hasKey_record.mp recorded with rfl | old
    · exact loc_le
    · exact (current key old key_inside).trans loc_le
  suspended frame member key recorded key_inside := by
    rcases PointTable.hasKey_record.mp recorded with rfl | old
    · exact absurd (key_inside.lt inside (descending frame member)) (lt_irrefl key)
    · exact suspended frame member key old key_inside
  now := by
    refine PointTable.lastAt_record_of_le loc_le fun key recorded key_le => ?_
    by_cases base_le : buffer.base ≤ key
    · refine current key recorded ⟨buffer, found, base_le, ?_⟩
      rw [Scanner.locAt, SourceManager.getLocForOffset_eq found] at key_le
      omega
    · obtain ⟨other, other_found, other_le, _⟩ := inside
      obtain rfl : buffer = other := Option.some.inj (found.symm.trans other_found)
      omega

namespace Followed

variable {main : Nat} {history : List (Nat × CompilerState)} {s : Scanner}

theorem frames_lt (followed : Followed main history s) :
    ∀ frame ∈ s.includeStack, frame.fid < s.fid := fun _ member =>
  (List.pairwise_cons.mp followed.descending).1 _ (List.mem_map_of_mem member)

/-- Leaving an include: the boundary point makes the table follow the including file. -/
theorem resume {frame : IncludeFrame} {frames : List IncludeFrame}
    (followed : Followed main history s) (stack_eq : s.includeStack = frame :: frames) :
    Followed main history (s.resume frame frames) ∧ Ahead history (s.resume frame frames) := by
  have frame_mem : frame ∈ s.includeStack := stack_eq ▸ List.mem_cons_self
  have frames_sub : ∀ other ∈ frames, other ∈ s.includeStack := fun other member =>
    stack_eq ▸ List.mem_cons_of_mem frame member
  have behind : ∀ entry ∈ history, s.sm.InBuffer frame.fid entry.1 → entry.1 < frame.loc s.sm :=
    fun entry member => followed.past_suspended entry member frame frame_mem
  obtain ⟨main_le, buffer, found, fits⟩ := followed.frames frame frame_mem
  have inside : s.sm.InBuffer frame.fid (frame.loc s.sm) :=
    SourceManager.inBuffer_getLocForOffset found frame.pos
  have descending := followed.descending
  have bottom := followed.bottom
  rw [stack_eq, List.map_cons] at descending bottom
  have tail_descending := (List.pairwise_cons.mp descending).2
  refine ⟨?_, behind⟩
  refine
    { buffer := ⟨buffer, found, fits⟩
      frames := fun other member => followed.frames other (frames_sub other member)
      descending := tail_descending
      bottom := by rwa [List.getLast?_cons_cons] at bottom
      main_le
      past := followed.past
      past_current := fun entry member inside => (behind entry member inside).le
      past_suspended := fun entry member other other_mem =>
        followed.past_suspended entry member other (frames_sub other other_mem)
      agrees := fun entry member => ?_
      table := fun table is_table => ?_ }
  · cases is_table : s.switches with
    | none =>
        have agrees := followed.agrees entry member
        simpa [Scanner.tableStateAt, Scanner.resume, Scanner.recordBoundary, is_table] using agrees
    | some table =>
        simp only [Scanner.tableStateAt, Scanner.resume, Scanner.recordBoundary, is_table,
          Option.map_some]
        exact followed.stateAt_record is_table main_le inside behind _ member
  · obtain ⟨old, is_old, rfl⟩ := Option.map_eq_some_iff.mp is_table
    have follows := followed.table old is_old
    exact TableFollows.record (s := s.resume frame frames) found inside le_rfl
      (fun other member => (List.pairwise_cons.mp tail_descending).1 _ (List.mem_map_of_mem member))
      follows.keys_below (fun fid other main_lt other_found =>
        .inr (follows.boundary fid other main_lt other_found))
      (fun key recorded => follows.suspended frame frame_mem key recorded)
      (fun other member => follows.suspended other (frames_sub other member))

/-- Entering an include: the boundary point lies behind everything recorded so far. -/
theorem enterInclude {fs : FileSystem} {resolved identity : Text} {fid : Nat} {sm : SourceManager}
    (followed : Followed main history s) (ahead : Ahead history s)
    (added : s.sm.addFile fs resolved = some (fid, sm)) :
    Followed main history (s.enterInclude fid sm identity) := by
  obtain ⟨content, _, added⟩ := SourceManager.addFile_eq_some added
  obtain ⟨_, fid_eq, buffers_eq, nextBase_eq⟩ := SourceManager.addBuffer_eq_some added
  have added_found := SourceManager.bufferFor_added added
  obtain ⟨buffer, found, fits⟩ := followed.buffer
  have fid_gt : s.fid < fid := by
    have := (SourceManager.bufferFor_fid found).2
    omega
  have base_eq : sm.getLocForOffset fid 0 = s.sm.nextBase := by
    simp [SourceManager.getLocForOffset_eq added_found]
  have new_inside : sm.InBuffer fid (sm.getLocForOffset fid 0) :=
    SourceManager.inBuffer_getLocForOffset added_found 0
  have past_below : ∀ entry ∈ history, entry.1 < sm.getLocForOffset fid 0 := by
    intro entry member
    obtain ⟨owner, _, inside⟩ := followed.past entry member
    exact base_eq ▸ inside.lt_nextBase
  have descending : ((fid :: s.fid :: s.includeStack.map IncludeFrame.fid).Pairwise (· > ·)) := by
    refine List.pairwise_cons.mpr ⟨fun other member => ?_, followed.descending⟩
    rcases List.mem_cons.mp member with rfl | suspended
    · exact fid_gt
    · exact ((List.pairwise_cons.mp followed.descending).1 other suspended).trans fid_gt
  refine
    { buffer := ⟨_, added_found, ?_⟩
      frames := fun frame member => ?_
      descending
      bottom := by
        have bottom := followed.bottom
        rwa [← List.getLast?_cons_cons] at bottom
      main_le := followed.main_le.trans fid_gt.le
      past := fun entry member => ?_
      past_current := fun entry member inside => (past_below entry member).le
      past_suspended := fun entry member frame frame_mem inside => ?_
      agrees := fun entry member => ?_
      table := fun table is_table => ?_ }
  · have data_eq : sm.getBufferData fid = SourceManager.dropByteOrderMark content := by
      simp [SourceManager.getBufferData, added_found]
    change (Scanner.truncateAtCtrlZ (sm.getBufferData fid) s.opts).length ≤ _
    rw [data_eq]
    exact Scanner.length_truncateAtCtrlZ_le _ s.opts
  · rcases List.mem_cons.mp member with rfl | old
    · exact ⟨followed.main_le, buffer, SourceManager.bufferFor_addBuffer added found, fits⟩
    · obtain ⟨main_le, other, other_found, other_fits⟩ := followed.frames frame old
      exact ⟨main_le, other, SourceManager.bufferFor_addBuffer added other_found, other_fits⟩
  · obtain ⟨owner, main_le, inside⟩ := followed.past entry member
    exact ⟨owner, main_le, inside.addBuffer added⟩
  · rcases List.mem_cons.mp frame_mem with rfl | old
    · change entry.1 < sm.getLocForOffset s.fid s.pos
      rw [SourceManager.getLocForOffset_addBuffer added found]
      exact ahead entry member (inside.of_addBuffer added found)
    · obtain ⟨_, other, other_found, _⟩ := followed.frames frame old
      change entry.1 < sm.getLocForOffset frame.fid frame.pos
      rw [SourceManager.getLocForOffset_addBuffer added other_found]
      exact followed.past_suspended entry member frame old (inside.of_addBuffer added other_found)
  · have agrees := followed.agrees entry member
    cases is_table : s.switches with
    | none =>
        simpa [Scanner.tableStateAt, Scanner.enterInclude, Scanner.recordBoundary, is_table]
          using agrees
    | some table =>
        simp only [Scanner.tableStateAt, is_table] at agrees
        simp only [Scanner.tableStateAt, Scanner.enterInclude, Scanner.recordBoundary, is_table,
          Option.map_some]
        exact (SwitchTable.stateAt_record (.inl (past_below entry member))).trans agrees
  · obtain ⟨old, is_old, rfl⟩ := Option.map_eq_some_iff.mp is_table
    have follows := followed.table old is_old
    have keys_below : ∀ key, old.HasKey key → key < sm.getLocForOffset fid 0 :=
      fun key recorded => base_eq ▸ follows.keys_below key recorded
    refine TableFollows.record (s := s.enterInclude fid sm identity) added_found new_inside le_rfl
      (fun frame member => (List.pairwise_cons.mp descending).1 _ (List.mem_map_of_mem member))
      (fun key recorded => (keys_below key recorded).trans new_inside.lt_nextBase)
      (fun owner other main_lt other_found => ?_)
      (fun key recorded _ => (keys_below key recorded).le)
      (fun frame frame_mem key recorded inside => ?_)
    · by_cases is_new : owner = fid
      · subst is_new
        obtain rfl := Option.some.inj (added_found.symm.trans other_found)
        exact .inl base_eq.symm
      · exact .inr (follows.boundary owner other main_lt
          (SourceManager.bufferFor_of_addBuffer added other_found is_new))
    · rcases List.mem_cons.mp frame_mem with rfl | old_frame
      · change key ≤ sm.getLocForOffset s.fid s.pos
        rw [SourceManager.getLocForOffset_addBuffer added found]
        exact follows.current key recorded (inside.of_addBuffer added found)
      · obtain ⟨_, other, other_found, _⟩ := followed.frames frame old_frame
        change key ≤ sm.getLocForOffset frame.fid frame.pos
        rw [SourceManager.getLocForOffset_addBuffer added other_found]
        exact follows.suspended frame old_frame key recorded
          (inside.of_addBuffer added other_found)

/-- Setting a switch in the buffer being scanned, behind its tokens and its points. -/
theorem applySwitch (followed : Followed main history s) {loc : Nat}
    (inside : s.sm.InBuffer s.fid loc) (loc_le : loc ≤ s.locAt s.pos)
    (behind : ∀ entry ∈ history, s.sm.InBuffer s.fid entry.1 → entry.1 < loc)
    (behind_points : ∀ table, s.switches = some table → ∀ key, table.HasKey key →
      s.sm.InBuffer s.fid key → key ≤ loc)
    (in_time : s.switches.isSome ∨ s.includeStack.isEmpty ∧ s.fid = s.sm.buffers.length)
    (switch : Switch) (value : Bool) :
    Followed main history (s.applySwitch switch value loc) := by
  obtain ⟨buffer, found, fits⟩ := followed.buffer
  refine
    { buffer := followed.buffer
      frames := followed.frames
      descending := followed.descending
      bottom := followed.bottom
      main_le := followed.main_le
      past := followed.past
      past_current := followed.past_current
      past_suspended := followed.past_suspended
      agrees := fun entry member => ?_
      table := fun table is_table => ?_ }
  · cases is_table : s.switches with
    | some table =>
        simp only [Scanner.tableStateAt, Scanner.applySwitch, is_table, Option.getD_some]
        exact followed.stateAt_record is_table followed.main_le inside behind _ member
    | none =>
        -- no include has been opened, so every token lies in this buffer
        obtain ⟨stack_nil, fid_eq⟩ : s.includeStack = [] ∧ s.fid = s.sm.buffers.length := by
          simpa [is_table, List.isEmpty_iff] using in_time
        have agrees := followed.agrees entry member
        obtain ⟨owner, _, entry_inside⟩ := followed.past entry member
        have entry_lt : entry.1 < loc := by
          have owner_le : owner ≤ s.sm.buffers.length := by
            obtain ⟨other, other_found, _⟩ := entry_inside
            exact (SourceManager.bufferFor_fid other_found).2
          rcases (fid_eq ▸ owner_le : owner ≤ s.fid).lt_or_eq with below | rfl
          · exact entry_inside.lt inside below
          · exact behind entry member entry_inside
        simp only [Scanner.tableStateAt, Scanner.applySwitch, is_table, Option.getD_none]
        rw [SwitchTable.stateAt_record (.inl entry_lt), ← agrees]
        simp [Scanner.tableStateAt, is_table, SwitchTable.stateAt, PointTable.lastAt_empty]
  · obtain rfl := Option.some.inj is_table
    cases is_old : s.switches with
    | some old =>
        have follows := followed.table old is_old
        exact TableFollows.record (s := s.applySwitch switch value loc) found inside loc_le
          followed.frames_lt follows.keys_below
          (fun fid other main_lt other_found =>
            .inr (follows.boundary fid other main_lt other_found))
          (behind_points old is_old) follows.suspended
    | none =>
        obtain ⟨stack_nil, fid_eq⟩ : s.includeStack = [] ∧ s.fid = s.sm.buffers.length := by
          simpa [is_old, List.isEmpty_iff] using in_time
        have main_eq : s.fid = main := by simpa [stack_nil] using followed.bottom
        have empty_keys {key : Nat} : ¬ (PointTable.empty : SwitchTable).HasKey key :=
          fun recorded => recorded.elim fun _ member => List.not_mem_nil member
        refine TableFollows.record (s := s.applySwitch switch value loc) found inside loc_le
          followed.frames_lt (fun _ recorded => absurd recorded empty_keys)
          (fun fid other main_lt other_found => ?_)
          (fun _ recorded => absurd recorded empty_keys)
          (fun _ _ _ recorded => absurd recorded empty_keys)
        have fid_le := (SourceManager.bufferFor_fid other_found).2
        change fid ≤ s.sm.buffers.length at fid_le
        omega

theorem applySwitches (followed : Followed main history s) {loc : Nat}
    (inside : s.sm.InBuffer s.fid loc) (loc_le : loc ≤ s.locAt s.pos)
    (behind : ∀ entry ∈ history, s.sm.InBuffer s.fid entry.1 → entry.1 < loc)
    (behind_points : ∀ table, s.switches = some table → ∀ key, table.HasKey key →
      s.sm.InBuffer s.fid key → key ≤ loc)
    (in_time : s.switches.isSome ∨ s.includeStack.isEmpty ∧ s.fid = s.sm.buffers.length)
    (changes : List (Switch × Bool)) :
    Followed main history (s.applySwitches changes loc) := by
  induction changes generalizing s with
  | nil => exact followed
  | cons change changes induction =>
      refine induction
        (followed.applySwitch inside loc_le behind behind_points in_time change.1 change.2)
        inside loc_le behind (fun table is_table key recorded key_inside => ?_) (.inl rfl)
      obtain rfl := Option.some.inj is_table
      rcases PointTable.hasKey_record.mp recorded with rfl | old
      · exact le_rfl
      · cases is_old : s.switches with
        | some table =>
            rw [is_old] at old
            exact behind_points table is_old key old key_inside
        | none =>
            rw [is_old] at old
            obtain ⟨_, member⟩ := old
            exact absurd member List.not_mem_nil

theorem seekCloser (braced : Bool) {stack : List IncludeFrame} (body : Text) (sawOther : Bool)
    (stack_eq : s.includeStack = stack) (followed : Followed main history s)
    (ahead : Ahead history s) :
    Followed main history (Scanner.seekCloser braced stack s body sawOther).scanner ∧
      Ahead history (Scanner.seekCloser braced stack s body sawOther).scanner := by
  induction stack generalizing s body sawOther with
  | nil =>
      unfold Scanner.seekCloser
      split
      · exact ⟨followed.keeps (.advance ..), followed.ahead_keeps (.advance ..) ahead⟩
      · exact ⟨followed.keeps (.advance ..), followed.ahead_keeps (.advance ..) ahead⟩
  | cons frame frames induction =>
      unfold Scanner.seekCloser
      split
      · exact ⟨followed.keeps (.advance ..), followed.ahead_keeps (.advance ..) ahead⟩
      · obtain ⟨followed, ahead⟩ := followed.resume stack_eq
        exact induction _ _ rfl followed ahead

theorem skipDirective (fs : FileSystem) {braced : Bool} (followed : Followed main history s)
    (pos_lt : s.pos < s.text.length)
    (in_place : ∀ body ∈ (s.seekDirective braced).body, (bodySwitches body).isSome →
      (findCloser braced (s.moveTo (s.bodyStart braced)).rest).isSome ∧
        (s.switches.isSome ∨ s.includeStack.isEmpty ∧ s.fid = s.sm.buffers.length)) :
    Followed main history (s.skipDirective fs braced) := by
  have start_gt : s.pos < s.bodyStart braced := by
    unfold Scanner.bodyStart
    omega
  have moved := followed.keeps (Scanner.Keeps.moveTo start_gt.le)
  have ahead := followed.ahead_moveTo start_gt pos_lt
  obtain ⟨sought, sought_ahead⟩ := moved.seekCloser braced [] false rfl ahead
  unfold Scanner.skipDirective
  simp only
  split
  case h_2 => exact sought.keeps (Scanner.Stays.reportUnclosed ..).toKeeps
  case h_1 body body_eq =>
    rcases Scanner.dispatchDirective_cases fs (s.seekDirective braced).scanner body
        (s.locAt (s.bodyStart braced)) with stays | ⟨path, fid, sm, includes, entered⟩ |
        ⟨changes, parsed, applied⟩
    · exact sought.keeps stays.toKeeps
    · rw [entered]
      exact sought.enterInclude sought_ahead includes.added
    · rw [applied]
      obtain ⟨closed, in_time⟩ := in_place body body_eq (by simp [parsed])
      obtain ⟨piece, piece_eq⟩ := Option.isSome_iff_exists.mp closed
      have stays : (s.seekDirective braced).scanner = (s.moveTo (s.bodyStart braced)).advance
          (piece.length + (closer braced).length) := by
        unfold Scanner.seekDirective Scanner.seekCloser
        rw [piece_eq]
      rw [stays]
      have loc_le : s.locAt s.pos ≤ s.locAt (s.bodyStart braced) := followed.locAt_mono start_gt.le
      refine (moved.keeps (.advance ..)).applySwitches (followed.inBuffer_locAt _)
        (followed.locAt_mono (Nat.le_add_right _ _)) ahead
        (fun table is_table key recorded inside => ?_) in_time changes
      exact ((followed.table table is_table).current key recorded inside).trans loc_le

/-- A token returned at the scanner's place joins the history with the state held. -/
theorem emit {after : Scanner} (followed : Followed main history s)
    (keeps : Scanner.Keeps s after) :
    Followed main (history ++ [(s.locAt s.pos, s.switchState)]) after := by
  have inside := followed.inBuffer_locAt s.pos
  have old := followed.keeps keeps
  refine
    { old with
      past := fun entry member => ?_
      past_current := fun entry member entry_inside => ?_
      past_suspended := fun entry member frame frame_mem entry_inside => ?_
      agrees := fun entry member => ?_ }
  all_goals rcases List.mem_append.mp member with before | new
  all_goals try obtain rfl := List.mem_singleton.mp new
  · exact old.past entry before
  · exact ⟨s.fid, followed.main_le, keeps.sm ▸ inside⟩
  · exact old.past_current entry before entry_inside
  · rw [← keeps.locAt]
    exact old.locAt_mono keeps.pos_le
  · exact old.past_suspended entry before frame frame_mem entry_inside
  · rw [keeps.includeStack] at frame_mem
    rw [keeps.sm] at entry_inside
    exact absurd (entry_inside.lt inside (followed.frames_lt frame frame_mem)) (lt_irrefl _)
  · exact old.agrees entry before
  · simp only [Scanner.tableStateAt, Scanner.switchState, keeps.switches, keeps.opts]
    cases is_table : s.switches with
    | none => simp
    | some table =>
        simpa using SwitchTable.stateAt_eq_of_lastAt inside.pos (followed.table table is_table).now

/-- One turn of the scanner; the token it returns joins the history with the state held. -/
theorem step (fs : FileSystem) (followed : Followed main history s)
    (in_place : s.SwitchesInPlace) :
    Followed main
      (history ++ (s.step fs).2.toList.map fun token => (token.loc, s.switchState))
      (s.step fs).1 := by
  have silent {after : Scanner} (after_followed : Followed main history after) :
      Followed main (history ++ (none : Option Token).toList.map fun token =>
        (token.loc, s.switchState)) after := by
    simpa using after_followed
  unfold Scanner.step
  split
  case h_1 depth _ =>
    apply silent
    rcases s.skipToNextConditionalMarker_cases depth with keeps |
      ⟨frame, frames, _, stack_eq, eq⟩
    · exact followed.keeps keeps
    · rw [eq]
      exact (followed.resume stack_eq).1
  case h_2 live =>
    split
    case h_1 =>
      unfold Scanner.popInclude
      cases stack_eq : s.includeStack with
      | nil => exact followed.emit (Scanner.Stays.reportUnterminatedConditionals s).toKeeps
      | cons frame frames => exact silent (followed.resume stack_eq).1
    case h_2 c after rest_eq =>
      have pos_lt : s.pos < s.text.length := by
        have := congrArg List.length rest_eq
        simp only [Scanner.rest, List.length_drop, List.length_cons] at this
        omega
      split_ifs
      · exact silent (followed.keeps (.advance ..))
      · split
        case h_1 braced trivia_eq =>
          exact silent (followed.skipDirective fs pos_lt (in_place braced live trivia_eq))
        case h_2 braced _ =>
          apply silent
          unfold Scanner.skipComment
          split_ifs
          · have start_gt : s.pos < s.pos + (opener braced).length := by
              cases braced <;> simp [opener]
            obtain ⟨sought, _⟩ := (followed.keeps (.moveTo start_gt.le)).seekCloser braced []
              false rfl (followed.ahead_moveTo start_gt pos_lt)
            unfold Scanner.skipCommentTurbo
            simp only
            split
            · exact sought
            · exact sought.keeps (Scanner.Stays.reportUnclosed ..).toKeeps
          · exact followed.keeps (.skipCommentISO ..)
        case h_3 => exact silent (followed.keeps (.skipLineComment s))
        case h_4 =>
          have emitted := followed.emit (Scanner.Keeps.returnToken s)
          have kept := followed.keeps (Scanner.Keeps.returnToken s)
          unfold Scanner.returnToken at emitted kept ⊢
          simp only at emitted kept ⊢
          split_ifs at emitted kept ⊢ with error
          · exact silent kept
          · exact emitted

/-- A scanner at the start of its main buffer. -/
theorem atStart {sm : SourceManager} {fid : Nat} {buffer : Buffer}
    (found : sm.bufferFor fid = some buffer) (opts : LangOptions) (paths : List Text) :
    Followed fid [] { Scanner.atStart sm opts fid with openIncludePaths := paths } := by
  have data_eq : sm.getBufferData fid = buffer.text := by
    simp [SourceManager.getBufferData, found]
  refine
    { buffer := ⟨buffer, found, ?_⟩
      frames := fun _ member => absurd member List.not_mem_nil
      descending := List.pairwise_singleton _ _
      bottom := rfl
      main_le := le_rfl
      past := fun _ member => absurd member List.not_mem_nil
      past_current := fun _ member => absurd member List.not_mem_nil
      past_suspended := fun _ member => absurd member List.not_mem_nil
      agrees := fun _ member => absurd member List.not_mem_nil
      table := fun _ is_table => by cases is_table }
  change (Scanner.truncateAtCtrlZ (sm.getBufferData fid) opts).length ≤ _
  rw [data_eq]
  exact Scanner.length_truncateAtCtrlZ_le _ opts

end Followed

/-- A scanner that could not open its file has nothing to read and no table. -/
structure Scanner.Idle (opts : LangOptions) (s : Scanner) : Prop where
  opts : s.opts = opts
  text : s.text = []
  includeStack : s.includeStack = []
  switches : s.switches = none
  skipDepth : s.skipDepth = none

theorem Scanner.Idle.step {opts : LangOptions} {s : Scanner} (idle : s.Idle opts)
    (fs : FileSystem) : (s.step fs).1.Idle opts := by
  have rest_nil : s.rest = [] := by simp [Scanner.rest, idle.text]
  have step_eq : (s.step fs).1 = s.reportUnterminatedConditionals := by
    simp [Scanner.step, idle.skipDepth, rest_nil, Scanner.popInclude, idle.includeStack]
  rw [step_eq]
  exact ⟨idle.opts, idle.text, idle.includeStack, idle.switches, idle.skipDepth⟩

theorem Scanner.Idle.keeps {opts : LangOptions} {s after : Scanner} (idle : s.Idle opts)
    (keeps : Scanner.Keeps s after) (skipDepth : after.skipDepth = s.skipDepth) :
    after.Idle opts :=
  ⟨keeps.opts.trans idle.opts, keeps.text.trans idle.text,
    keeps.includeStack.trans idle.includeStack, keeps.switches.trans idle.switches,
    skipDepth.trans idle.skipDepth⟩

theorem Scanner.Idle.unopened (allow : Nat → Bool) (sm : SourceManager) (opts : LangOptions)
    (id : DiagID) (args : List Text) :
    (Session.returned allow ((Scanner.unopened sm opts).emitError 0 id args) []).scanner.Idle
      opts := by
  have idle : ((Scanner.unopened sm opts).emitError 0 id args).Idle opts :=
    ⟨rfl, rfl, rfl, rfl, rfl⟩
  refine idle.keeps (Scanner.Stays.returned allow _ []).toKeeps ?_
  unfold Session.returned
  simp only
  split <;> rfl

theorem Scanner.Idle.switchState {opts : LangOptions} {s : Scanner} (idle : s.Idle opts) :
    s.switchState = opts.defaultSwitches := by
  simp [Scanner.switchState, idle.switches, idle.opts]

theorem Scanner.Idle.tableStateAt {opts : LangOptions} {s : Scanner} (idle : s.Idle opts)
    (loc : Nat) : s.tableStateAt loc = opts.defaultSwitches := by
  simp [Scanner.tableStateAt, idle.switches, idle.opts]

namespace Session

/-- The tokens returned in a number of turns, each with the switch state held when it was. -/
def history (fs : FileSystem) (allow : Nat → Bool) (session : Session) :
    Nat → List (Token × CompilerState)
  | 0 => []
  | turns + 1 =>
      let s := (session.run fs allow turns).scanner
      history fs allow session turns ++
        (s.step fs).2.toList.map fun token => (token, s.switchState)

theorem step_keeps (fs : FileSystem) (allow : Nat → Bool) (session : Session) :
    Scanner.Keeps (session.scanner.step fs).1 (session.step fs allow).scanner ∧
      (session.step fs allow).scanner.skipDepth = (session.scanner.step fs).1.skipDepth := by
  unfold step
  obtain ⟨after, token⟩ := session.scanner.step fs
  cases token with
  | none => exact ⟨.refl after, rfl⟩
  | some token =>
      refine ⟨(Scanner.Stays.returned allow after _).toKeeps, ?_⟩
      unfold returned
      simp only
      split <;> rfl

theorem run_followed {fs : FileSystem} {allow : Nat → Bool} {session : Session} {main : Nat}
    (start : Followed main [] session.scanner) (turns : Nat)
    (in_place : ∀ turn < turns, (session.run fs allow turn).scanner.SwitchesInPlace) :
    Followed main
      ((session.history fs allow turns).map fun entry => (entry.1.loc, entry.2))
      (session.run fs allow turns).scanner := by
  induction turns with
  | zero => exact start
  | succ turns induction =>
      have before := induction fun turn lt => in_place turn (lt.trans turns.lt_succ_self)
      have turned := before.step fs (in_place turns turns.lt_succ_self)
      have kept := turned.keeps (step_keeps fs allow _).1
      rw [run_succ, history]
      simpa [List.map_map, Function.comp_def] using kept

theorem run_idle (fs : FileSystem) (allow : Nat → Bool) {session : Session} {opts : LangOptions}
    (start : session.scanner.Idle opts) (turns : Nat) :
    (session.run fs allow turns).scanner.Idle opts ∧
      ∀ entry ∈ session.history fs allow turns, entry.2 = opts.defaultSwitches := by
  induction turns with
  | zero => exact ⟨start, fun _ member => absurd member List.not_mem_nil⟩
  | succ turns induction =>
      obtain ⟨keeps, skipDepth⟩ := step_keeps fs allow (session.run fs allow turns)
      refine ⟨?_, fun entry member => ?_⟩
      · rw [run_succ]
        exact (induction.1.step fs).keeps keeps skipDepth
      · rcases List.mem_append.mp member with before | new
        · exact induction.2 entry before
        · obtain ⟨token, _, rfl⟩ := List.mem_map.mp new
          exact induction.1.switchState

theorem start_followed {fs : FileSystem} {allow : Nat → Bool} {session : Session}
    (start : session.Start fs allow) :
    (∃ main, Followed main [] session.scanner) ∨ ∃ opts, session.scanner.Idle opts := by
  rcases start with ⟨sm, filename, opts, rfl⟩ | ⟨sm, sourceName, content, opts, rfl⟩
  · cases added : sm.addFile fs filename with
    | none =>
        simp only [ofFile, Scanner.ofFile, added]
        exact .inr ⟨opts, Scanner.Idle.unopened allow sm opts _ _⟩
    | some entry =>
        obtain ⟨fid, after⟩ := entry
        obtain ⟨_, _, buffered⟩ := SourceManager.addFile_eq_some added
        simp only [ofFile, Scanner.ofFile, added]
        exact .inl ⟨fid, (Followed.atStart (SourceManager.bufferFor_added buffered) opts _).keeps
          (Scanner.Stays.returned allow _ []).toKeeps⟩
  · cases added : sm.addBuffer sourceName content with
    | none =>
        simp only [ofBuffer, Scanner.ofBuffer, added]
        exact .inr ⟨opts, Scanner.Idle.unopened allow sm opts _ _⟩
    | some entry =>
        obtain ⟨fid, after⟩ := entry
        simp only [ofBuffer, Scanner.ofBuffer, added]
        exact .inl ⟨fid, (Followed.atStart (SourceManager.bufferFor_added added) opts []).keeps
          (Scanner.Stays.returned allow _ []).toKeeps⟩

/-- Where every switch directive is applied in place, the table answers every token with the switch
state the scanner held when it returned the token, then and ever after. -/
theorem table_agrees {fs : FileSystem} {allow : Nat → Bool} {session : Session}
    (start : session.Start fs allow) (turns : Nat)
    (in_place : ∀ turn < turns, (session.run fs allow turn).scanner.SwitchesInPlace) :
    ∀ entry ∈ session.history fs allow turns,
      (session.run fs allow turns).scanner.tableStateAt entry.1.loc = entry.2 := by
  intro entry member
  rcases start_followed start with ⟨main, followed⟩ | ⟨opts, idle⟩
  · exact (run_followed followed turns in_place).agrees (entry.1.loc, entry.2)
      (List.mem_map.mpr ⟨entry, member, rfl⟩)
  · obtain ⟨after, states⟩ := run_idle fs allow idle turns
    rw [after.tableStateAt, states entry member]

/-- The switch stands in front of the include; the tokens of the include and of the main file have
both been returned. -/
theorem table_agrees_switch_first :
    ((includeSession "{$R-}{$I a} y").history (includeExample "{$R-}{$I a} y")
        (fun _ => false) 6).length = 2 ∧
      ∀ entry ∈ (includeSession "{$R-}{$I a} y").history (includeExample "{$R-}{$I a} y")
          (fun _ => false) 6,
        ((includeSession "{$R-}{$I a} y").run (includeExample "{$R-}{$I a} y")
          (fun _ => false) 6).scanner.tableStateAt entry.1.loc = entry.2 :=
  ⟨by decide +kernel, table_agrees (.inl ⟨_, _, _, rfl⟩) 6 (by decide +kernel)⟩

/-- The switch is set after the include has been read, and the table answers it for the token of
the include. -/
theorem table_disagrees :
    ∃ entry ∈ (includeSession "{$I a}{$R-} y").history (includeExample "{$I a}{$R-} y")
        (fun _ => false) 5,
      ((includeSession "{$I a}{$R-} y").run (includeExample "{$I a}{$R-} y")
        (fun _ => false) 5).scanner.tableStateAt entry.1.loc ≠ entry.2 := by
  decide +kernel

end Session

end Plang
