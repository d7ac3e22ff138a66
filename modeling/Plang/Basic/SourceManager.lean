import Mathlib.Order.Nat
import Plang.Basic.Text

/-!
# Source buffers, locations and the files they come from

Every buffer owns a contiguous stretch of one coordinate space, so that a location is one number,
zero being nowhere.  A buffer is known by its number, zero being no buffer.  The operating system
answers for the files; path arithmetic is the library's.
-/

namespace Plang

/-- The answers of the file system about a path. -/
structure FileSystem where
  /-- The path, links followed, is a regular file. -/
  is_regular_file : Text → Bool
  /-- Size in bytes, when it can be told. -/
  file_size : Text → Option Nat
  /-- The bytes, when the file can be opened. -/
  read : Text → Option Text
  /-- The path with links, `.` and `..` resolved, when that succeeds. -/
  canonical : Text → Option Text
  /-- The working directory, when it can be told. -/
  current_path : Option Text

namespace Path

/-- A path from the root. -/
def is_absolute (path : Text) : Bool := path.head? == some '/'

/-- The path without its last component. -/
def parent_path (path : Text) : Text :=
  let directory := (path.reverse.dropWhile (· != '/')).reverse
  let trimmed := (directory.reverse.dropWhile (· == '/')).reverse
  if trimmed.isEmpty && !directory.isEmpty then ['/'] else trimmed

/-- `left / right`. -/
def join (left right : Text) : Text :=
  if is_absolute right || left.isEmpty then right
  else if left.getLast? == some '/' then left ++ right
  else left ++ '/' :: right

end Path

/-- One source buffer. -/
structure Buffer where
  /-- The name it was added under. -/
  name : Text
  /-- Its whole text. -/
  text : Text
  /-- The first location of its stretch. -/
  base : Nat
  deriving DecidableEq

/-- Buffers laid end to end from a start, one location apart, up to where the next one goes. -/
def Laid : Nat → List Buffer → Nat → Prop
  | start, [], next => start = next
  | start, buffer :: buffers, next =>
      buffer.base = start ∧ Laid (start + buffer.text.length + 1) buffers next

theorem Laid.append {start next : Nat} {buffers : List Buffer} (laid : Laid start buffers next)
    {buffer : Buffer} (base_eq : buffer.base = next) :
    Laid start (buffers ++ [buffer]) (next + buffer.text.length + 1) := by
  induction buffers generalizing start with
  | nil =>
      obtain rfl : start = next := laid
      exact ⟨base_eq, rfl⟩
  | cons first buffers induction => exact ⟨laid.1, induction laid.2⟩

theorem Laid.start_le {start next : Nat} {buffers : List Buffer} (laid : Laid start buffers next) :
    start ≤ next := by
  induction buffers generalizing start with
  | nil => exact laid.le
  | cons first buffers induction => exact le_trans (by omega) (induction laid.2)

theorem Laid.bounds {start next : Nat} {buffers : List Buffer} (laid : Laid start buffers next)
    {buffer : Buffer} (member : buffer ∈ buffers) :
    start ≤ buffer.base ∧ buffer.base + buffer.text.length < next := by
  induction buffers generalizing start with
  | nil => cases member
  | cons first buffers induction =>
      rcases List.mem_cons.mp member with rfl | later
      · have base_eq := laid.1
        have next_ge := laid.2.start_le
        omega
      · have tail_bounds := induction laid.2 later
        omega

theorem Laid.separated {start next : Nat} {buffers : List Buffer} (laid : Laid start buffers next) :
    buffers.Pairwise fun left right => left.base + left.text.length < right.base := by
  induction buffers generalizing start with
  | nil => exact List.Pairwise.nil
  | cons first buffers induction =>
      refine List.pairwise_cons.mpr ⟨fun buffer member => ?_, induction laid.2⟩
      have base_eq := laid.1
      have later := (laid.2.bounds member).1
      omega

/-- The owner of every source buffer. -/
structure SourceManager where
  /-- The buffers, in the order they were added. -/
  buffers : List Buffer := []
  /-- Where the next buffer starts. -/
  nextBase : Nat := 1
  /-- The buffers share no location. -/
  laid : Laid 1 buffers nextBase := by rfl

namespace SourceManager

/-- No buffer has been added yet. -/
def empty : SourceManager := {}

/-- The largest 32-bit location. -/
def maxLocation : Nat := 4294967295

/-- A buffer of this size would run past the largest location. -/
def wouldOverflow (sm : SourceManager) (size : Nat) : Bool :=
  decide (maxLocation < sm.nextBase + size + 1)

/-- A leading UTF-8 byte order mark is not part of the source. -/
def dropByteOrderMark : Text → Text
  | '\xef' :: '\xbb' :: '\xbf' :: rest => rest
  | text => text

/-- Take a buffer and return its number, unless the coordinate space is full. -/
def addBuffer (sm : SourceManager) (name text : Text) : Option (Nat × SourceManager) :=
  let text := dropByteOrderMark text
  if sm.wouldOverflow text.length then
    none
  else
    some (sm.buffers.length + 1,
      { buffers := sm.buffers ++ [{ name, text, base := sm.nextBase }]
        nextBase := sm.nextBase + text.length + 1
        laid := sm.laid.append rfl })

/-- Read a file as a buffer; its size is asked for before it is read. -/
def addFile (sm : SourceManager) (fs : FileSystem) (path : Text) :
    Option (Nat × SourceManager) :=
  if (fs.file_size path).any sm.wouldOverflow then
    none
  else
    (fs.read path).bind (sm.addBuffer path)

/-- The buffer with the given number. -/
def bufferFor (sm : SourceManager) (fid : Nat) : Option Buffer :=
  if fid = 0 then none else sm.buffers[fid - 1]?

/-- The location of a byte of a buffer; an offset past the end is moved to the end. -/
def getLocForOffset (sm : SourceManager) (fid : Nat) (offset : Nat) : Nat :=
  match sm.bufferFor fid with
  | none => 0
  | some buffer => buffer.base + min offset buffer.text.length

/-- The whole text of a buffer. -/
def getBufferData (sm : SourceManager) (fid : Nat) : Text :=
  ((sm.bufferFor fid).map Buffer.text).getD []

/-- The name a buffer was added under. -/
def getBufferName (sm : SourceManager) (fid : Nat) : Text :=
  ((sm.bufferFor fid).map Buffer.name).getD []

theorem addBuffer_eq_some {sm after : SourceManager} {name text : Text} {fid : Nat}
    (added : sm.addBuffer name text = some (fid, after)) :
    sm.nextBase + (dropByteOrderMark text).length + 1 ≤ maxLocation ∧
      fid = sm.buffers.length + 1 ∧
      after.buffers =
        sm.buffers ++ [{ name, text := dropByteOrderMark text, base := sm.nextBase }] ∧
      after.nextBase = sm.nextBase + (dropByteOrderMark text).length + 1 := by
  unfold addBuffer at added
  by_cases full : sm.wouldOverflow (dropByteOrderMark text).length = true
  · simp [full] at added
  · simp only [full] at added
    obtain ⟨rfl, rfl⟩ := Prod.mk.inj (Option.some.inj added)
    exact ⟨by simpa [wouldOverflow] using full, rfl, rfl, rfl⟩

theorem addFile_eq_some {sm after : SourceManager} {fs : FileSystem} {path : Text} {fid : Nat}
    (added : sm.addFile fs path = some (fid, after)) :
    ∃ text, fs.read path = some text ∧ sm.addBuffer path text = some (fid, after) := by
  unfold addFile at added
  split at added
  · cases added
  · exact Option.bind_eq_some_iff.mp added

/-- A location lies in a buffer or at its end. -/
def InBuffer (sm : SourceManager) (fid : Nat) (loc : Nat) : Prop :=
  ∃ buffer, sm.bufferFor fid = some buffer ∧ buffer.base ≤ loc ∧
    loc ≤ buffer.base + buffer.text.length

theorem bufferFor_mem {sm : SourceManager} {fid : Nat} {buffer : Buffer}
    (found : sm.bufferFor fid = some buffer) : buffer ∈ sm.buffers := by
  unfold bufferFor at found
  split at found
  · cases found
  · exact List.mem_of_getElem? found

theorem bufferFor_fid {sm : SourceManager} {fid : Nat} {buffer : Buffer}
    (found : sm.bufferFor fid = some buffer) : 0 < fid ∧ fid ≤ sm.buffers.length := by
  unfold bufferFor at found
  split at found
  · cases found
  · have index_lt := (List.getElem?_eq_some_iff.mp found).1
    change fid - 1 < sm.buffers.length at index_lt
    omega

theorem InBuffer.pos {sm : SourceManager} {fid : Nat} {loc : Nat}
    (inside : sm.InBuffer fid loc) : 0 < loc := by
  obtain ⟨buffer, found, base_le, _⟩ := inside
  exact (sm.laid.bounds (bufferFor_mem found)).1.trans base_le

theorem InBuffer.lt_nextBase {sm : SourceManager} {fid : Nat} {loc : Nat}
    (inside : sm.InBuffer fid loc) : loc < sm.nextBase := by
  obtain ⟨buffer, found, _, le_end⟩ := inside
  exact le_end.trans_lt (sm.laid.bounds (bufferFor_mem found)).2

/-- Every location of a buffer is below every location of a later one. -/
theorem InBuffer.lt {sm : SourceManager} {left right : Nat} {loc later : Nat}
    (inside : sm.InBuffer left loc) (inside_later : sm.InBuffer right later)
    (fid_lt : left < right) : loc < later := by
  obtain ⟨buffer, found, _, le_end⟩ := inside
  obtain ⟨other, found_other, base_le, _⟩ := inside_later
  have left_pos := (bufferFor_fid found).1
  have right_pos := (bufferFor_fid found_other).1
  unfold bufferFor at found found_other
  rw [if_neg left_pos.ne'] at found
  rw [if_neg right_pos.ne'] at found_other
  obtain ⟨left_lt, rfl⟩ := List.getElem?_eq_some_iff.mp found
  obtain ⟨right_lt, rfl⟩ := List.getElem?_eq_some_iff.mp found_other
  have apart := List.pairwise_iff_getElem.mp sm.laid.separated (left - 1) (right - 1) left_lt
    right_lt (by omega)
  omega

/-- Adding a buffer leaves the earlier ones as they are. -/
theorem bufferFor_addBuffer {sm after : SourceManager} {name text : Text} {fid : Nat}
    (added : sm.addBuffer name text = some (fid, after)) {old : Nat} {buffer : Buffer}
    (found : sm.bufferFor old = some buffer) : after.bufferFor old = some buffer := by
  have old_pos := (bufferFor_fid found).1
  unfold bufferFor at found ⊢
  rw [if_neg old_pos.ne'] at found ⊢
  rw [(addBuffer_eq_some added).2.2.1]
  exact (List.getElem?_append_left (List.getElem?_eq_some_iff.mp found).1).trans found

theorem getBufferName_addBuffer {sm after : SourceManager} {name text : Text} {fid : Nat}
    (added : sm.addBuffer name text = some (fid, after)) {old : Nat}
    (known : old ≤ sm.buffers.length) : after.getBufferName old = sm.getBufferName old := by
  unfold getBufferName bufferFor
  rw [(addBuffer_eq_some added).2.2.1]
  split
  · rfl
  · rw [List.getElem?_append_left (by omega)]

/-- Every buffer but the added one was there before. -/
theorem bufferFor_of_addBuffer {sm after : SourceManager} {name text : Text} {fid : Nat}
    (added : sm.addBuffer name text = some (fid, after)) {old : Nat} {buffer : Buffer}
    (found : after.bufferFor old = some buffer) (old_ne : old ≠ fid) :
    sm.bufferFor old = some buffer := by
  obtain ⟨_, fid_eq, buffers_eq, _⟩ := addBuffer_eq_some added
  obtain ⟨old_pos, old_le⟩ := bufferFor_fid found
  rw [buffers_eq, List.length_append, List.length_singleton] at old_le
  unfold bufferFor at found ⊢
  rw [if_neg old_pos.ne', buffers_eq, List.getElem?_append_left (by omega)] at found
  rwa [if_neg old_pos.ne']

/-- The buffer just added begins where the coordinate space had been free. -/
theorem bufferFor_added {sm after : SourceManager} {name text : Text} {fid : Nat}
    (added : sm.addBuffer name text = some (fid, after)) :
    after.bufferFor fid =
      some { name, text := dropByteOrderMark text, base := sm.nextBase } := by
  obtain ⟨_, rfl, buffers_eq, _⟩ := addBuffer_eq_some added
  simp [bufferFor, buffers_eq]

theorem getBufferName_added {sm after : SourceManager} {name text : Text} {fid : Nat}
    (added : sm.addBuffer name text = some (fid, after)) : after.getBufferName fid = name := by
  rw [getBufferName, bufferFor_added added]
  rfl

theorem InBuffer.addBuffer {sm after : SourceManager} {name text : Text} {fid : Nat}
    (added : sm.addBuffer name text = some (fid, after)) {old loc : Nat}
    (inside : sm.InBuffer old loc) : after.InBuffer old loc := by
  obtain ⟨buffer, found, bounds⟩ := inside
  exact ⟨buffer, bufferFor_addBuffer added found, bounds⟩

theorem InBuffer.of_addBuffer {sm after : SourceManager} {name text : Text} {fid : Nat}
    (added : sm.addBuffer name text = some (fid, after)) {old loc : Nat} {buffer : Buffer}
    (found : sm.bufferFor old = some buffer) (inside : after.InBuffer old loc) :
    sm.InBuffer old loc := by
  obtain ⟨same, same_found, bounds⟩ := inside
  rw [bufferFor_addBuffer added found] at same_found
  obtain rfl := Option.some.inj same_found
  exact ⟨buffer, found, bounds⟩

theorem getLocForOffset_addBuffer {sm after : SourceManager} {name text : Text} {fid : Nat}
    (added : sm.addBuffer name text = some (fid, after)) {old : Nat} {buffer : Buffer}
    (found : sm.bufferFor old = some buffer) (offset : Nat) :
    after.getLocForOffset old offset = sm.getLocForOffset old offset := by
  simp [getLocForOffset, found, bufferFor_addBuffer added found]

theorem getLocForOffset_eq {sm : SourceManager} {fid : Nat} {buffer : Buffer}
    (found : sm.bufferFor fid = some buffer) (offset : Nat) :
    sm.getLocForOffset fid offset = buffer.base + min offset buffer.text.length := by
  simp [getLocForOffset, found]

theorem inBuffer_getLocForOffset {sm : SourceManager} {fid : Nat} {buffer : Buffer}
    (found : sm.bufferFor fid = some buffer) (offset : Nat) :
    sm.InBuffer fid (sm.getLocForOffset fid offset) := by
  rw [getLocForOffset_eq found]
  exact ⟨buffer, found, by omega, by omega⟩

end SourceManager

end Plang
