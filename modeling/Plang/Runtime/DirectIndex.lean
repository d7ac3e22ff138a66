import Mathlib.Data.List.Induction
import Plang.Runtime.DirectAccess

/-!
# The index of a direct-access file

What a program sees of a direct-access file: after every operation of every run the index it is told
is the position in whole components.
-/

namespace Plang

namespace Runtime

open Stdio

namespace IsoCall

theorem word_of_fits {value : Int} (above : -2 ^ 63 ≤ value) (below : value < 2 ^ 63) :
    word value = value := by
  rw [word, Int.bmod_def]
  split <;> omega

/-- An offset that is computed is the product, in 64 bits. -/
theorem of_seekOffset {n elemSize indexLow offset : Int}
    (computed : TurboCall.seekOffset n elemSize indexLow = some offset) :
    offset = (n - indexLow) * elemSize ∧ offset < 2 ^ 63 := by
  rw [TurboCall.seekOffset] at computed
  simp only [Bool.and_eq_true, decide_eq_true_eq] at computed
  split at computed
  · rename_i fits
    cases computed
    exact ⟨rfl, by omega⟩
  · cases computed

/-- An open direct-access file. -/
structure OpenDirect (size : Nat) (c : IsoCall) : Prop where
  running : c.stopped = false
  stream : ∃ stream inode, c.file.fp = some stream ∧ stream.target = .file inode ∧
    stream.appends = false
  whole : ∀ component, c.file.comp = some component → component.length = size

/-- How many components stand before the position. -/
def index (size : Nat) (c : IsoCall) : Nat := c.ftell.getD 0 / size

/-- How many whole components the file has. -/
def count (size : Nat) (c : IsoCall) : Nat := c.sizeOf.getD 0 / size

/-- The position and the end of the file are between components. -/
structure Whole (size : Nat) (c : IsoCall) : Prop where
  pos : size ∣ c.ftell.getD 0
  length : size ∣ c.sizeOf.getD 0

/-- The stream was opened for reading. -/
def canRead (c : IsoCall) : Bool := c.file.fp.any Stream.canRead

variable {size : Nat} {c : IsoCall} {kind : StreamKind} {pos length : Nat}

namespace Standing

theorem index (standing : c.Standing size kind pos length) : c.index size = pos / size := by
  rw [IsoCall.index, standing.stands.ftell, Option.getD_some]

theorem count (standing : c.Standing size kind pos length) : c.count size = length / size := by
  rw [IsoCall.count, standing.stands.sizeOf, Option.getD_some]

theorem whole_iff (standing : c.Standing size kind pos length) :
    c.Whole size ↔ size ∣ pos ∧ size ∣ length := by
  have tell := congrArg (Option.getD · 0) standing.stands.ftell
  have end_ := congrArg (Option.getD · 0) standing.stands.sizeOf
  simp only [Option.getD_some] at tell end_
  exact ⟨fun whole => ⟨tell ▸ whole.pos, end_ ▸ whole.length⟩,
    fun whole => ⟨tell.symm ▸ whole.1, end_.symm ▸ whole.2⟩⟩

theorem canRead (standing : c.Standing size kind pos length) : c.canRead = kind.canRead := by
  obtain ⟨stream, fp, stands⟩ := standing.stands.stream
  rw [IsoCall.canRead, fp, Option.any_some]
  exact congrArg StreamKind.canRead stands.kind

theorem openDirect (standing : c.Standing size kind pos length) (appends : kind.appends = false) :
    c.OpenDirect size where
  running := standing.running
  stream := by
    obtain ⟨stream, fp, stands⟩ := standing.stands.stream
    obtain ⟨inode, target, -⟩ := stands.target
    exact ⟨stream, inode, fp, target, (congrArg StreamKind.appends stands.kind).trans appends⟩
  whole := standing.stands.whole

end Standing

theorem OpenDirect.standing (opened : c.OpenDirect size) :
    ∃ kind pos length, kind.appends = false ∧ c.Standing size kind pos length := by
  obtain ⟨stream, inode, fp, target, appends⟩ := opened.stream
  refine ⟨stream.kind, stream.pos, (c.libc.contents inode).length, appends, opened.running,
    ⟨stream, fp, rfl, rfl, ?_⟩, opened.whole⟩
  simp only [Libc.sizeOf, target]

/-! ### What a program is told -/

/-- The answers of the functions that ask for the index of a file. -/
structure Observed (size : Nat) (indexLow : Int) (c : IsoCall) : Prop where
  position : indexLow + c.index size < 2 ^ 63 →
    (c.plangPosition size indexLow).1 = indexLow + c.index size
  lastposition : -2 ^ 63 ≤ indexLow + c.count size - 1 → indexLow + c.count size - 1 < 2 ^ 63 →
    (c.plangLastposition size indexLow).1 = indexLow + c.count size - 1
  /-- An empty file has no component. -/
  none_ : c.plangEmpty.1 = true → c.count size = 0
  /-- A file that holds no part of a component is empty if it has none. -/
  empty : c.Whole size → (c.plangEmpty.1 = true ↔ c.count size = 0)

theorem Standing.observed (standing : c.Standing size kind pos length) (sized : 0 < size)
    {indexLow : Int} (low : -2 ^ 63 ≤ indexLow) : Observed size indexLow c where
  position := fun fits => by
    rw [standing.index] at fits ⊢
    rw [plangPosition]
    simp only [standing.stands.ftell]
    have forward : 0 ≤ (pos / size : Int) :=
      Int.ediv_nonneg (Int.natCast_nonneg pos) (Int.natCast_nonneg size)
    rw [if_pos (by omega)]
    exact word_of_fits (Int.le_trans low (Int.le_add_of_nonneg_right forward)) fits
  lastposition := fun above below => by
    rw [standing.count] at above below ⊢
    rw [plangLastposition]
    simp only [standing.stands.sizeOf]
    split
    · rename_i none_
      have nothing : length / size = 0 := by
        rw [none_.resolve_left (by omega), Nat.zero_div]
      have same : indexLow - 1 = indexLow + (length / size : Nat) - 1 := by omega
      rw [same]
      exact word_of_fits above below
    · exact word_of_fits above below
  none_ := fun empty => by
    have nothing : length = 0 := by
      simpa [plangEmpty, standing.stands.sizeOf] using empty
    rw [standing.count, nothing, Nat.zero_div]
  empty := fun whole => by
    have whole := (standing.whole_iff.mp whole).2
    rw [standing.count, Nat.div_eq_zero_iff]
    simp only [plangEmpty, standing.stands.sizeOf, decide_eq_true_eq, Option.some.injEq]
    refine ⟨fun nothing => .inr (nothing ▸ sized), fun few => ?_⟩
    exact Nat.eq_zero_of_dvd_of_lt whole (few.resolve_left (Nat.ne_of_gt sized))

/-! ### What an operation does to the index -/

/-- The program went to an index; its offset was computed without a wrap. -/
structure Reached (size : Nat) (indexLow n : Int) (before after : IsoCall) : Prop where
  offset : TurboCall.seekOffset n size indexLow = some ((n - indexLow) * size)
  forward : 0 ≤ (n - indexLow) * size
  within : (n - indexLow) * size < 2 ^ 63
  index : (after.index size : Int) = n - indexLow
  position : n < 2 ^ 63 → (after.plangPosition size indexLow).1 = n
  count : after.count size = before.count size

/-- `get` moves on: there is a component to be read, or one of more than one byte to be skipped. -/
def Advances (size : Nat) (c : IsoCall) : Prop :=
  if 1 < size then c.ftell.getD 0 + size < 2 ^ 63
  else c.canRead = true ∧ c.index size < c.count size

/-- The specification of an operation on a direct-access file. -/
def Obeys {size : Nat} (indexLow : Int) (before : IsoCall) (op : DirectOp size)
    (after : IsoCall) : Prop :=
  match op with
  | .seekRead n | .seekWrite n | .seekUpdate n => Reached size indexLow n before after
  | .get =>
      (before.Advances size → after.index size = before.index size + 1) ∧
      (¬before.Advances size → after.index size = before.index size) ∧
      after.count size = before.count size
  | .put =>
      (before.file.comp.isSome = true → after.index size = before.index size + 1 ∧
        after.count size = max (before.count size) (before.index size + 1)) ∧
      (before.file.comp.isSome = false → after.index size = before.index size ∧
        after.count size = before.count size)
  | .update _ => after.index size = 0
  | .look | .assign .. =>
      after.index size = before.index size ∧ after.count size = before.count size

/-- The state after an operation: the law of the operation, and a file that is open as before. -/
structure Lawful {size : Nat} (indexLow : Int) (before : IsoCall) (op : DirectOp size)
    (after : IsoCall) : Prop where
  opened : after.OpenDirect size
  obeys : Obeys indexLow before op after
  whole : before.Whole size → (∀ name, op ≠ .update name) → after.Whole size

namespace Standing

theorem reached {after : IsoCall} (standing : c.Standing size kind pos length)
    (sized : 0 < size) {indexLow n offset : Int} (low : -2 ^ 63 ≤ indexLow)
    (computed : TurboCall.seekOffset n size indexLow = some offset) (forward : 0 ≤ offset)
    (there : after.Standing size kind offset.toNat length) :
    Reached size indexLow n c after := by
  obtain ⟨rfl, within⟩ := of_seekOffset computed
  have index : (after.index size : Int) = n - indexLow := by
    rw [there.index, Int.natCast_ediv, Int.toNat_of_nonneg forward,
      Int.mul_ediv_cancel _ (by omega)]
  refine ⟨computed, forward, within, index, fun fits => ?_, by rw [there.count, standing.count]⟩
  rw [(there.observed sized low).position (by omega), index]
  omega

theorem advances_iff (standing : c.Standing size kind pos length) (sized : 0 < size) :
    (c.Advances size → getStep size kind pos length = size) ∧
      (¬c.Advances size → getStep size kind pos length = 0) := by
  rw [Advances, getStep, standing.canRead, standing.index, standing.count, standing.stands.ftell,
    Option.getD_some]
  by_cases wide : 1 < size
  · rw [if_pos wide, if_pos wide]
    exact ⟨fun fits => if_pos fits, fun passes => if_neg passes⟩
  · have one : size = 1 := by omega
    rw [if_neg wide, if_neg wide, one, Nat.div_one, Nat.div_one]
    refine ⟨fun found => if_pos ?_, fun missing => if_neg ?_⟩
    · rw [found.1, decide_eq_true found.2]
      rfl
    · simpa using missing

theorem lawful_of_reached {after : IsoCall} {op : DirectOp size}
    (standing : c.Standing size kind pos length) (appends : kind.appends = false)
    (sized : 0 < size) {indexLow n : Int} (low : -2 ^ 63 ≤ indexLow)
    (seeks : Obeys indexLow c op after ↔ Reached size indexLow n c after)
    (outcome : after.stopped = true ∨ ∃ offset, TurboCall.seekOffset n size indexLow = some offset ∧
      0 ≤ offset ∧ after.Standing size kind offset.toNat length) :
    after.stopped = true ∨ Lawful indexLow c op after := by
  obtain stopped | ⟨offset, computed, forward, there⟩ := outcome
  · exact .inl stopped
  · refine .inr ⟨there.openDirect appends,
      seeks.mpr (standing.reached sized low computed forward there), fun whole _ => ?_⟩
    obtain ⟨rfl, -⟩ := of_seekOffset computed
    refine there.whole_iff.mpr ⟨?_, (standing.whole_iff.mp whole).2⟩
    exact Int.natCast_dvd_natCast.mp ((Int.toNat_of_nonneg forward).symm ▸ Int.dvd_mul_left _ _)

theorem lawful_get (standing : c.Standing size kind pos length) (appends : kind.appends = false)
    (sized : 0 < size) (indexLow : Int) :
    Lawful indexLow c (.get : DirectOp size) (c.plangGetFile size) := by
  have after := standing.plangGetFile
  obtain ⟨moves, stays⟩ := standing.advances_iff sized
  refine ⟨after.openDirect appends, ⟨fun advances => ?_, fun passes => ?_, ?_⟩, fun whole _ => ?_⟩
  · rw [after.index, standing.index, moves advances, Nat.add_div_right _ sized]
  · rw [after.index, standing.index, stays passes, Nat.add_zero]
  · rw [after.count, standing.count]
  · obtain ⟨whole_pos, whole_length⟩ := standing.whole_iff.mp whole
    refine after.whole_iff.mpr ⟨?_, whole_length⟩
    by_cases advances : c.Advances size
    · rw [moves advances]
      exact Nat.dvd_add whole_pos (Nat.dvd_refl size)
    · rwa [stays advances]

/-- The whole components of a file that ends here or later. -/
theorem max_add_div (sized : 0 < size) (length pos : Nat) :
    max length (pos + size) / size = max (length / size) (pos / size + 1) := by
  rw [← Nat.add_div_right pos sized]
  rcases Nat.le_total length (pos + size) with behind | inside
  · rw [Nat.max_eq_right behind, Nat.max_eq_right (Nat.div_le_div_right behind)]
  · rw [Nat.max_eq_left inside, Nat.max_eq_left (Nat.div_le_div_right inside)]

theorem lawful_put (standing : c.Standing size kind pos length) (appends : kind.appends = false)
    (sized : 0 < size) (indexLow : Int) :
    (c.plangPutFile size).stopped = true ∨
      Lawful indexLow c (.put : DirectOp size) (c.plangPutFile size) := by
  refine (standing.plangPutFile appends sized).imp_right fun after => ?_
  refine ⟨after.openDirect appends, ⟨fun some_ => ?_, fun none_ => ?_⟩, fun whole _ => ?_⟩
  · rw [if_pos some_, if_pos some_] at after
    rw [after.index, after.count, standing.index, standing.count, max_add_div sized,
      Nat.add_div_right _ sized]
    exact ⟨rfl, rfl⟩
  · rw [none_, if_neg Bool.false_ne_true, if_neg Bool.false_ne_true] at after
    rw [after.index, after.count, standing.index, standing.count]
    exact ⟨rfl, rfl⟩
  · obtain ⟨whole_pos, whole_length⟩ := standing.whole_iff.mp whole
    refine after.whole_iff.mpr ?_
    rcases c.file.comp.isSome
    · exact ⟨whole_pos, whole_length⟩
    · have later : size ∣ pos + size := Nat.dvd_add whole_pos (Nat.dvd_refl size)
      simp only [if_true]
      refine ⟨later, ?_⟩
      rcases Nat.le_total length (pos + size) with behind | inside
      · rwa [Nat.max_eq_right behind]
      · rwa [Nat.max_eq_left inside]

theorem lawful_of_same {after : IsoCall} {op : DirectOp size} {indexLow : Int}
    (standing : c.Standing size kind pos length) (appends : kind.appends = false)
    (looks : Obeys indexLow c op after ↔
      after.index size = c.index size ∧ after.count size = c.count size)
    (same : after.Standing size kind pos length) : Lawful indexLow c op after where
  opened := same.openDirect appends
  obeys := looks.mpr ⟨same.index.trans standing.index.symm, same.count.trans standing.count.symm⟩
  whole := fun whole _ => same.whole_iff.mpr (standing.whole_iff.mp whole)

end Standing

open Standing in
/-- Every operation ends the program or keeps its law. -/
theorem OpenDirect.step (opened : c.OpenDirect size) (sized : 0 < size) {indexLow : Int}
    (low : -2 ^ 63 ≤ indexLow) (isText : Bool) (op : DirectOp size) :
    (c.stepDirect indexLow isText op).stopped = true ∨
      Lawful indexLow c op (c.stepDirect indexLow isText op) := by
  obtain ⟨kind, pos, length, appends, standing⟩ := opened.standing
  rw [stepDirect, andThen_of_running standing.running]
  cases op with
  | seekRead n =>
      exact lawful_of_reached standing appends sized low .rfl (standing.seekTo .faceReader)
  | seekWrite n =>
      exact lawful_of_reached standing appends sized low .rfl
        (standing.seekTo fun there => there.facing .write)
  | seekUpdate n =>
      exact lawful_of_reached standing appends sized low .rfl
        (standing.seekTo fun there => there.facing .both)
  | get => exact .inr (standing.lawful_get appends sized indexLow)
  | put => exact standing.lawful_put appends sized indexLow
  | update name =>
      refine (standing.plangUpdate appends name isText).imp_right ?_
      rintro ⟨kind, length, appends, front⟩
      exact ⟨front.openDirect appends, front.index.trans (Nat.zero_div size),
        fun _ other => absurd rfl (other name)⟩
  | look => exact .inr (standing.lawful_of_same appends .rfl (standing.plangFileBuffer sized isText))
  | assign component whole =>
      have looked := standing.plangFileBuffer sized isText
      rw [performDirect, andThen_of_running looked.running]
      have assigned : Standing
          ((c.plangFileBuffer size isText).withFile fun file => { file with comp := some component })
          size kind pos length :=
        ⟨looked.running, looked.stands.stream, fun _ some_ => by cases some_; exact whole⟩
      exact .inr (standing.lawful_of_same appends .rfl assigned)

/-! ### Runs -/

variable {indexLow : Int} {isText : Bool}

theorem runDirect_concat (c : IsoCall) (ops : List (DirectOp size)) (op : DirectOp size) :
    c.runDirect indexLow isText (ops ++ [op]) =
      (c.runDirect indexLow isText ops).stepDirect indexLow isText op :=
  List.foldl_concat ..

theorem running_of_concat {ops : List (DirectOp size)} {op : DirectOp size}
    (running : (c.runDirect indexLow isText (ops ++ [op])).stopped = false) :
    (c.runDirect indexLow isText ops).stopped = false := by
  rcases before : (c.runDirect indexLow isText ops).stopped
  · rfl
  · rw [runDirect_concat, stepDirect, andThen_of_stopped before, before] at running
    cases running

/-- In a run that goes on the file is open, and every operation keeps its law. -/
theorem OpenDirect.run (opened : c.OpenDirect size) (sized : 0 < size) (low : -2 ^ 63 ≤ indexLow)
    (ops : List (DirectOp size)) (running : (c.runDirect indexLow isText ops).stopped = false) :
    (c.runDirect indexLow isText ops).OpenDirect size ∧
      (c.Whole size → (∀ name, .update name ∉ ops) → (c.runDirect indexLow isText ops).Whole size) := by
  induction ops using List.reverseRecOn with
  | nil => exact ⟨opened, fun whole _ => whole⟩
  | append_singleton ops op induction =>
      obtain ⟨before, whole_before⟩ := induction (running_of_concat running)
      rw [runDirect_concat] at running ⊢
      obtain stopped | lawful := before.step sized low isText op
      · rw [running] at stopped
        cases stopped
      · refine ⟨lawful.opened, fun whole others => lawful.whole (whole_before whole fun name inside =>
          others name (List.mem_append_left _ inside)) fun name same => ?_⟩
        exact others name (List.mem_append_right _ (same ▸ List.mem_singleton_self _))

/-- A direct-access file over every run: each operation that does not end the program keeps its law,
and the index that is told is that of the position. -/
structure DirectLaw (size : Nat) (indexLow : Int) (isText : Bool) (c : IsoCall) : Prop where
  obeys : ∀ (ops : List (DirectOp size)) (op : DirectOp size),
    (c.runDirect indexLow isText (ops ++ [op])).stopped = false →
      Obeys indexLow (c.runDirect indexLow isText ops) op
        (c.runDirect indexLow isText (ops ++ [op]))
  observed : ∀ ops : List (DirectOp size), (c.runDirect indexLow isText ops).stopped = false →
    Observed size indexLow (c.runDirect indexLow isText ops)
  whole : c.Whole size → ∀ ops : List (DirectOp size), (∀ name, .update name ∉ ops) →
    (c.runDirect indexLow isText ops).stopped = false →
      (c.runDirect indexLow isText ops).Whole size

theorem direct_access (sized : 0 < size) (low : -2 ^ 63 ≤ indexLow) (opened : c.OpenDirect size)
    (isText : Bool) : DirectLaw size indexLow isText c where
  obeys := fun ops op running => by
    have before := (opened.run sized low ops (running_of_concat running)).1
    rw [runDirect_concat] at running ⊢
    obtain stopped | lawful := before.step sized low isText op
    · rw [running] at stopped
      cases stopped
    · exact lawful.obeys
  observed := fun ops running => by
    obtain ⟨kind, pos, length, -, standing⟩ := (opened.run sized low ops running).1.standing
    exact standing.observed sized low
  whole := fun whole ops others running => (opened.run sized low ops running).2 whole others

/-- A file that was just rewritten. -/
def rewritten : IsoCall := started.plangRewrite [] false

theorem openDirect_rewritten (size : Nat) : rewritten.OpenDirect size where
  running := rfl
  stream := ⟨_, _, rfl, rfl, rfl⟩
  whole := nofun

theorem direct_access_rewritten : DirectLaw 2 5 false rewritten :=
  direct_access (by decide) (by decide) (openDirect_rewritten 2) false

/-- A file of three bytes, opened for an update. -/
def threeBytes : IsoCall :=
  { started with
    libc := { entries := fun _ => .file 0, contents := fun _ => "abc".toList } }.plangUpdate
      ['f'] false

theorem openDirect_threeBytes (size : Nat) : threeBytes.OpenDirect size where
  running := rfl
  stream := ⟨_, _, rfl, rfl, rfl⟩
  whole := nofun

/-- `put` does not move where the buffer variable was never assigned, and a file that holds a part of
a component is not empty though it has no component. -/
theorem direct_access_fails :
    (¬ ∀ (c : IsoCall) (size : Nat), 0 < size → c.OpenDirect size →
      (c.plangPutFile size).stopped = false →
        (c.plangPutFile size).index size = c.index size + 1) ∧
    ¬ ∀ (c : IsoCall) (size : Nat), 0 < size → c.OpenDirect size →
      (c.plangEmpty.1 = true ↔ c.count size = 0) :=
  ⟨fun always => absurd (always _ 2 (by decide) (openDirect_rewritten 2) rfl) (by decide),
    fun always => absurd (always _ 8 (by decide) (openDirect_threeBytes 8)) (by decide)⟩

end IsoCall

end Runtime

end Plang
