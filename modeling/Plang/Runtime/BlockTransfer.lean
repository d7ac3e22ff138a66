import Mathlib.Data.Nat.Cast.Basic
import Mathlib.Tactic.Positivity
import Plang.Runtime.ConsoleOutput
import Plang.Runtime.TextReading

/-!
# Blocks of records

`BlockRead` and `BlockWrite` on an untyped file.  They count whole records; at the end of the file
the bytes of a record that is not whole are read along, and not counted.
-/

namespace Plang

namespace Runtime

open Stdio

namespace TurboCall

/-- An untyped file that is open, with no error pending. -/
structure OpenBlocks (c : TurboCall) (stream : Stream) : Prop where
  clear : c.inOutRes = 0
  opened : c.file.fp = some stream
  appends : stream.appends = false
  sized : 0 < c.file.recSize

/-- The bytes that can be read from the position on. -/
def ahead (c : TurboCall) (stream : Stream) : Text :=
  if stream.canRead then c.libc.unread stream else []

variable {c : TurboCall} {stream : Stream}

theorem OpenBlocks.tpFileReady (blocks : c.OpenBlocks stream) :
    c.tpFileReady = (true, c.shared Call.clearerr) :=
  tpFileReady_of_clear blocks.clear (by rw [blocks.opened]; rfl)

theorem toNat_blockBytes {count recSize : Int} (counted : 0 < count) (sized : 0 < recSize)
    (fits : count * recSize < 2 ^ 64) : (blockBytes count recSize : Int) = count * recSize := by
  have positive := Int.mul_pos counted sized
  rw [blockBytes]
  generalize count * recSize = bytes at positive fits ⊢
  omega

/-- Reading from a stream, in whichever direction it is open. -/
theorem fread_spec (libc : Libc) (stream : Stream) (want : Nat) :
    ∃ after moved, libc.fread stream want =
        ((if stream.canRead then libc.unread stream else []).take want, after, moved) ∧
      after.contents = libc.contents ∧
      Libc.ftell moved = (Libc.ftell stream).map
        (· + ((if stream.canRead then libc.unread stream else []).take want).length) := by
  rcases readable : stream.canRead
  · refine ⟨{ libc with errno := EBADF }, { stream with error := true }, ?_, rfl, ?_⟩
    · rw [Libc.fread, readable]
      simp
    · rcases target : stream.target <;> simp [Libc.ftell, target]
  · refine ⟨(libc.skip stream ((libc.unread stream).take want).length).1,
      (libc.skip stream ((libc.unread stream).take want).length).2, ?_, ?_, ?_⟩
    · simp [Libc.fread, readable]
    · rcases target : stream.target <;> simp [Libc.skip, target]
    · rcases target : stream.target <;> simp [Libc.skip, Libc.ftell, target]

/-- The specification of `BlockRead`. -/
structure BlockReadLaw (c : TurboCall) (stream : Stream) (count : Int) (hasResult : Bool) : Prop where
  /-- As many whole records as there are, up to the count. -/
  number : (c.plangTpBlockread count hasResult).1.2 =
    max 0 (min count ((c.ahead stream).length / c.file.recSize))
  /-- The bytes of the count, or all that are left. -/
  bytes : (c.plangTpBlockread count hasResult).1.1 =
    (c.ahead stream).take (count * c.file.recSize).toNat
  /-- The position moves by these bytes. -/
  position : (c.plangTpBlockread count hasResult).2.ftell =
    (Libc.ftell stream).map (· + (c.plangTpBlockread count hasResult).1.1.length)
  /-- In records, as `FilePos` counts them, that is the number if a record began here. -/
  filePos : ∀ pos : Nat, c.file.recSize ∣ pos →
    ((pos + (c.plangTpBlockread count hasResult).1.1.length : Nat) : Int) / c.file.recSize =
      pos / c.file.recSize + (c.plangTpBlockread count hasResult).1.2
  contents : (c.plangTpBlockread count hasResult).2.libc.contents = c.libc.contents
  /-- A short transfer is an error where there is no result. -/
  error : (c.plangTpBlockread count hasResult).2.inOutRes =
    if hasResult = false ∧ (c.plangTpBlockread count hasResult).1.2 < count then 100 else 0

theorem OpenBlocks.cleared (blocks : c.OpenBlocks stream) :
    c.shared Call.clearerr =
      c.withFile fun file => { file with fp := some { stream with error := false } } := by
  simp only [shared, Call.clearerr, Call.onStream, blocks.opened, withFile]

/-- Where there is something to be counted, the bytes are read at once. -/
theorem blockRead_eq (blocks : c.OpenBlocks stream) {count : Int} (counted : 0 < count)
    (hasResult : Bool) :
    ∃ read : TurboCall, c.plangTpBlockread count hasResult =
        (((c.ahead stream).take (blockBytes count c.file.recSize),
          ((c.ahead stream).take (blockBytes count c.file.recSize)).length / c.file.recSize),
        if hasResult = false ∧
            ((c.ahead stream).take (blockBytes count c.file.recSize)).length / c.file.recSize < count
          then read.setInOutResIfClear 100 else read) ∧
      read.inOutRes = 0 ∧ read.libc.contents = c.libc.contents ∧
      read.ftell = (Libc.ftell stream).map
        (· + ((c.ahead stream).take (blockBytes count c.file.recSize)).length) := by
  have sized := blocks.sized
  obtain ⟨after, moved, read, contents, position⟩ := fread_spec c.libc
    { stream with error := false } (blockBytes count c.file.recSize)
  refine ⟨{ c with
    libc := after
    file := { c.file with
      fp := some moved
      buf := .uninit
      compLoaded := false } }, ?_, blocks.clear, contents, position⟩
  · rw [plangTpBlockread, ifReadyOr, blocks.tpFileReady]
    simp only [blocks.cleared, if_neg (Int.not_le.mpr counted), withFile]
    rw [if_neg (by omega), if_neg (by omega)]
    simp only [Call.fread, Call.onStream, read]
    have same : (if stream.canRead then c.libc.unread { stream with error := false } else []) =
        c.ahead stream := rfl
    simp only [same, Bool.and_eq_true, Bool.not_eq_true', decide_eq_true_eq]
    rfl

/-- The whole records in the bytes of a count, or in all bytes there are. -/
theorem length_take_div {recSize : Int} (sized : 0 < recSize) {count : Int} (counted : 0 < count)
    (fits : count * recSize < 2 ^ 64) (bytes : Text) :
    ((bytes.take (blockBytes count recSize)).length / recSize : Int) =
      min count (bytes.length / recSize) := by
  have want := toNat_blockBytes counted sized fits
  rw [List.length_take]
  rcases Nat.le_total (blockBytes count recSize) bytes.length with enough | few
  · rw [Nat.min_eq_left enough, want, Int.mul_ediv_cancel _ (by omega)]
    refine (Int.min_eq_left ?_).symm
    rw [Int.le_ediv_iff_mul_le sized, ← want]
    exact_mod_cast enough
  · rw [Nat.min_eq_right few]
    refine (Int.min_eq_right ?_).symm
    rw [← Int.mul_ediv_cancel count (by omega : recSize ≠ 0), ← want]
    exact Int.ediv_le_ediv sized (by exact_mod_cast few)

theorem blockRead_law (blocks : c.OpenBlocks stream) {count : Int} (hasResult : Bool)
    (fits : count * c.file.recSize < 2 ^ 64) : BlockReadLaw c stream count hasResult := by
  have sized := blocks.sized
  by_cases counted : 0 < count
  · obtain ⟨read, outcome, clear, contents, position⟩ := blockRead_eq blocks counted hasResult
    have number := length_take_div sized counted fits (c.ahead stream)
    have nonneg : 0 ≤ ((c.ahead stream).length / c.file.recSize : Int) :=
      Int.ediv_nonneg (Int.natCast_nonneg _) (Int.le_of_lt sized)
    have want := toNat_blockBytes counted sized fits
    have settled : ∀ short : Prop, [Decidable short] →
        (if short then read.setInOutResIfClear 100 else read).ftell = read.ftell ∧
        (if short then read.setInOutResIfClear 100 else read).libc = read.libc ∧
        (if short then read.setInOutResIfClear 100 else read).inOutRes =
          if short then 100 else 0 := by
      intro short _
      rw [setInOutResIfClear, if_pos clear]
      split <;> simp [clear]
    constructor
    · rw [outcome, number]
      exact (Int.max_eq_right (Int.le_min.mpr ⟨Int.le_of_lt counted, nonneg⟩)).symm
    · rw [outcome, ← want, Int.toNat_natCast]
    · rw [outcome]
      exact (settled _).1.trans position
    · intro pos begins
      rw [outcome, Int.natCast_add, Int.add_ediv_of_dvd_left begins]
    · rw [outcome]
      exact (congrArg Libc.contents (settled _).2.1).trans contents
    · rw [outcome]
      exact (settled _).2.2
  · have outcome : c.plangTpBlockread count hasResult = (([], 0), c.shared Call.clearerr) := by
      rw [plangTpBlockread, ifReadyOr, blocks.tpFileReady]
      exact if_pos (Int.not_lt.mp counted)
    have none_ : count * c.file.recSize ≤ 0 :=
      Int.mul_nonpos_of_nonpos_of_nonneg (Int.not_lt.mp counted) (Int.le_of_lt sized)
    constructor
    · rw [outcome]
      exact (Int.max_eq_left (Int.le_trans (Int.min_le_left ..) (Int.not_lt.mp counted))).symm
    · rw [outcome, Int.toNat_of_nonpos none_, List.take_zero]
    · rw [outcome, blocks.cleared]
      exact (Option.map_id_apply).symm
    · intro pos _
      rw [outcome]
      exact (Int.add_zero _).symm
    · rw [outcome, blocks.cleared]
      rfl
    · rw [outcome, if_neg (fun short => counted short.2)]
      exact blocks.clear

/-! ### Writing -/

/-- `BlockWrite(f, buf, count)` on a device that `fwrite` stands for. -/
def blockwriteBy (fwrite : Call → Text → Nat × Call) (c : TurboCall) (buf : Text) (count : Int)
    (hasResult : Bool) : Int × TurboCall :=
  c.ifReadyOr 0 fun c =>
    if count ≤ 0 then (0, c)
    else if c.file.recSize < 0 then (0, c.plangTpRunerror 217)
    else if c.file.recSize = 0 then (0, c)
    else
      let checked := c.tpTrapOnWrongDirection true
      let (got, call) := fwrite checked.toCall (buf.take (blockBytes count c.file.recSize))
      let actual : Int := got / c.file.recSize
      let after := ({ checked with toCall := call }.tpTrapOnStreamError true).unprime
      (actual,
        if !hasResult && decide (actual < count) then after.setInOutResIfClear 101 else after)

theorem blockwriteBy_fwrite : blockwriteBy Call.fwrite = plangTpBlockwrite := rfl

/-- The assumptions on `fwrite`: it takes no more than it is given, and where all is taken the
position moves by that much. -/
structure Writes (fwrite : Call → Text → Nat × Call) : Prop where
  within : ∀ c bytes, (fwrite c bytes).1 ≤ bytes.length
  advances : ∀ c bytes stream, c.file.fp = some stream → stream.appends = false →
    (fwrite c bytes).1 = bytes.length → (fwrite c bytes).2.ftell = c.ftell.map (· + bytes.length)

/-- How many bytes the device takes of a number of records. -/
def taken (fwrite : Call → Text → Nat × Call) (c : TurboCall) (buf : Text) (count : Int) : Nat :=
  (fwrite c.toCall.clearerr (buf.take (count * c.file.recSize).toNat)).1

/-- The specification of `BlockWrite`. -/
structure BlockWriteLaw (fwrite : Call → Text → Nat × Call) (c : TurboCall) (stream : Stream)
    (buf : Text) (count : Int) (hasResult : Bool) : Prop where
  /-- As many whole records as the device takes. -/
  number : 0 < count → (blockwriteBy fwrite c buf count hasResult).1 =
    taken fwrite c buf count / c.file.recSize
  within : 0 < count → (taken fwrite c buf count : Int) ≤ count * c.file.recSize
  /-- If it takes all bytes, all records are written, and the position moves by them. -/
  whole : 0 < count → (taken fwrite c buf count : Int) = count * c.file.recSize →
    (blockwriteBy fwrite c buf count hasResult).1 = count ∧
    (blockwriteBy fwrite c buf count hasResult).2.ftell =
      (Libc.ftell stream).map (· + (count * c.file.recSize).toNat)
  nothing : count ≤ 0 → (blockwriteBy fwrite c buf count hasResult).1 = 0 ∧
    (blockwriteBy fwrite c buf count hasResult).2.libc = c.libc
  /-- A short transfer is an error where there is no result. -/
  error : hasResult = false → 0 < count → (blockwriteBy fwrite c buf count hasResult).1 < count →
    (blockwriteBy fwrite c buf count hasResult).2.inOutRes ≠ 0

theorem toCall_tpTrapOnStreamError (c : TurboCall) (wantWrite : Bool) :
    (c.tpTrapOnStreamError wantWrite).toCall = c.toCall := by
  rw [tpTrapOnStreamError]
  split
  · split <;> exact (toCall_setInOutResIfClear _).1
  · rfl

theorem inOutRes_setInOutResIfClear_ne (c : TurboCall) {code : Int} (code_ne : code ≠ 0) :
    (c.setInOutResIfClear code).inOutRes ≠ 0 := by
  rw [setInOutResIfClear]
  split
  · exact code_ne
  · assumption

theorem blockWrite_eq (fwrite : Call → Text → Nat × Call) (blocks : c.OpenBlocks stream)
    (buf : Text) {count : Int} (counted : 0 < count) (hasResult : Bool)
    (fits : count * c.file.recSize < 2 ^ 64) :
    ∃ after : TurboCall, after.ftell =
        (fwrite c.toCall.clearerr (buf.take (count * c.file.recSize).toNat)).2.ftell ∧
      blockwriteBy fwrite c buf count hasResult =
        (taken fwrite c buf count / c.file.recSize,
          if hasResult = false ∧ (taken fwrite c buf count / c.file.recSize : Int) < count then
            after.setInOutResIfClear 101
          else after) := by
  have sized := blocks.sized
  have bytes : blockBytes count c.file.recSize = (count * c.file.recSize).toNat := by
    have want := toNat_blockBytes counted sized fits
    omega
  have same : ((c.shared Call.clearerr).tpTrapOnWrongDirection true).toCall = c.toCall.clearerr :=
    (toCall_tpTrapOnWrongDirection true).1
  have size : (c.shared Call.clearerr).file.recSize = c.file.recSize := by
    rw [blocks.cleared]
    rfl
  refine ⟨({ (c.shared Call.clearerr).tpTrapOnWrongDirection true with
    toCall := (fwrite c.toCall.clearerr (buf.take (count * c.file.recSize).toNat)).2
    }.tpTrapOnStreamError true).unprime, ?_, ?_⟩
  · have call := toCall_tpTrapOnStreamError ({ (c.shared Call.clearerr).tpTrapOnWrongDirection true with
      toCall := (fwrite c.toCall.clearerr (buf.take (count * c.file.recSize).toNat)).2 }) true
    change Call.ftell _ = _
    rw [unprime, withFile, Call.ftell]
    simp only [call]
    rfl
  · rw [blockwriteBy, ifReadyOr, blocks.tpFileReady]
    simp only [size, if_neg (Int.not_le.mpr counted), same, bytes, Bool.and_eq_true,
      Bool.not_eq_true', decide_eq_true_eq]
    rw [if_neg (by omega), if_neg (by omega)]
    rfl

theorem blockWrite_law {fwrite : Call → Text → Nat × Call} (writes : Writes fwrite)
    (blocks : c.OpenBlocks stream) {buf : Text} {count : Int} (hasResult : Bool)
    (fits : count * c.file.recSize < 2 ^ 64) (room : count * c.file.recSize ≤ buf.length) :
    BlockWriteLaw fwrite c stream buf count hasResult := by
  have sized := blocks.sized
  have length : (buf.take (count * c.file.recSize).toNat).length =
      (count * c.file.recSize).toNat := by
    rw [List.length_take]
    omega
  have opened : c.toCall.clearerr.file.fp = some { stream with error := false } :=
    congrArg (fun c : TurboCall => c.file.fp) blocks.cleared
  have began : c.toCall.clearerr.ftell = Libc.ftell stream := congrArg (·.bind Libc.ftell) opened
  refine ⟨fun counted => ?_, fun counted => ?_, fun counted whole => ?_, fun none_ => ?_,
    fun wanted counted short => ?_⟩
  · obtain ⟨after, -, outcome⟩ := blockWrite_eq fwrite blocks buf counted hasResult fits
    rw [outcome]
  · have positive := Int.mul_pos counted sized
    have within := writes.within c.toCall.clearerr (buf.take (count * c.file.recSize).toNat)
    rw [length] at within
    rw [taken]
    omega
  · obtain ⟨after, position, outcome⟩ := blockWrite_eq fwrite blocks buf counted hasResult fits
    have number : (taken fwrite c buf count / c.file.recSize : Int) = count := by
      rw [whole, Int.mul_ediv_cancel _ (by omega)]
    have all : (fwrite c.toCall.clearerr (buf.take (count * c.file.recSize).toNat)).1 =
        (buf.take (count * c.file.recSize).toNat).length := by
      rw [length]
      rw [taken] at whole
      omega
    rw [outcome, number, if_neg fun short => absurd short.2 (Int.lt_irrefl _), position,
      writes.advances _ _ _ opened blocks.appends all, length, began]
    exact ⟨rfl, rfl⟩
  · have outcome : blockwriteBy fwrite c buf count hasResult = (0, c.shared Call.clearerr) := by
      rw [blockwriteBy, ifReadyOr, blocks.tpFileReady]
      exact if_pos none_
    rw [outcome, blocks.cleared]
    exact ⟨rfl, rfl⟩
  · obtain ⟨after, -, outcome⟩ := blockWrite_eq fwrite blocks buf counted hasResult fits
    rw [outcome] at short ⊢
    rw [if_pos ⟨wanted, short⟩]
    exact inOutRes_setInOutResIfClear_ne after (by decide)

/-- Writing to a stream takes all bytes or none. -/
theorem fwrite_spec (libc : Libc) (stream : Stream) (bytes : Text) :
    (libc.fwrite stream bytes).1 ≤ bytes.length ∧
      (stream.appends = false → (libc.fwrite stream bytes).1 = bytes.length →
        Libc.ftell (libc.fwrite stream bytes).2.2 = (Libc.ftell stream).map (· + bytes.length)) := by
  have nothing : stream.appends = false → 0 = bytes.length → bytes = [] :=
    fun _ none_ => List.eq_nil_of_length_eq_zero none_.symm
  rcases target : stream.target with _ | _ | _ | inode
  · simp [Libc.fwrite, Libc.ftell, target]
  · rcases fault : libc.outputFault <;> simp [Libc.fwrite, Libc.ftell, target, fault]
  · simp [Libc.fwrite, Libc.ftell, target]
  · rcases writable : stream.canWrite
    · simpa [Libc.fwrite, Libc.ftell, target, writable] using nothing
    · rcases fault : libc.faults inode
      · simp +contextual [Libc.fwrite, Libc.ftell, target, writable, fault]
      · simpa [Libc.fwrite, Libc.ftell, target, writable, fault] using nothing

/-- The device a file is on is such a one. -/
theorem writes_fwrite : Writes Call.fwrite where
  within c bytes := by
    rcases fp : c.file.fp with _ | stream
    · simp [Call.fwrite, Call.onStream, fp]
    · simpa [Call.fwrite, Call.onStream, fp] using (fwrite_spec c.libc stream bytes).1
  advances c bytes stream fp appends whole := by
    simp only [Call.fwrite, Call.onStream, fp] at whole
    simpa [Call.fwrite, Call.onStream, Call.ftell, fp] using
      (fwrite_spec c.libc stream bytes).2 appends whole

/-! ### The result -/

/-- The result variable takes the number in its own width. -/
def storedResult (width : Nat) (actual : Int) : BitVec width :=
  (BitVec.ofInt 64 actual).setWidth width

theorem toNat_storedResult {width : Nat} {actual : Int} (nonneg : 0 ≤ actual)
    (word : actual < 2 ^ 64) (fits : actual < 2 ^ width) :
    ((storedResult width actual).toNat : Int) = actual := by
  obtain ⟨number, rfl⟩ := Int.eq_ofNat_of_zero_le nonneg
  rw [storedResult, BitVec.ofInt_natCast, BitVec.toNat_setWidth, BitVec.toNat_ofNat,
    Nat.mod_eq_of_lt (by exact_mod_cast word : number < 2 ^ 64),
    Nat.mod_eq_of_lt (by exact_mod_cast fits)]

/-- The specification of `BlockRead` and `BlockWrite` for a count of records. -/
structure BlockLaw (fwrite : Call → Text → Nat × Call) (c : TurboCall) (stream : Stream)
    (buf : Text) (count : Int) (hasResult : Bool) : Prop where
  reads : BlockReadLaw c stream count hasResult
  writes : BlockWriteLaw fwrite c stream buf count hasResult
  /-- The bytes of the records are counted without a wrap. -/
  unwrapped : 0 < count → (blockBytes count c.file.recSize : Int) = count * c.file.recSize
  /-- The result is the number wherever the variable can hold it. -/
  reported : ∀ width : Nat,
    ((c.plangTpBlockread count hasResult).1.2 < 2 ^ width →
      ((storedResult width (c.plangTpBlockread count hasResult).1.2).toNat : Int) =
        (c.plangTpBlockread count hasResult).1.2) ∧
    ((blockwriteBy fwrite c buf count hasResult).1 < 2 ^ width →
      ((storedResult width (blockwriteBy fwrite c buf count hasResult).1).toNat : Int) =
        (blockwriteBy fwrite c buf count hasResult).1)

/-- A number of records whose bytes can be counted can be counted. -/
theorem number_lt {count recSize number : Int} (sized : 0 < recSize)
    (fits : count * recSize < 2 ^ 64) (most : number ≤ max 0 count) : number < 2 ^ 64 := by
  rcases Int.le_total count 0 with none_ | some_
  · omega
  · have : count * 1 ≤ count * recSize := Int.mul_le_mul_of_nonneg_left sized some_
    omega

/-- Five bytes in a file of records of two. -/
def fiveBytes : TurboCall where
  libc := { entries := fun _ => .file 0, contents := fun _ => "abcde".toList }
  file := { name := ['f'], mode := .fmClosed }
  reals := { format := fun _ _ _ _ => [], fixed := fun _ _ _ => [], parse := fun _ => none }

theorem openBlocks_fiveBytes : (fiveBytes.plangTpResetSized 2).OpenBlocks
    { target := .file 0, canRead := true, canWrite := true } where
  clear := rfl
  opened := rfl
  appends := rfl
  sized := by decide

end TurboCall

end Runtime

end Plang
