import Plang.Runtime.ConsoleOutput
import Plang.Runtime.RealFormat

/-!
# Three families of writers

The writers of standard output, which also fill the captures of `writestr` and `Str`, and the writers
of text files lay the same values out by code of their own.  Turbo Pascal's standard output is
written through the file variable `Output`.
-/

namespace Plang

namespace Runtime

/-- A value that can be written. -/
inductive WriteValue where
  | integer (value : Int)
  /-- An unsigned value of 64 bits. -/
  | qword (value : Nat)
  | real (value : UInt64) (single : Bool)
  | boolean (value : Bool)
  | char (value : Char)
  /-- A literal, or what a pointer to characters points at. -/
  | text (value : Option Text)
  /-- A `string(n)`, or a packed array of characters. -/
  | string (value : Text)
  | shortString (value : Text)

/-- A parameter of a write-statement. -/
structure WriteParam where
  value : WriteValue
  width : Option Int := none
  decimals : Option Int := none

/-- The bytes that a writer gives away, unless the width ends the program. -/
abbrev Printed := Option Text

def realProfile (upper : Bool) : PlangRealProfile :=
  if upper then PlangRealProfileTurbo else PlangRealProfileISO

namespace CReals

variable (reals : CReals)

/-- Turbo Pascal's real in a field, with decimals. -/
def writeRealFixedTP (value : UInt64) (width decimals : Int) : Text :=
  let places := checkedWidth decimals
  match if isfinite value then reals.plangRealFixedNeedsCap value places else none with
  | none => padLeft (checkedWidth width) (reals.f places value)
  | some shape =>
      List.replicate (checkedWidth width - shape.length places) ' ' ++ shape.text places

/-- The formats of the file runtime. -/
def realText : RealText where
  format value width upper single :=
    reals.plangFormatReal value width (realProfile upper)
      (if single then PlangSingleMaxDecPlaces else -1)
  fixed := reals.writeRealFixedTP
  parse := reals.strtod

end CReals

/-! ### Standard output and captures -/

namespace Output

/-- The width as the C library takes it. -/
def checkedWidth (width : Int) : Option Nat :=
  let width := noPadIfNegative width
  if INT32_MAX < width then none else some width.toNat

def plangWriteI64 (value : Int) : Printed := some (decimal value)

def plangWriteU64 (value : Nat) : Printed := some (decimal value)

def plangWriteF64E (reals : CReals) (value : UInt64) (width : Int) (upper : Bool) : Printed :=
  some (reals.plangFormatReal value width (realProfile upper) (-1))

def plangWriteF32E (reals : CReals) (value : UInt64) (width : Int) (upper : Bool) : Printed :=
  some (reals.plangFormatReal value width (realProfile upper) PlangSingleMaxDecPlaces)

def plangWriteF64 (reals : CReals) (value : UInt64) (upper : Bool) : Printed :=
  plangWriteF64E reals value PlangRealWidth upper

def plangWriteF32 (reals : CReals) (value : UInt64) (upper : Bool) : Printed :=
  some (reals.plangFormatReal value PlangRealWidth (realProfile upper) PlangSingleMaxDecPlaces)

def plangWriteBool (value upper : Bool) : Printed := some (TurboCall.booleanText value upper)

def plangWriteChar (value : Char) : Printed := some [value]

def plangWriteStr (value : Option Text) : Printed := some (cString (value.getD []))

def plangWriteI64W (value width : Int) : Printed :=
  (checkedWidth width).map fun width => padLeft width (decimal value)

def plangWriteU64W (value : Nat) (width : Int) : Printed :=
  (checkedWidth width).map fun width => padLeft width (decimal value)

/-- A real with decimals; a negative number of them is none. -/
def plangWriteF64F (reals : CReals) (value : UInt64) (width decimals : Int) (upper : Bool) :
    Printed :=
  if decimals < 0 then plangWriteF64E reals value width upper
  else do
    let places ← checkedWidth decimals
    match if upper && isfinite value then reals.plangRealFixedNeedsCap value places else none with
    | none => return padLeft (← checkedWidth width) (reals.f places value)
    | some shape =>
        let width ← checkedWidth width
        return List.replicate (width - shape.length places) ' ' ++ shape.text places

def plangOutPadded (text : Text) (width : Int) (noTrunc : Bool) : Printed :=
  if !noTrunc && width == 0 then some []
  else if width < 0 then some text
  else do
    let width ← checkedWidth width
    let pad := List.replicate (width - text.length) ' '
    return if noTrunc then pad ++ text
      else pad ++ text.take (if text.length < width then text.length else width)

def plangWriteBoolW (value : Bool) (width : Int) (upper noTrunc : Bool) : Printed :=
  plangOutPadded (TurboCall.booleanText value upper) width noTrunc

def plangWriteCharW (value : Char) (width : Int) (alwaysWrite : Bool) : Printed :=
  if width = 0 ∧ ¬alwaysWrite then some []
  else if width < 0 then some [value]
  else (checkedWidth width).map fun width => padLeft width [value]

def plangWriteStrW (value : Option Text) (width : Int) (noTrunc : Bool) : Printed :=
  plangOutPadded (cString (value.getD [])) width noTrunc

/-- A string with a length of its own. -/
def plangStrWrite (value : Text) : Printed := some value

/-- A string with a length of its own in a field that may cut it off. -/
def plangStrWriteW (value : Text) (width : Int) : Printed :=
  if width = 0 then some []
  else if width < 0 then some value
  else (checkedWidth width).map fun field =>
    List.replicate (width - value.length).toNat ' ' ++
      value.take (if width < value.length then field else value.length)

def plangSstrWrite (value : Text) : Printed := plangStrWrite value

def plangSstrWriteW (value : Text) (width : Int) : Printed := plangStrWriteW value width

/-- The writer that a parameter without a file is given to. -/
def emitWriteArg (reals : CReals) (turbo : Bool) (param : WriteParam) : Printed :=
  match param.value, param.width with
  | .integer value, none => plangWriteI64 value
  | .integer value, some width => plangWriteI64W value width
  | .qword value, none => plangWriteU64 value
  | .qword value, some width => plangWriteU64W value width
  | .real value single, none =>
      if single then plangWriteF32 reals value turbo else plangWriteF64 reals value turbo
  | .real value single, some width =>
      match param.decimals with
      | some decimals => plangWriteF64F reals value width decimals turbo
      | none =>
          if single then plangWriteF32E reals value width turbo
          else plangWriteF64E reals value width turbo
  | .boolean value, none => plangWriteBool value turbo
  | .boolean value, some width => plangWriteBoolW value width turbo turbo
  | .char value, none => plangWriteChar value
  | .char value, some width => plangWriteCharW value width turbo
  | .text value, none => plangWriteStr value
  | .text value, some width => plangWriteStrW value width turbo
  | .string value, none => plangStrWrite value
  | .string value, some width => plangStrWriteW value width
  | .shortString value, none => plangSstrWrite value
  | .shortString value, some width => plangSstrWriteW value width

end Output

/-! ### Text files -/

namespace TextFile

/-- The width as the C library takes it. -/
def checkedWidth (width : Int) : Option Nat :=
  let width := noPadIfNegative width
  if INT32_MAX < width then none else some width.toNat

def plangWriteFileI64 (value : Int) : Printed := some (decimal value)

def plangWriteFileU64 (value : Nat) : Printed := some (decimal value)

def plangWriteFileF64E (reals : CReals) (value : UInt64) (width : Int) (upper : Bool) : Printed :=
  some (reals.plangFormatReal value width (realProfile upper) (-1))

def plangWriteFileF32E (reals : CReals) (value : UInt64) (width : Int) (upper : Bool) : Printed :=
  some (reals.plangFormatReal value width (realProfile upper) PlangSingleMaxDecPlaces)

def plangWriteFileF64 (reals : CReals) (value : UInt64) (upper : Bool) : Printed :=
  plangWriteFileF64E reals value PlangRealWidth upper

def plangWriteFileF32 (reals : CReals) (value : UInt64) (upper : Bool) : Printed :=
  plangWriteFileF32E reals value PlangRealWidth upper

def plangWriteFileBool (value upper : Bool) : Printed := some (TurboCall.booleanText value upper)

def plangWriteFileChar (value : Char) : Printed := some [value]

def plangWriteFileStr (value : Option Text) : Printed := some (cString (value.getD []))

def plangWriteFileI64W (value width : Int) : Printed :=
  (checkedWidth width).map fun width => padLeft width (decimal value)

def plangWriteFileU64W (value : Nat) (width : Int) : Printed :=
  (checkedWidth width).map fun width => padLeft width (decimal value)

/-- A real with decimals; a negative number of them is none. -/
def plangWriteFileF64F (reals : CReals) (value : UInt64) (width decimals : Int) (upper : Bool) :
    Printed :=
  if decimals < 0 then plangWriteFileF64E reals value width upper
  else do
    let places ← checkedWidth decimals
    return padLeft (← checkedWidth width) (reals.f places value)

def writePadded (text : Text) (width : Int) (noTrunc : Bool) : Printed :=
  if !noTrunc && width == 0 then some []
  else if width < 0 then some text
  else do
    let width ← checkedWidth width
    let pad := List.replicate (width - text.length) ' '
    return if noTrunc then pad ++ text
      else pad ++ text.take (if text.length < width then text.length else width)

def plangWriteFileBoolW (value : Bool) (width : Int) (upper noTrunc : Bool) : Printed :=
  writePadded (TurboCall.booleanText value upper) width noTrunc

def plangWriteFileCharW (value : Char) (width : Int) (alwaysWrite : Bool) : Printed :=
  if width = 0 ∧ ¬alwaysWrite then some []
  else if width < 0 then some [value]
  else (checkedWidth width).map fun width => padLeft width [value]

def plangWriteFileStrW (value : Option Text) (width : Int) (noTrunc : Bool) : Printed :=
  writePadded (cString (value.getD [])) width noTrunc

/-- A string with a length of its own. -/
def plangStrWriteFile (value : Text) : Printed := some value

/-- A string with a length of its own in a field that may cut it off. -/
def plangStrWriteFileW (value : Text) (width : Int) : Printed :=
  if width = 0 then some []
  else if width < 0 then some value
  else (checkedWidth width).map fun field =>
    List.replicate (width - value.length).toNat ' ' ++
      value.take (if width < value.length then field else value.length)

/-- The writer of the standards' dialects that a parameter for a file is given to. -/
def emitWriteArg (reals : CReals) (param : WriteParam) : Printed :=
  match param.value, param.width with
  | .integer value, none => plangWriteFileI64 value
  | .integer value, some width => plangWriteFileI64W value width
  | .qword value, none => plangWriteFileU64 value
  | .qword value, some width => plangWriteFileU64W value width
  | .real value single, none =>
      if single then plangWriteFileF32 reals value false else plangWriteFileF64 reals value false
  | .real value single, some width =>
      match param.decimals with
      | some decimals => plangWriteFileF64F reals value width decimals false
      | none =>
          if single then plangWriteFileF32E reals value width false
          else plangWriteFileF64E reals value width false
  | .boolean value, none => plangWriteFileBool value false
  | .boolean value, some width => plangWriteFileBoolW value width false false
  | .char value, none => plangWriteFileChar value
  | .char value, some width => plangWriteFileCharW value width false
  | .text value, none => plangWriteFileStr value
  | .text value, some width => plangWriteFileStrW value width false
  | .string value, none => plangStrWriteFile value
  | .string value, some width => plangStrWriteFileW value width
  -- The standards' dialects have no short strings; their writer is Turbo Pascal's.
  | .shortString value, none => some (Writing.text reals.realText (.sstr value))
  | .shortString value, some width => some (Writing.text reals.realText (.sstrW value width))

/-- The writer of Turbo Pascal that a parameter for a file is given to. -/
def turboWriting (param : WriteParam) : Writing :=
  match param.value, param.width with
  | .integer value, none => .i64 value
  | .integer value, some width => .i64W value width
  | .qword value, none => .u64 value
  | .qword value, some width => .u64W value width
  | .real value single, none => if single then .f32 value true else .f64 value true
  | .real value single, some width =>
      match param.decimals with
      | some decimals => .f64F value width decimals true
      | none => if single then .f32E value width true else .f64E value width true
  | .boolean value, none => .bool value true
  | .boolean value, some width => .boolW value width true true
  | .char value, none => .char value
  | .char value, some width => .charW value width true
  | .text value, none => .str value
  | .text value, some width => .strW value width true
  | .string value, none => .strFixed value
  | .string value, some width => .strFixedW value width
  | .shortString value, none => .sstr value
  | .shortString value, some width => .sstrW value width

end TextFile

/-! ### The families -/

variable (reals : CReals) (turbo : Bool) (param : WriteParam)

/-- The text that `write` gives a text file. -/
def textFile : Printed :=
  if turbo then some (Writing.text reals.realText (TextFile.turboWriting param))
  else TextFile.emitWriteArg reals param

/-- The text that `write` gives standard output. -/
def standardOutput : Printed :=
  if turbo then textFile reals true param else Output.emitWriteArg reals false param

/-- The text that `writestr`, or `Str`, captures. -/
def captured : Printed := Output.emitWriteArg reals turbo param

/-- The values of the dialect. -/
def WriteValue.inDialect (turbo : Bool) : WriteValue → Bool
  | .qword _ | .shortString _ => turbo
  | .real _ single => turbo || !single
  | _ => true

/-- The values that the dialect can capture: `Str` takes no strings. -/
def WriteValue.capturable (turbo : Bool) : WriteValue → Bool
  | .text _ | .string _ | .shortString _ => !turbo
  | _ => true

/-- The families write the same. -/
def FamiliesAgree : Prop :=
  param.value.inDialect turbo →
    standardOutput reals turbo param = textFile reals turbo param ∧
      (param.value.capturable turbo → captured reals turbo param = textFile reals turbo param)

/-! ### Where they agree -/

/-- A width that is narrowed to 32 bits leaves a text of this length where it was. -/
def KeepsField (width : Int) (length : Nat) : Prop :=
  width ≤ INT32_MAX ∧ (INT32_MIN ≤ width ∨ wrapWidthTP width ≤ length)

namespace CReals

variable (reals : CReals)

/-- A real with decimals, without a field. -/
def fixedText (upper : Bool) (value : UInt64) (places : Nat) : Text :=
  match if upper && isfinite value then reals.plangRealFixedNeedsCap value places else none with
  | none => reals.f places value
  | some shape => shape.text places

/-- Narrowing the width and the decimals leaves a real where and as it was.  Without decimals only
the width of the representation matters, and to an infinity or a NaN not even that. -/
def KeepsReal (value : UInt64) (width decimals : Int) : Prop :=
  if 0 ≤ decimals then
    decimals ≤ INT32_MAX ∧ KeepsField width (reals.fixedText true value decimals.toNat).length
  else if wrapWidthTP decimals < 0 then
    isfinite value = false ∨
      actWidth PlangRealProfileTurbo width = actWidth PlangRealProfileTurbo (wrapWidthTP width)
  else
    isfinite value = false ∧
      wrapWidthTP width ≤ (reals.f (wrapWidthTP decimals).toNat value).length

end CReals

/-- Narrowing the widths changes nothing that is captured. -/
def KeptNarrow (reals : CReals) (param : WriteParam) : Prop :=
  match param.value, param.width, param.decimals with
  | .integer value, some width, _ => KeepsField width (decimal value).length
  | .qword value, some width, _ => KeepsField width (decimal value).length
  | .boolean value, some width, _ => KeepsField width (TurboCall.booleanText value true).length
  | .char _, some width, _ => KeepsField width 1
  | .real value _, some width, some decimals => reals.KeepsReal value width decimals
  | _, _, _ => True

theorem padLeft_eq_iff {width : Nat} {text : Text} :
    padLeft width text = text ↔ width ≤ text.length := by
  constructor
  · intro same
    have length := congrArg List.length same
    simp [padLeft] at length
    omega
  · intro within
    rw [padLeft, Nat.sub_eq_zero_of_le within]
    rfl

theorem wrapWidthTP_of_narrow {width : Int} (least : INT32_MIN ≤ width) (most : width ≤ INT32_MAX) :
    wrapWidthTP width = width :=
  if_neg (by omega)

theorem checkedWidth_le {width : Int} {length : Nat} :
    checkedWidth width ≤ length ↔ width ≤ length := by
  rw [checkedWidth, noPadIfNegative]
  split <;> omega

theorem Output.checkedWidth_of_le {width : Int} (most : width ≤ INT32_MAX) :
    Output.checkedWidth width = some (Runtime.checkedWidth width) := by
  rw [Output.checkedWidth, Runtime.checkedWidth, noPadIfNegative]
  exact if_neg (by unfold INT32_MAX at *; split <;> omega)

theorem Output.checkedWidth_of_lt {width : Int} (wide : INT32_MAX < width) :
    Output.checkedWidth width = none := by
  rw [Output.checkedWidth, noPadIfNegative]
  exact if_pos (by unfold INT32_MAX at *; split <;> omega)

/-- A text in a field and the same in the narrowed one. -/
theorem field_eq_iff (width : Int) (text : Text) :
    (Output.checkedWidth width).map (padLeft · text) =
        some (padLeft (checkedWidth (wrapWidthTP width)) text) ↔
      KeepsField width text.length := by
  rw [KeepsField]
  by_cases most : width ≤ INT32_MAX
  · rw [Output.checkedWidth_of_le most, Option.map_some, Option.some_inj]
    by_cases least : INT32_MIN ≤ width
    · simp [wrapWidthTP_of_narrow least most, most, least]
    · have none : checkedWidth width = 0 := by
        rw [checkedWidth, noPadIfNegative, if_pos (by unfold INT32_MIN at least; omega)]
        rfl
      have bare : padLeft 0 text = text := padLeft_eq_iff.mpr (Nat.zero_le _)
      rw [none, bare, eq_comm, padLeft_eq_iff, checkedWidth_le]
      simp [most, least]
  · rw [Output.checkedWidth_of_lt (Int.not_le.mp most)]
    simp [most]

/-- A narrow or negative width lays a text out that may not be cut off. -/
theorem plangOutPadded_eq (width : Int) (text : Text) :
    Output.plangOutPadded text width true = (Output.checkedWidth width).map (padLeft · text) := by
  rw [Output.plangOutPadded]
  simp only [Bool.not_true, Bool.false_and, Bool.false_eq_true, if_false, if_true]
  by_cases negative : width < 0
  · have bare : padLeft (checkedWidth width) text = text :=
      padLeft_eq_iff.mpr (checkedWidth_le.mpr (by omega))
    rw [if_pos negative, Output.checkedWidth_of_le (by unfold INT32_MAX; omega), Option.map_some,
      bare]
  · rw [if_neg negative]
    cases Output.checkedWidth width <;> rfl

theorem paddedText_eq (width : Int) (text : Text) :
    paddedText text width true = padLeft (checkedWidth (wrapWidthTP width)) text := by
  rw [paddedText, TurboCall.fieldText]
  simp only [Bool.not_true, Bool.false_and, Bool.false_eq_true, if_false, if_true]
  split
  · exact (padLeft_eq_iff.mpr (checkedWidth_le.mpr (by omega))).symm
  · rfl

namespace CReals

variable (reals : CReals)

theorem writeRealFixedTP_eq (value : UInt64) (width decimals : Int) :
    reals.writeRealFixedTP value width decimals =
      padLeft (checkedWidth width) (reals.fixedText true value (checkedWidth decimals)) := by
  rw [writeRealFixedTP, fixedText, Bool.true_and]
  split
  · rfl
  · rw [padLeft, FixedShape.length_text]

theorem plangWriteF64F_eq {decimals : Int} (nonneg : 0 ≤ decimals) (value : UInt64) (width : Int)
    (upper : Bool) :
    Output.plangWriteF64F reals value width decimals upper =
      (Output.checkedWidth decimals).bind fun places =>
        (Output.checkedWidth width).map (padLeft · (reals.fixedText upper value places)) := by
  rw [Output.plangWriteF64F, if_neg (Int.not_lt.mpr nonneg)]
  cases Output.checkedWidth decimals with
  | none => rfl
  | some places =>
      simp only [Option.bind_some, fixedText, Option.bind_eq_bind]
      cases if (upper && isfinite value) = true then reals.plangRealFixedNeedsCap value places
          else none with
      | none => cases Output.checkedWidth width <;> rfl
      | some shape =>
          cases Output.checkedWidth width with
          | none => rfl
          | some width => simp [padLeft, FixedShape.length_text]

/-- No capital letter is among the digits that are shown. -/
theorem fixedText_ne_expChar {value : UInt64} (finite : isfinite value = true) (places : Nat) :
    'E' ∉ reals.fixedText true value places := by
  intro mem
  rw [fixedText, Bool.true_and, if_pos finite] at mem
  cases cap : reals.plangRealFixedNeedsCap value places with
  | none =>
      rw [cap] at mem
      obtain same | same | digit := reals.f_finite places value finite _ mem
      · exact absurd same (by decide)
      · exact absurd same (by decide)
      · exact absurd digit (by decide)
  | some shape =>
      rw [cap] at mem
      obtain same | same | same | digit := shape.mem_text mem
      · exact absurd same (by decide)
      · exact absurd same (by decide)
      · exact absurd same (by decide)
      · obtain ⟨parts, -, printed⟩ := reals.e_finite 16 (fabs value)
          ((isfinite_fabs value).trans finite)
        have inside := mem_plangRealFixedNeedsCap cap 'E' digit
        rw [printed] at inside
        exact parts.ne_expChar _ inside rfl

theorem field_eq_iff_keepsReal (value : UInt64) (width decimals : Int) :
    Output.plangWriteF64F reals value width decimals true =
        some (Writing.text reals.realText (.f64F value width decimals true)) ↔
      reals.KeepsReal value width decimals := by
  rw [Writing.text, KeepsReal]
  by_cases nonneg : 0 ≤ decimals
  · rw [if_pos nonneg, reals.plangWriteF64F_eq nonneg]
    by_cases most : decimals ≤ INT32_MAX
    · have narrow : wrapWidthTP decimals = decimals :=
        wrapWidthTP_of_narrow (by unfold INT32_MIN; omega) most
      have places : checkedWidth decimals = decimals.toNat := by
        rw [checkedWidth, noPadIfNegative, if_neg (Int.not_lt.mpr nonneg)]
      rw [Output.checkedWidth_of_le most, Option.bind_some, narrow, if_neg (Int.not_lt.mpr nonneg)]
      change _ = some (reals.writeRealFixedTP value (wrapWidthTP width) decimals) ↔ _
      rw [reals.writeRealFixedTP_eq, field_eq_iff, places]
      simp [most]
    · rw [Output.checkedWidth_of_lt (Int.not_le.mp most)]
      simp [most]
  · rw [if_neg nonneg, Output.plangWriteF64F, if_pos (Int.not_le.mp nonneg),
      Output.plangWriteF64E, Option.some_inj]
    by_cases negative : wrapWidthTP decimals < 0
    · rw [if_pos negative, if_pos negative]
      change reals.plangFormatReal value width PlangRealProfileTurbo (-1) =
        reals.plangFormatReal value (wrapWidthTP width) PlangRealProfileTurbo (-1) ↔ _
      cases finite : isfinite value with
      | false =>
          rw [plangFormatReal_special finite _ _ _ 0, plangFormatReal_special finite _ _ _ 0]
          simp
      | true =>
          constructor
          · intro same
            have length := congrArg List.length same
            rw [(plangFormatReal_finite finite _ _ rfl).2,
              (plangFormatReal_finite finite _ _ rfl).2] at length
            exact .inr length
          · rintro (impossible | same)
            · cases impossible
            · rw [plangFormatReal, plangFormatReal, decPlaces, decPlaces, same]
    · rw [if_neg negative, if_neg negative]
      change reals.plangFormatReal value width PlangRealProfileTurbo (-1) =
        reals.writeRealFixedTP value (wrapWidthTP width) (wrapWidthTP decimals) ↔ _
      have places : checkedWidth (wrapWidthTP decimals) = (wrapWidthTP decimals).toNat := by
        rw [checkedWidth, noPadIfNegative, if_neg negative]
      rw [reals.writeRealFixedTP_eq, places]
      cases finite : isfinite value with
      | false =>
          rw [plangFormatReal_special finite _ _ _ (wrapWidthTP decimals).toNat, fixedText, finite,
            Bool.and_false]
          simp only [Bool.false_eq_true, if_false, true_and]
          rw [eq_comm, padLeft_eq_iff, checkedWidth_le]
      | true =>
          constructor
          · intro same
            have letter := (reals.plangFormatReal_finite finite width
              PlangRealProfileTurbo rfl).1
            rw [same, padLeft, List.mem_append, List.mem_replicate] at letter
            obtain ⟨-, blank⟩ | letter := letter
            · exact absurd blank (by decide)
            · exact absurd letter (reals.fixedText_ne_expChar finite _)
          · rintro ⟨impossible, -⟩
            cases impossible

end CReals

/-- The writers of standard output and of text files agree in the standards' dialects. -/
theorem emitWriteArg_eq (reals : CReals) {param : WriteParam}
    (inDialect : param.value.inDialect false = true) :
    Output.emitWriteArg reals false param = TextFile.emitWriteArg reals param := by
  obtain ⟨value, width, decimals⟩ := param
  cases value with
  | integer value => cases width <;> rfl
  | qword value => cases inDialect
  | real value single =>
      cases width with
      | none => cases single <;> rfl
      | some width =>
          cases decimals with
          | none => cases single <;> rfl
          | some decimals =>
              change Output.plangWriteF64F reals value width decimals false =
                TextFile.plangWriteFileF64F reals value width decimals false
              rw [Output.plangWriteF64F, TextFile.plangWriteFileF64F]
              rfl
  | boolean value => cases width <;> rfl
  | char value => cases width <;> rfl
  | text value => cases width <;> rfl
  | string value => cases width <;> rfl
  | shortString value => cases inDialect

/-- What is captured is what a text file is given if and only if narrowing the widths does not
matter. -/
theorem captured_eq_iff (reals : CReals) {param : WriteParam}
    (capturable : param.value.capturable true = true) :
    captured reals true param = textFile reals true param ↔ KeptNarrow reals param := by
  obtain ⟨value, width, decimals⟩ := param
  cases value with
  | integer value =>
      cases width with
      | none => exact iff_of_true rfl trivial
      | some width => exact field_eq_iff width (decimal value)
  | qword value =>
      cases width with
      | none => exact iff_of_true rfl trivial
      | some width => exact field_eq_iff width (decimal value)
  | real value single =>
      cases width with
      | none => cases single <;> exact iff_of_true rfl trivial
      | some width =>
          cases decimals with
          | none => cases single <;> exact iff_of_true rfl trivial
          | some decimals => exact reals.field_eq_iff_keepsReal value width decimals
  | boolean value =>
      cases width with
      | none => exact iff_of_true rfl trivial
      | some width =>
          change Output.plangOutPadded _ width true = some (paddedText _ width true) ↔ _
          rw [plangOutPadded_eq, paddedText_eq]
          exact field_eq_iff width _
  | char value =>
      cases width with
      | none => exact iff_of_true rfl trivial
      | some width =>
          have written : Output.plangWriteCharW value width true =
              (Output.checkedWidth width).map (padLeft · [value]) := by
            rw [Output.plangWriteCharW, if_neg (by simp)]
            by_cases negative : width < 0
            · rw [if_pos negative, ← plangOutPadded_eq, Output.plangOutPadded]
              simp [negative]
            · rw [if_neg negative]
          have filed : Writing.text reals.realText (.charW value width true) =
              padLeft (checkedWidth (wrapWidthTP width)) [value] := by
            rw [Writing.text, if_neg (by simp), ← paddedText_eq, paddedText, TurboCall.fieldText]
            by_cases negative : wrapWidthTP width < 0
            · simp [negative]
            · simp [negative, checkedWidth]
          change Output.plangWriteCharW value width true =
            some (Writing.text reals.realText (.charW value width true)) ↔ _
          rw [written, filed]
          exact field_eq_iff width [value]
  | text value => cases capturable
  | string value => cases capturable
  | shortString value => cases capturable

/-- The families agree in the standards' dialects, and in Turbo Pascal if and only if narrowing the
widths does not matter to what is captured. -/
theorem familiesAgree_iff (reals : CReals) (turbo : Bool) (param : WriteParam) :
    FamiliesAgree reals turbo param ↔
      (turbo = true → param.value.capturable true = true → KeptNarrow reals param) := by
  cases turbo with
  | false =>
      refine iff_of_true (fun inDialect => ?_) (fun impossible => by cases impossible)
      have same := emitWriteArg_eq reals inDialect
      exact ⟨same, fun _ => same⟩
  | true =>
      have inDialect : param.value.inDialect true = true := by cases param.value <;> rfl
      constructor
      · exact fun agree _ capturable => (captured_eq_iff reals capturable).mp
          ((agree inDialect).2 capturable)
      · exact fun kept _ => ⟨rfl, fun capturable =>
          (captured_eq_iff reals capturable).mpr (kept rfl capturable)⟩

/-- `Str` ends the program where `write` narrows the width to three. -/
theorem str_not_familiesAgree :
    ¬FamiliesAgree .zeros true ⟨.integer 7, some 4294967299, none⟩ := by
  intro agree
  have kept := (captured_eq_iff .zeros rfl).mp ((agree rfl).2 rfl)
  exact absurd kept.1 (by decide)

end Runtime

end Plang
