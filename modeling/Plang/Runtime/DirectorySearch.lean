import Plang.Library.Interleaving
import Plang.Runtime.Numbers
import Mathlib.Logic.Function.Basic

/-!
# Directory searches

The Dos unit keeps a search in the program's own record: the directory that is open, the attributes,
and the path it was given.  Each step splits that path again.
-/

namespace Plang

namespace Runtime

/-- `struct stat`. -/
structure FileStatus where
  isDirectory : Bool
  size : Int
  mtime : Int

/-- `struct tm`. -/
structure LocalTime where
  year : Int
  mon : Int
  mday : Int
  hour : Int
  min : Int
  sec : Int

/-- The answers of the file system. -/
structure FileSystem where
  /-- The entries of a directory, in the order of `readdir`. -/
  opendir : Text → Option (List Text)
  /-- The name matches the pattern. -/
  fnmatch : Text → Text → Bool
  stat : Text → Option FileStatus
  /-- `access(path, W_OK)` succeeds. -/
  writable : Text → Bool
  localtime : Int → Option LocalTime
  /-- A name fits `d_name`. -/
  name_le : ∀ directory names, opendir directory = some names → ∀ name ∈ names, name.length ≤ 255

/-- A `string` of the program. -/
structure PlangSStr255 where
  data : Text
  len_le : data.length ≤ 255

/-- Write a C string, as much of it as there is room for. -/
def writeSStr (DestCap : Int) (Src : Text) : PlangSStr255 :=
  ⟨Src.take (min (max DestCap 0) 255).toNat, by
    rw [List.length_take]
    omega⟩

/-- A copy with a terminator, as a C string. -/
def cstr (S : PlangSStr255) : Text := cString S.data

def FaReadOnly : UInt16 := 0x01
def FaHidden : UInt16 := 0x02
def FaDirectory : UInt16 := 0x10
def FaArchive : UInt16 := 0x20

/-- `SearchRec`. -/
structure PlangDosSearchRec where
  dirHandle : Option Nat
  searchAttr : UInt16
  pathPrefix : PlangSStr255
  attr : UInt8
  time : BitVec 32
  size : BitVec 32
  name : PlangSStr255

/-- Every byte of the record is zero. -/
def PlangDosSearchRec.zero : PlangDosSearchRec where
  dirHandle := none
  searchAttr := 0
  pathPrefix := ⟨[], Nat.zero_le _⟩
  attr := 0
  time := 0
  size := 0
  name := ⟨[], Nat.zero_le _⟩

/-- The time of a file as DOS packs it. -/
def packDosTime (year month day hour min sec : Int) : BitVec 32 :=
  let y := year - 1980
  let y := if y < 0 then 0 else y
  let y := if y > 127 then 127 else y
  (BitVec.ofInt 32 y &&& 0x7F#32) <<< 25 ||| (BitVec.ofInt 32 month &&& 0xF#32) <<< 21 |||
    (BitVec.ofInt 32 day &&& 0x1F#32) <<< 16 ||| (BitVec.ofInt 32 hour &&& 0x1F#32) <<< 11 |||
    (BitVec.ofInt 32 min &&& 0x3F#32) <<< 5 ||| (BitVec.ofInt 32 (sec.tdiv 2) &&& 0x1F#32)

/-- No attribute is outside the mask. -/
def attrMatches (fileAttr searchMask : UInt16) : Bool := fileAttr &&& ~~~searchMask == 0

/-- The place of the last such character. -/
def strrchr (text : Text) (c : Char) : Option Nat :=
  (text.reverse.idxOf? c).map (text.length - 1 - ·)

/-- The directory, as much of it as there is room for, and the pattern. -/
def splitDirAndPattern (path : Text) (dirCap : Nat) : Text × Text :=
  match strrchr path '/' with
  | some slash =>
      let dirLen := slash + 1
      let dirLen := if dirLen ≥ dirCap then dirCap - 1 else dirLen
      (path.take dirLen, path.drop (slash + 1))
  | none => ("./".toList.take (dirCap - 1), path)

namespace FileSystem

variable (system : FileSystem)

/-- The attributes of a file. -/
def fileAttr (fullPath nameOnly : Text) (st : FileStatus) : UInt16 :=
  (if st.isDirectory then FaDirectory else 0) |||
    (if nameOnly.head? = some '.' then FaHidden else 0) |||
    (if system.writable fullPath then 0 else FaReadOnly)

/-- Write what is known of a file into the record, if it can be known. -/
def statInto (fullPath nameOnly : Text) (record : PlangDosSearchRec) : Option PlangDosSearchRec :=
  (system.stat fullPath).map fun st =>
    { record with
      attr := (system.fileAttr fullPath nameOnly st).toUInt8
      size := BitVec.ofInt 32 st.size
      time :=
        match system.localtime st.mtime with
        | some tm => packDosTime (1900 + tm.year) (1 + tm.mon) tm.mday tm.hour tm.min tm.sec
        | none => 0
      name := writeSStr 255 nameOnly }

/-- The loop of `FindNext`: the record, the entries that are still to come, and whether one was
found. -/
def nextEntry (dirBuf pattern : Text) :
    PlangDosSearchRec → List Text → PlangDosSearchRec × List Text × Bool
  | record, [] => (record, [], false)
  | record, de :: entries =>
      if system.fnmatch pattern de then
        match system.statInto ((dirBuf ++ de).take 1279) de record with
        | some record =>
            if attrMatches record.attr.toUInt16 record.searchAttr then (record, entries, true)
            else nextEntry dirBuf pattern record entries
        | none => nextEntry dirBuf pattern record entries
      else nextEntry dirBuf pattern record entries

end FileSystem

/-- The unit, with the records of the program. -/
structure DosUnit (ι : Type*) where
  records : ι → PlangDosSearchRec
  /-- The directory streams that are open, and what is still to come from each. -/
  streams : Nat → Option (List Text)
  /-- How many have been opened. -/
  opened : Nat
  /-- Those that have been closed. -/
  closed : List Nat
  DosError : Int

namespace DosUnit

variable {ι : Type*} [DecidableEq ι] (system : FileSystem) (f : ι) (dos : DosUnit ι)

def plangDosFindnext : DosUnit ι :=
  let record := dos.records f
  match record.dirHandle with
  | none => { dos with DosError := 18 }
  | some d =>
      let (dirBuf, pattern) := splitDirAndPattern (cstr record.pathPrefix) 1024
      -- a record holds no stream that is closed
      let (record, entries, found) :=
        system.nextEntry dirBuf pattern record ((dos.streams d).getD [])
      { dos with
        records := Function.update dos.records f record
        streams := Function.update dos.streams d (some entries)
        DosError := if found then 0 else 18 }

def plangDosFindclose : DosUnit ι :=
  let record := dos.records f
  match record.dirHandle with
  | none => dos
  | some d =>
      { dos with
        records := Function.update dos.records f { record with dirHandle := none }
        streams := Function.update dos.streams d none
        closed := d :: dos.closed }

/-- The search does not begin. -/
def refuse (record : PlangDosSearchRec) : DosUnit ι :=
  { dos with records := Function.update dos.records f record, DosError := 3 }

/-- The directory of the search has been opened. -/
def opens (record : PlangDosSearchRec) (entries : List Text) : DosUnit ι :=
  { dos with
    records := Function.update dos.records f { record with dirHandle := some dos.opened }
    streams := Function.update dos.streams dos.opened (some entries)
    opened := dos.opened + 1 }

section Records

variable {dos} {f} {g : ι} (record : PlangDosSearchRec) (entries : List Text)

@[simp] theorem refuse_self : (dos.refuse f record).records f = record :=
  Function.update_self _ _ _

@[simp] theorem opens_self :
    (dos.opens f record entries).records f = { record with dirHandle := some dos.opened } :=
  Function.update_self _ _ _

@[simp] theorem opens_stream :
    (dos.opens f record entries).streams dos.opened = some entries :=
  Function.update_self _ _ _

theorem refuse_of_ne (ne : g ≠ f) : (dos.refuse f record).records g = dos.records g :=
  Function.update_of_ne ne _ _

theorem opens_of_ne (ne : g ≠ f) : (dos.opens f record entries).records g = dos.records g :=
  Function.update_of_ne ne _ _

theorem opens_stream_of_ne {d : Nat} (ne : d ≠ dos.opened) :
    (dos.opens f record entries).streams d = dos.streams d :=
  Function.update_of_ne ne _ _

end Records

def plangDosFindfirst (path : Text) (attr : UInt16) : DosUnit ι :=
  if path = [] then dos.refuse f .zero
  else
    let record : PlangDosSearchRec :=
      { PlangDosSearchRec.zero with
        pathPrefix := writeSStr 255 path
        searchAttr := attr ||| FaArchive ||| FaReadOnly }
    match system.opendir (splitDirAndPattern path 1024).1 with
    | none => dos.refuse f record
    | some entries => (dos.opens f record entries).plangDosFindnext system f

end DosUnit

/-- A call with a record. -/
inductive SearchCall where
  | FindFirst (Path : Text) (Attr : UInt16)
  | FindNext
  | FindClose
  deriving DecidableEq

/-- The answers that the program sees. -/
inductive SearchAnswer where
  | found (Name : Text)
  | error (DosError : Int)
  | closed
  deriving DecidableEq

namespace DosUnit

variable {ι : Type*} [DecidableEq ι] (system : FileSystem)

/-- The answer that the program sees behind a call that searches. -/
def answer (f : ι) (dos : DosUnit ι) : SearchAnswer :=
  if dos.DosError = 0 then .found (dos.records f).name.data else .error dos.DosError

/-- One call.  The path is handed over as a C string. -/
def step (f : ι) (call : SearchCall) (dos : DosUnit ι) : SearchAnswer × DosUnit ι :=
  match call with
  | .FindFirst path attr =>
      let after := dos.plangDosFindfirst system f (cString path) attr
      (after.answer f, after)
  | .FindNext =>
      let after := dos.plangDosFindnext system f
      (after.answer f, after)
  | .FindClose => (.closed, dos.plangDosFindclose f)

end DosUnit

end Runtime

end Plang
