import Plang.Basic.Text
import Plang.Library.FileMap

/-!
# Publishing interfaces

How one compilation puts its interface files into place, and takes them away again when it fails.
What the parser, the checker, the interface writer and the generator make of the source is given, and
so is what the file system answers.
-/

namespace Plang.Frontend

open FileMap

abbrev Disk := Text → Option Text

/-- The answers of the file system to the steps of one publication. -/
structure Answers where
  /-- What makes the name of the temporary file one that is not in use. -/
  unique : Text
  creates : Bool
  writes : Bool
  /-- What a write that fails has left in the temporary file. -/
  torn : Text
  renames : Bool
  removesTemp : Bool
  deriving DecidableEq, Repr

/-- A module with declarations of some type. -/
structure ModuleNode (β : Type*) where
  name : Text
  isInterface : Bool
  body : Option β
  deriving DecidableEq, Repr

structure UnitNode (β : Type*) where
  name : Text
  interfaceBlock : Option β
  deriving DecidableEq, Repr

structure ProgramNode (β : Type*) where
  bareUnit : Option (UnitNode β)
  ownedModules : List (ModuleNode β)
  deriving DecidableEq, Repr

/-- The text of an interface, and how many of its declarations were reported as not serializable. -/
structure Content where
  text : Text
  errors : Nat
  deriving DecidableEq, Repr

/-- The interface writers. -/
structure Writers (β : Type*) where
  pmi : ModuleNode β → Option (ModuleNode β) → Content
  tui : UnitNode β → Text

/-! ### One file -/

/-- The directory of the input file. -/
def interfaceDir (inputFile : Text) : Text :=
  if '/' ∈ inputFile then (inputFile.reverse.dropWhile (· != '/')).tail.reverse else ['.']

def pmiPath (inputFile name : Text) : Text :=
  interfaceDir inputFile ++ ['/'] ++ toLower name ++ ".pmi".toList

def tuiPath (inputFile name : Text) : Text :=
  interfaceDir inputFile ++ ['/'] ++ toLower name ++ ".tui".toList

def tmpPath (path : Text) (answers : Answers) : Text :=
  path ++ ['-'] ++ answers.unique ++ ".tmp".toList

def removeTemp (answers : Answers) (path : Text) (disk : Disk) : Disk :=
  if answers.removesTemp then erase disk (tmpPath path answers) else disk

/-- A file is written under another name and renamed into place. -/
def publish (answers : Answers) (path text : Text) (disk : Disk) : Disk × Bool :=
  if !answers.creates then (disk, false)
  else if !answers.writes then
    (removeTemp answers path (put disk (tmpPath path answers) answers.torn), false)
  else if !answers.renames then
    (removeTemp answers path (put disk (tmpPath path answers) text), false)
  else (put (erase (put disk (tmpPath path answers) text) (tmpPath path answers)) path text, true)

/-! ### The interfaces of modules -/

def eqCI (first second : Text) : Bool := toLower first = toLower second

section Modules

variable {β : Type*} (writers : Writers β) (inputFile : Text) (removes : Text → Bool)

/-- A module that is to be published, and what the file system answers then. -/
structure Attempt (β : Type*) where
  mod : ModuleNode β
  answers : Answers
  deriving DecidableEq, Repr

def ifaceOf (modules : List (ModuleNode β)) (mod : ModuleNode β) : Option (ModuleNode β) :=
  modules.find? fun other => other.isInterface && eqCI other.name mod.name

/-- `cleanupPublished`: as far as they can be, the files are removed. -/
def cleanupPublished (published : List Text) (disk : Disk) : Disk := removeAll removes disk published

/-- The loop of `writePMIFiles`: the files published so far, and whether an error has been reported.
A module whose interface could not be written whole is left out, and the others still follow. -/
def writePMILoop (modules : List (ModuleNode β)) :
    List (Attempt β) → Disk → List Text → Bool → Disk × Bool
  | [], disk, published, hasErrors =>
      if hasErrors then (cleanupPublished removes published disk, false) else (disk, true)
  | attempt :: rest, disk, published, hasErrors =>
      if attempt.mod.isInterface || attempt.mod.body.isNone then
        writePMILoop modules rest disk published hasErrors
      else
        let content := writers.pmi attempt.mod (ifaceOf modules attempt.mod)
        if content.errors ≠ 0 then writePMILoop modules rest disk published true
        else if content.text.isEmpty then writePMILoop modules rest disk published hasErrors
        else
          let path := pmiPath inputFile attempt.mod.name
          let after := publish attempt.answers path content.text disk
          if after.2 then writePMILoop modules rest after.1 (published ++ [path]) hasErrors
          else (cleanupPublished removes published after.1, false)

def writePMIFiles (attempts : List (Attempt β)) (disk : Disk) : Disk × Bool :=
  writePMILoop writers inputFile removes (attempts.map Attempt.mod) attempts disk [] false

/-- The path comes back when a file was published. -/
def writeTUIFile (unit : UnitNode β) (answers : Answers) (disk : Disk) :
    Disk × Option (Option Text) :=
  let text := writers.tui unit
  if text.isEmpty then (disk, some none)
  else
    let path := tuiPath inputFile unit.name
    let after := publish answers path text disk
    if after.2 then (after.1, some (some path)) else (after.1, none)

end Modules

/-! ### A compilation -/

structure Request where
  sourceName : Text
  isDirectory : Bool
  dumpTokens : Bool
  dumpParseTree : Bool
  dumpAst : Bool
  dumpVmt : Bool
  deriving DecidableEq, Repr

/-- The modes that print something and compile nothing. -/
def Request.inspects (request : Request) : Bool :=
  request.dumpTokens || request.dumpParseTree || request.dumpAst || request.dumpVmt

/-- The course of a compilation: the results of the phases, and the answers of the file system. -/
structure Course (β : Type*) where
  scans : Bool
  parsed : Option (ProgramNode β)
  /-- Nothing was reported while reading. -/
  quiet : Bool
  checks : Bool
  emits : Bool
  writers : Writers β
  /-- The answers for each of the modules, and for a unit the first of them. -/
  answers : Nat → Answers
  removes : Text → Bool
  /-- The output, which is no interface file, is opened and written. -/
  delivers : Bool

variable {β : Type*}

def Course.attempts (course : Course β) (program : ProgramNode β) : List (Attempt β) :=
  program.ownedModules.zipIdx.map fun entry => ⟨entry.1, course.answers entry.2⟩

/-- The disk, whether there is output, and whether the request succeeds. -/
structure CompilationResult where
  disk : Disk
  output : Bool
  success : Bool

def compileUnit (request : Request) (course : Course β) (unit : UnitNode β) (disk : Disk) :
    CompilationResult :=
  if !course.checks then ⟨disk, false, false⟩
  else if request.dumpAst || request.dumpVmt then ⟨disk, true, true⟩
  else
    let written := writeTUIFile course.writers request.sourceName unit (course.answers 0) disk
    match written.2 with
    | none => ⟨written.1, false, false⟩
    | some published =>
        if course.emits then ⟨written.1, true, true⟩
        else ⟨cleanupPublished course.removes published.toList written.1, true, false⟩

def compileProgram (request : Request) (course : Course β) (program : ProgramNode β)
    (disk : Disk) : CompilationResult :=
  if !course.checks then ⟨disk, false, false⟩
  else if request.dumpAst || request.dumpVmt then ⟨disk, true, true⟩
  else
    let written := writePMIFiles course.writers request.sourceName course.removes
      (course.attempts program) disk
    if written.2 then ⟨written.1, true, course.emits⟩ else ⟨written.1, false, false⟩

def compileRequest (request : Request) (course : Course β) (disk : Disk) : CompilationResult :=
  if request.isDirectory then ⟨disk, false, false⟩
  else if !course.scans then ⟨disk, false, false⟩
  else if request.dumpTokens then ⟨disk, true, course.quiet⟩
  else
    match course.parsed with
    | none => ⟨disk, false, false⟩
    | some program =>
        if request.dumpParseTree then ⟨disk, true, course.quiet⟩
        else
          match program.bareUnit with
          | some unit => compileUnit request course unit disk
          | none => compileProgram request course program disk

/-- The front end as a command: the disk afterwards, and whether it exits with zero. -/
def frontendPC1Main (request : Request) (course : Course β) (disk : Disk) : Disk × Bool :=
  let result := compileRequest request course disk
  (result.disk, result.success && (!result.output || course.delivers))

end Plang.Frontend
