import Mathlib.Data.List.Basic
import Mathlib.Tactic.Positivity

/-!
# The end of a program

Every way a program ends runs the registered finalisers, the last one first.  In a Turbo program
the first finaliser registered is the one that calls what `ExitProc` holds.  The routines called so
are the program's own, and may halt or fail in their turn; the call stack then keeps what was being
run, but nothing returns to it.
-/

namespace Plang

namespace Runtime

namespace Termination

variable {α : Type*}

/-- The finalisers that are registered: the runtime's own, and those of modules. -/
inductive Finaliser (α : Type*) where
  | tpRunExitproc
  | routine (fn : α)
  deriving DecidableEq, Repr

/-- The routine of the program that is being called. -/
inductive Call (α : Type*) where
  | finaliser (fn : α)
  | exitProc (fn : α)
  deriving DecidableEq, Repr

/-- The callers that run the finalisers, and go on when they have run. -/
inductive Terminator where
  /-- The end of the program block. -/
  | mainEnd
  | halt (exitVal : Int)
  | runerror (w : Int) (addr : Nat) (exitVal : Int)
  deriving DecidableEq, Repr

/-- Where a program is: in its block, in a routine called while it ends, with the calls that were
interrupted below it, or at its end. -/
inductive Status (α : Type*) where
  | main
  | running (terminator : Terminator) (call : Call α) (below : List (Terminator × Call α))
  | exited (status : Int)
  deriving DecidableEq, Repr

/-- A running program, as far as its end is concerned. -/
structure Process (α : Type*) where
  /-- The last one registered first. -/
  moduleFinalisers : List (Finaliser α)
  exitProc : Option α
  exitCode : Int
  errorAddr : Option Nat
  /-- The numbers and addresses of the run-time errors reported. -/
  reported : List (Int × Nat)
  /-- The calls made so far, in order. -/
  ran : List (Call α)
  status : Status α
  deriving DecidableEq, Repr

/-- The events of a program. -/
inductive Event (α : Type*) where
  /-- An initialiser registers the finaliser of its module. -/
  | moduleFinalPush (fn : α)
  | assignExitProc (value : Option α)
  | assignExitCode (value : Int)
  /-- The routine being called returns, or the program block comes to its end. -/
  | «return»
  /-- `Halt`, from the given address. -/
  | halt (status : Int) (addr : Nat)
  /-- `RunError`, or a check that failed. -/
  | runerror (code : Int) (addr : Nat)
  deriving DecidableEq, Repr

/-- The greatest exit code. -/
def haltMaxExitCode : Int := 255

def clampExitCode (v : Int) : Int := if v > haltMaxExitCode then haltMaxExitCode else v

def toInt32 (v : Int) : Int := v.bmod (2 ^ 32)

def toInt16 (v : Int) : Int := v.bmod (2 ^ 16)

def toUInt16 (v : Int) : Int := v % 2 ^ 16

namespace Process

/-- A program as it starts: a Turbo program registers what runs `ExitProc`. -/
def start (turbo : Bool) : Process α where
  moduleFinalisers := if turbo then [.tpRunExitproc] else []
  exitProc := none
  exitCode := 0
  errorAddr := none
  reported := []
  ran := []
  status := .main

section Running

variable (turbo : Bool) (terminator : Terminator) (below : List (Terminator × Call α))

/-- Calls a routine of the program. -/
def enter (call : Call α) (process : Process α) : Process α :=
  { process with ran := process.ran ++ [call], status := .running terminator call below }

/-- The end of the process once the finalisers have run. -/
def exit (process : Process α) : Process α :=
  match terminator with
  | .mainEnd => { process with status := .exited (if turbo then process.exitCode else 0) }
  | .halt exitVal => { process with status := .exited exitVal }
  | .runerror w addr exitVal =>
      { process with reported := process.reported ++ [(w, addr)], status := .exited exitVal }

/-- Calls what `ExitProc` holds, taken out first; goes back where it holds nothing. -/
def tpRunExitproc (back : Process α → Process α) (process : Process α) : Process α :=
  match process.exitProc with
  | some fn => enter terminator below (.exitProc fn) { process with exitProc := none }
  | none => back process

/-- Runs the finalisers, each taken off the list before it is called. -/
def moduleFinalsRun : List (Finaliser α) → Process α → Process α
  | [], process => exit turbo terminator { process with moduleFinalisers := [] }
  | .routine fn :: finalisers, process =>
      enter terminator below (.finaliser fn) { process with moduleFinalisers := finalisers }
  | .tpRunExitproc :: finalisers, process =>
      tpRunExitproc terminator below (moduleFinalsRun finalisers)
        { process with moduleFinalisers := finalisers }

/-- Goes on running the finalisers. -/
def finalsRun (process : Process α) : Process α :=
  moduleFinalsRun turbo terminator below process.moduleFinalisers process

end Running

/-- The calls below one made now. -/
def interrupted (process : Process α) : List (Terminator × Call α) :=
  match process.status with
  | .main => []
  | .running terminator call below => (terminator, call) :: below
  | .exited _ => []

/-- `Halt` never returns. -/
def halt (turbo : Bool) (status : Int) (addr : Nat) (process : Process α) : Process α :=
  let exitVal := clampExitCode (toInt32 status)
  finalsRun turbo (.halt exitVal) process.interrupted
    { process with
      errorAddr := if status ≠ 0 then some addr else process.errorAddr
      exitCode := toInt16 exitVal }

/-- A run-time error does not return either. -/
def tpRunerror (turbo : Bool) (code : Int) (addr : Nat) (process : Process α) : Process α :=
  let w := toUInt16 code
  let exitVal := clampExitCode (toInt32 w)
  finalsRun turbo (.runerror w addr exitVal) process.interrupted
    { process with
      errorAddr := some addr
      exitCode := toInt16 exitVal }

/-- The routine being called comes back. -/
def comeBack (turbo : Bool) (process : Process α) : Process α :=
  match process.status with
  | .main => finalsRun turbo .mainEnd [] process
  | .running terminator (.finaliser _) below => finalsRun turbo terminator below process
  | .running terminator (.exitProc _) below =>
      tpRunExitproc terminator below (finalsRun turbo terminator below) process
  | .exited _ => process

/-- Whether the program has ended. -/
def hasExited (process : Process α) : Bool :=
  match process.status with
  | .main => false
  | .running _ _ _ => false
  | .exited _ => true

/-- Registers a finaliser.  The initialisers do it, and only the program block calls them. -/
def moduleFinalPush (fn : α) (process : Process α) : Process α :=
  match process.status with
  | .main => { process with moduleFinalisers := .routine fn :: process.moduleFinalisers }
  | .running _ _ _ => process
  | .exited _ => process

/-- The effect of an event on a program that has not ended; only Turbo programs have `ExitProc` and
`ExitCode`. -/
def act (turbo : Bool) (process : Process α) : Event α → Process α
  | .moduleFinalPush fn => moduleFinalPush fn process
  | .assignExitProc value => if turbo then { process with exitProc := value } else process
  | .assignExitCode value => if turbo then { process with exitCode := value } else process
  | .return => comeBack turbo process
  | .halt status addr => halt turbo status addr process
  | .runerror code addr => tpRunerror turbo code addr process

def step (turbo : Bool) (process : Process α) (event : Event α) : Process α :=
  if process.hasExited then process else act turbo process event

end Process

end Termination

end Runtime

end Plang
