import Plang.Sema.OrdinalType

/-!
# For-statements

The blocks that a for-statement is lowered to.  Both bounds are evaluated, brought to the width of
the control variable, and the first one is stored; the comparison is an unsigned one as soon as the
type of the variable or of a bound is unsigned.  Before each step the variable is tested against the
limit, so that no step is made past it.
-/

namespace Plang.CodeGen

open Plang.Sema MachineInt

/-- A variable of some bits in a memory. -/
structure Variable (σ : Type*) (w : Nat) where
  load : σ → BitVec w
  store : BitVec w → σ → σ
  load_store : ∀ v memory, load (store v memory) = v

/-- A bound: its type, and what evaluating it gives and does. -/
structure Bound (σ : Type*) where
  type : OrdinalType
  width : Nat
  eval : σ → BitVec width × σ

/-- The events by which a for-statement can be observed. -/
inductive LoopEvent where
  | evalFrom
  | evalLimit
  | store (value : Int)
  /-- The body is entered with this value of the control variable. -/
  | enter (value : Int)
  deriving DecidableEq, Repr

/-- The blocks of a for-statement. -/
inductive Block where
  | cond
  | body
  | inc
  | step
  | done
  deriving DecidableEq, Repr

/-- A running for-statement. -/
structure LoopState (σ : Type*) where
  block : Block
  memory : σ
  log : List LoopEvent

/-- A for-statement whose body leaves the control variable alone. -/
structure ForStmt (turbo : Bool) (σ : Type*) where
  varType : OrdinalType
  stored : 0 < varType.llvmWidth turbo
  control : Variable σ (varType.llvmWidth turbo)
  start : Bound σ
  limit : Bound σ
  downto : Bool
  body : σ → σ
  body_keeps : ∀ memory, control.load (body memory) = control.load memory

namespace ForStmt

variable {turbo : Bool} {σ : Type*} (loop : ForStmt turbo σ)

/-- The bits of the control variable. -/
abbrev Bits : Type := BitVec (loop.varType.llvmWidth turbo)

/-- The integer that the control variable holds. -/
def value (bits : loop.Bits) : Int := denote (loop.varType.isSigned turbo) bits

/-- A bound brought to the width of the control variable. -/
def coerce (bound : Bound σ) (memory : σ) : loop.Bits :=
  resize (bound.type.isSigned turbo) (bound.eval memory).1 (loop.varType.llvmWidth turbo)

/-- Whether the comparison is an unsigned one. -/
def uns : Bool :=
  !loop.varType.isSigned turbo || !loop.start.type.isSigned turbo || !loop.limit.type.isSigned turbo

/-- Whether the body is entered. -/
def cmp (cur limit : loop.Bits) : Bool :=
  if loop.downto then
    if loop.uns then limit.ule cur else limit.sle cur
  else if loop.uns then cur.ule limit
  else cur.sle limit

def next (cur : loop.Bits) : loop.Bits := if loop.downto then cur - 1 else cur + 1

/-- One basic block of the loop. -/
def step (limit : loop.Bits) (state : LoopState σ) : LoopState σ :=
  let cur := loop.control.load state.memory
  match state.block with
  | .cond => { state with block := if loop.cmp cur limit then .body else .done }
  | .body =>
      { block := .inc, memory := loop.body state.memory
        log := state.log ++ [.enter (loop.value cur)] }
  | .inc => { state with block := if cur = limit then .done else .step }
  | .step =>
      { block := .cond, memory := loop.control.store (loop.next cur) state.memory
        log := state.log ++ [.store (loop.value (loop.next cur))] }
  | .done => state

/-- The memory once both bounds are evaluated. -/
def evaluated (memory : σ) : σ := (loop.limit.eval (loop.start.eval memory).2).2

def startBits (memory : σ) : loop.Bits := loop.coerce loop.start memory

def limitBits (memory : σ) : loop.Bits := loop.coerce loop.limit (loop.start.eval memory).2

/-- The for-statement once its control variable is stored. -/
def entry (memory : σ) : LoopState σ where
  block := .cond
  memory := loop.control.store (loop.startBits memory) (loop.evaluated memory)
  log := [.evalFrom, .evalLimit, .store (loop.value (loop.startBits memory))]

/-- The for-statement after some blocks. -/
def run (memory : σ) (steps : Nat) : LoopState σ :=
  (loop.step (loop.limitBits memory))^[steps] (loop.entry memory)

/-! ### What it should be -/

/-- The value of the first bound. -/
def startValue (memory : σ) : Int :=
  denote (loop.start.type.isSigned turbo) (loop.start.eval memory).1

/-- The value of the second bound, evaluated behind the first one. -/
def limitValue (memory : σ) : Int :=
  denote (loop.limit.type.isSigned turbo) (loop.limit.eval (loop.start.eval memory).2).1

/-- The way from a value to the next one. -/
def direction : Int := if loop.downto then -1 else 1

/-- How many values there are from one on to another. -/
def count (first last : Int) : Nat := (loop.direction * (last - first) + 1).toNat

/-- The values from one on, in the direction of the statement. -/
def sequence (first : Int) : Nat → List Int
  | 0 => []
  | count + 1 => first :: sequence (first + loop.direction) count

/-- The events of the values behind a stored one. -/
def iterations : List Int → List LoopEvent
  | [] => []
  | value :: values => .store value :: .enter value :: iterations values

/-- The events of a for-statement over some values: the first one is stored even when the body is
not entered. -/
def expected (first : Int) : List Int → List LoopEvent
  | [] => [.evalFrom, .evalLimit, .store first]
  | value :: values => [.evalFrom, .evalLimit, .store first, .enter value] ++ iterations values

/-- Each bound is evaluated once, before the first value is stored, and the body is entered with the
values from the first bound on to the second one, and no other value is stored. -/
def Iterates (memory : σ) : Prop :=
  ∃ steps, (loop.run memory steps).block = .done ∧
    (loop.run memory steps).log =
      expected (loop.startValue memory)
        (loop.sequence (loop.startValue memory)
          (loop.count (loop.startValue memory) (loop.limitValue memory)))

/-- The bounds are values of the control variable's storage. -/
structure InRange (memory : σ) : Prop where
  start : Fits (loop.varType.llvmWidth turbo) (loop.varType.isSigned turbo) (loop.startValue memory)
  limit : Fits (loop.varType.llvmWidth turbo) (loop.varType.isSigned turbo) (loop.limitValue memory)

end ForStmt

end Plang.CodeGen
