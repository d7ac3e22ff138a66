import Plang.Basic.Text
import Plang.Library.RowMajor

/-!
# Conformant arrays in calls

A conformant formal is passed as an address and a pair of bounds for each of its dimensions, which
are variables of the activation.  The bounds of an actual are those recorded in its type, those that
its own activation was passed, or for a body over discriminants those that are written in it.
Beside what is passed stands the array that the formal denotes.
-/

namespace Plang.CodeGen.ConformantCalls

open RowMajor

/-- An array in memory: its dimensions, the bytes of a component, and where it begins. -/
structure Region where
  bounds : List Bounds
  unit : Nat
  base : Int

/-- The part of a region that some subscripts select. -/
def Region.row (region : Region) (subs : List Int) : Region :=
  ⟨region.bounds.drop subs.length, region.unit,
    region.base + offset region.bounds subs * region.unit⟩

/-- The component type of a conformant formal: its dimensions, with bounds of its own, and the bytes
of what is in them. -/
structure Component where
  bounds : List Bounds
  unit : Nat

def Component.size (component : Component) : Int := volume component.bounds * component.unit

/-- A conformant formal, with the names of its bounds. -/
structure Formal where
  conformantDims : List (Text × Text)
  component : Component
  some_dim : conformantDims ≠ []

/-- A formal in an activation: what its bound variables hold, its address, and the array that it
denotes. -/
structure Param where
  formal : Formal
  bounds : List Bounds
  ptr : Int
  region : Region

/-- The variables of an activation, bounds among them, and its conformant formals. -/
structure Level where
  cells : List (Text × Int)
  params : List Param
  declared : ∀ param ∈ params, ∀ (k : Nat) (names : Text × Text),
    param.formal.conformantDims[k]? = some names →
      ∃ bounds : Bounds, param.bounds[k]? = some bounds ∧
        cells.lookup names.1 = some bounds.lo ∧ cells.lookup names.2 = some bounds.hi

/-- A variable of the enclosing activations, by its name: the innermost one. -/
def findVar (name : Text) : List Level → Int
  | [] => 0
  | level :: outer =>
      match level.cells.lookup name with
      | some value => value
      | none => findVar name outer

/-- The bounds of a formal in an activation, which is its own or is nested in that one: a formal
that is captured has the bounds that its names find among the captured variables. -/
def conformantBounds (levels : List Level) (depth : Nat) (param : Param) : List Bounds :=
  match depth with
  | 0 => param.bounds
  | _ + 1 => param.formal.conformantDims.map fun names =>
      ⟨findVar names.1 levels.tail, findVar names.2 levels.tail⟩

/-! ### Subscripts -/

-- Whether subscripts are compared with their bounds.
variable (checked : Bool)

/-- The index in the flat block; a subscript may be reported. -/
def flatIndex : Nat → Int → List Bounds → List Int → Option Int
  | _, flat, [], _ => some flat
  | d, flat, bounds :: dims, [] => flatIndex (d + 1) (flat * bounds.extent) dims []
  | d, flat, bounds :: dims, idx :: subs =>
      if checked && !(decide (bounds.lo ≤ idx) && decide (idx ≤ bounds.hi)) then none
      else
        flatIndex (d + 1) ((if 0 < d then flat * bounds.extent else flat) + (idx - bounds.lo)) dims
          subs

/-- The subscripts behind the conformant dimensions. -/
def elemPtr (unit : Nat) : List Bounds → Int → List Int → Option Int
  | _, p, [] => some p
  | [], p, idx :: subs => elemPtr unit [] (p + idx * 8) subs
  | bounds :: rest, p, idx :: subs =>
      if checked && !(decide (bounds.lo ≤ idx) && decide (idx ≤ bounds.hi)) then none
      else elemPtr unit rest (p + (idx - bounds.lo) * (volume rest * unit)) subs

def emitConformantElemPtr (dims : List Bounds) (component : Component) (ptr : Int)
    (subs : List Int) : Option Int :=
  (flatIndex checked 0 0 dims subs).bind fun flat =>
    elemPtr checked component.unit component.bounds (ptr + flat * component.size)
      (subs.drop dims.length)

/-! ### Calls -/

/-- The actual parameters that a conformant formal accepts. -/
inductive Actual where
  /-- A string, by its length and the address of its bytes. -/
  | literal (length : Nat) (ptr : Int)
  /-- A variable that is not a conformant formal: the bounds that its type has, and the bounds that
  are written in the denoter of a body over discriminants, as far as it is one array in another, if
  they evaluate. -/
  | declared (region : Region) (recorded : List Bounds) (written : List (Option Bounds))
  /-- A formal of the caller or of an activation around it, whole or with subscripts. -/
  | received (depth k : Nat) (subs : List Int)

/-- The bounds that are pushed for some dimensions: `own` are those that the activation was passed,
and the type of the actual has some dimensions without bounds before those with recorded ones. -/
def pushBounds : Nat → List Bounds → Nat → List Bounds → List (Option Bounds) → List Bounds
  | 0, _, _, _, _ => []
  | dims + 1, own, conformant, recorded, written =>
      let static : Bounds :=
        match conformant, recorded with
        | 0, bounds :: _ => bounds
        | _, _ => ⟨0, 0⟩
      let pushed :=
        match written, own with
        | some bounds :: _, _ => bounds
        | _, bounds :: _ => bounds
        | _, [] => static
      pushed :: pushBounds dims own.tail (conformant - 1)
        (if conformant = 0 then recorded.tail else recorded) written.tail

def findParam (levels : List Level) (depth k : Nat) : Option Param :=
  levels[depth]?.bind fun level => level.params[k]?

/-- The address and the bounds for an actual. -/
def pushConformantArgs (levels : List Level) (dims : Nat) : Actual → Option (Int × List Bounds)
  | .literal length ptr => some (ptr, [⟨1, length⟩])
  | .declared region recorded written => some (region.base, pushBounds dims [] 0 recorded written)
  | .received depth k subs =>
      (findParam levels depth k).bind fun param =>
        let own := conformantBounds levels depth param
        let component := param.formal.component
        if subs = [] then some (param.ptr, pushBounds dims own own.length component.bounds [])
        else
          -- An element or a row has no bounds but those of its type.
          (emitConformantElemPtr checked own component param.ptr subs).map fun ptr =>
            (ptr, pushBounds dims [] (own.length - subs.length)
              (component.bounds.drop (subs.length - own.length)) [])

/-- The array that an actual denotes: an actual with subscripts is the row that they select. -/
inductive Denotes (levels : List Level) : Actual → Region → Prop
  | literal (length : Nat) (ptr : Int) :
      Denotes levels (.literal length ptr) ⟨[⟨1, length⟩], 1, ptr⟩
  | declared (region : Region) (recorded : List Bounds) (written : List (Option Bounds)) :
      Denotes levels (.declared region recorded written) region
  | received {depth k : Nat} {subs : List Int} {param : Param}
      (found : findParam levels depth k = some param) (inside : Inside param.region.bounds subs) :
      Denotes levels (.received depth k subs) (param.region.row subs)

/-- A formal is passed an actual; a value parameter that is modified is a copy of its own. -/
def Passed (levels : List Level) (actual : Actual) (region : Region) (param : Param) : Prop :=
  ∃ ptr copy, pushConformantArgs checked levels param.formal.conformantDims.length actual =
      some (ptr, param.bounds) ∧
    param.ptr = Option.getD copy ptr ∧
    param.region = { region with base := Option.getD copy region.base }

/-- The activations that calls lead to, each with those that its block is nested in: the formals of
a new one are passed actuals of the caller. -/
inductive Reached (allowed : List Level → Actual → Region → Formal → Prop) : List Level → Prop
  | main : Reached allowed []
  | call {caller outer : List Level} (level : Level) (from_caller : Reached allowed caller)
      (inside : Reached allowed outer)
      (passed : ∀ param ∈ level.params, ∃ actual region, Denotes caller actual region ∧
        allowed caller actual region param.formal ∧ Passed checked caller actual region param) :
      Reached allowed (level :: outer)

end Plang.CodeGen.ConformantCalls
