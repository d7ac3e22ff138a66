import Mathlib.Data.BitVec
import Mathlib.Order.Nat
import Plang.Basic.Text
import Plang.Library.PointTable

/-!
# Compiler switches and where they change

The switches of `CompilerSwitches.def`, the bit mask that holds one state of all of them, and the
table of the places where that state changed.
-/

namespace Plang

/-- The compiler switches, in table order. -/
inductive Switch where
  | RangeChecks | IOChecks | BoolEval | ExtendedSyntax | OverflowChecks | VarStringChecks
  | TypedAddress | OpenStrings | StackChecks | Assertions | WritableConst | GenerateGoto
  | ObjectChecks | Goto
  deriving DecidableEq, Repr

namespace Switch

/-- Every switch, in table order. -/
def all : List Switch :=
  [.RangeChecks, .IOChecks, .BoolEval, .ExtendedSyntax, .OverflowChecks, .VarStringChecks,
    .TypedAddress, .OpenStrings, .StackChecks, .Assertions, .WritableConst, .GenerateGoto,
    .ObjectChecks, .Goto]

/-- Position in the table, which is the bit a `CompilerState` keeps the switch in. -/
def index : Switch → Nat
  | RangeChecks => 0 | IOChecks => 1 | BoolEval => 2 | ExtendedSyntax => 3
  | OverflowChecks => 4 | VarStringChecks => 5 | TypedAddress => 6 | OpenStrings => 7
  | StackChecks => 8 | Assertions => 9 | WritableConst => 10 | GenerateGoto => 11
  | ObjectChecks => 12 | Goto => 13

/-- The letter `{$R+}` spells the switch with; NUL where it has none. -/
def letter : Switch → Char
  | RangeChecks => 'r' | IOChecks => 'i' | BoolEval => 'b' | ExtendedSyntax => 'x'
  | OverflowChecks => 'q' | VarStringChecks => 'v' | TypedAddress => 't' | OpenStrings => 'p'
  | StackChecks => 's' | Assertions => 'c' | WritableConst => 'j' | GenerateGoto => 'w'
  | ObjectChecks => '\x00' | Goto => '\x00'

/-- The word `{$RANGECHECKS ON}` spells the switch with. -/
def longName : Switch → String
  | RangeChecks => "rangechecks" | IOChecks => "iochecks" | BoolEval => "booleval"
  | ExtendedSyntax => "extendedsyntax" | OverflowChecks => "overflowchecks"
  | VarStringChecks => "varstringchecks" | TypedAddress => "typedaddress"
  | OpenStrings => "openstrings" | StackChecks => "stackchecks" | Assertions => "assertions"
  | WritableConst => "writeableconst" | GenerateGoto => "stackframes"
  | ObjectChecks => "objectchecks" | Goto => "goto"

/-- The settings that Turbo Pascal starts a compilation with. -/
def turboDefault : Switch → Bool
  | IOChecks | ExtendedSyntax | VarStringChecks | StackChecks | Assertions | WritableConst
  | Goto => true
  | _ => false

end Switch

/-- The first switch with the given letter, in either case. -/
def switchFromLetter (letter : Char) : Option Switch :=
  Switch.all.find? fun switch => letter.toLower == switch.letter

/-- The first switch with the given long name, which is already in lower case. -/
def switchFromLongName (name : Text) : Option Switch :=
  Switch.all.find? fun switch => name == switch.longName.toList

/-- The state of every switch at one point, as a bit mask. -/
structure CompilerState where
  /-- One bit a switch. -/
  bits : BitVec 16
  deriving DecidableEq

namespace CompilerState

/-- Whether a switch is on. -/
def on (state : CompilerState) (switch : Switch) : Bool := state.bits.getLsbD switch.index

/-- Turn one switch on or off. -/
def set (state : CompilerState) (switch : Switch) (value : Bool) : CompilerState :=
  let bit : BitVec 16 := 1#16 <<< switch.index
  ⟨if value then state.bits ||| bit else state.bits &&& ~~~bit⟩

/-- The state Turbo Pascal starts with. -/
def turboDefaults : CompilerState :=
  Switch.all.foldl (fun state switch => state.set switch switch.turboDefault) ⟨0#16⟩

end CompilerState

/-- Where the switch state changed, by raw source location. -/
abbrev SwitchTable := PointTable Nat CompilerState

namespace SwitchTable

/-- The state in force at a location; location zero is nowhere. -/
def stateAt (table : SwitchTable) (loc : Nat) (default : CompilerState) : CompilerState :=
  if loc = 0 then default else (table.lastAt loc).getD default

theorem stateAt_eq_of_lastAt {table : SwitchTable} {loc : Nat} {default state : CompilerState}
    (loc_pos : 0 < loc) (found : table.lastAt loc = some state) :
    table.stateAt loc default = state := by
  simp [stateAt, loc_pos.ne', found]

/-- A point changes no answer below it, nor at or above a point that lies after it. -/
theorem stateAt_record {table : SwitchTable} {key loc : Nat} {state default : CompilerState}
    (apart : loc < key ∨ ∃ later, table.HasKey later ∧ key < later ∧ later ≤ loc) :
    SwitchTable.stateAt (table.record key state) loc default = table.stateAt loc default := by
  unfold stateAt
  rcases apart with below | ⟨later, recorded, key_lt, later_le⟩
  · rw [PointTable.lastAt_record_of_lt below]
  · rw [PointTable.lastAt_record_of_hasKey recorded key_lt later_le]

end SwitchTable

end Plang
