import Plang.Library.Captures
import Plang.Runtime.CrtCursor

/-!
# Captured output

What a program writes goes to standard output, or into the buffer of the `writestr` that was begun
last.  The buffers are kept on a stack and grow on demand; `realloc` may refuse.
-/

namespace Plang

namespace Runtime

/-- Double a capacity until it suffices; the first argument bounds the number of turns. -/
def doubled : Nat → Nat → Nat → Nat
  | 0, cap, _ => cap
  | turns + 1, cap, need => if cap < need then doubled turns (2 * cap) need else cap

/-- The capacity that suffices, `least` where there is none yet. -/
def grown (least cap need : Nat) : Nat := doubled need (if cap = 0 then least else cap) need

theorem le_doubled {turns cap need : Nat} (positive : 0 < cap) (near : need ≤ cap + turns) :
    need ≤ doubled turns cap need := by
  induction turns generalizing cap with
  | zero => exact near
  | succ turns induction =>
      rw [doubled]
      split
      · exact induction (by omega) (by omega)
      · omega

theorem le_grown {least cap need : Nat} (positive : 0 < least) : need ≤ grown least cap need := by
  rw [grown]
  split
  · exact le_doubled positive (Nat.le_add_left need least)
  · exact le_doubled (by omega) (Nat.le_add_left need cap)

/-- One level of capturing. -/
structure CapFrame where
  /-- The text captured. -/
  text : Text := []
  /-- The capacity of the buffer. -/
  cap : Nat := 0
  /-- The text is in the buffer. -/
  fits : text.length ≤ cap

/-- A slot that was never used. -/
def CapFrame.empty : CapFrame := { fits := Nat.zero_le _ }

/-- The variable a capture is stored into, with its capacity. -/
inductive Destination where
  | string (cap : Int)
  | fixed (n : Int)
  | sstr (cap : Int)
  deriving DecidableEq

/-- A stored text: a length in front of the characters, or none. -/
inductive Stored where
  | string (length : Int) (data : Text)
  | fixed (data : Text)
  | sstr (length : Nat) (data : Text)
  deriving DecidableEq

/-- Store a text as the variable takes it. -/
def Destination.store (text : Text) : Destination → Stored
  | .string cap => .string (min text.length cap) (text.take cap.toNat)
  | .fixed n => .fixed (text.take n.toNat ++ List.replicate (n.toNat - text.length) ' ')
  | .sstr cap =>
      let ecap := (max 0 (min cap 255)).toNat
      .sstr (min text.length ecap) (text.take ecap)

/-- The destinations of output, and what they have received. -/
structure Capture where
  /-- The frames in use, the innermost first. -/
  active : List CapFrame := []
  /-- The other slots of the stack. -/
  spare : List CapFrame := []
  /-- How often `realloc` was called. -/
  requests : Nat := 0
  /-- The text that standard output has been given. -/
  output : Text := []
  /-- The console's cursor. -/
  cursor : CrtCursor := {}
  /-- The texts that the captures have stored, in order. -/
  stored : List (Destination × Stored) := []

namespace Capture

variable (refuses : Nat → Bool)

/-- Make sure that there are `need` slots. -/
def capStackReserve (c : Capture) (need : Nat) : Capture :=
  let slots := c.active.length + c.spare.length
  if need ≤ slots then c
  else if refuses c.requests then { c with requests := c.requests + 1 }
  else
    { c with
      requests := c.requests + 1
      spare := c.spare ++ List.replicate (grown 4 slots need - slots) .empty }

/-- Make sure that the innermost frame has room for `need` characters. -/
def capReserve (c : Capture) (need : Nat) : Capture :=
  match c.active with
  | [] => c
  | frame :: rest =>
      if enough : need ≤ frame.cap then c
      else if refuses c.requests then { c with requests := c.requests + 1 }
      else
        { c with
          requests := c.requests + 1
          active :=
            { frame with
              cap := grown 256 frame.cap need
              fits := Nat.le_trans frame.fits
                (Nat.le_trans (Nat.le_of_not_le enough) (le_grown (by decide))) } :: rest }

/-- Put characters into the innermost frame; what does not fit is dropped. -/
def appendFrame (c : Capture) (data : Text) : Capture :=
  match c.active with
  | [] => c
  | frame :: rest =>
      if fits : frame.text.length + data.length ≤ frame.cap then
        { c with
          active :=
            { frame with text := frame.text ++ data, fits := by simpa using fits } :: rest }
      else c

/-- Write characters. -/
def plangOutN (c : Capture) (data : Text) : Capture :=
  if data.isEmpty then c
  else
    match c.active with
    | [] => { c with output := c.output ++ data, cursor := c.cursor.plangCrtTrackOutput data }
    | frame :: _ => (c.capReserve refuses (frame.text.length + data.length)).appendFrame data

/-- Begin a `writestr`; where the stack cannot grow, nothing happens. -/
def plangWritestrBegin (c : Capture) : Capture :=
  let reserved := c.capStackReserve refuses (c.active.length + 1)
  match reserved.spare with
  | [] => reserved
  | frame :: spare =>
      { reserved with
        active := { frame with text := [], fits := Nat.zero_le _ } :: reserved.active, spare }

/-- End it, and store what it has captured. -/
def plangWritestrEnd (c : Capture) (dest : Destination) : Capture :=
  match c.active with
  | [] => { c with stored := c.stored ++ [(dest, dest.store [])] }
  | frame :: active =>
      { c with
        active
        spare := frame :: c.spare
        stored := c.stored ++ [(dest, dest.store frame.text)] }

/-- One call of the runtime's capture routines. -/
def step (c : Capture) : Captures.Op Char Destination → Capture
  | .start => c.plangWritestrBegin refuses
  | .write chunk => c.plangOutN refuses chunk
  | .finish dest => c.plangWritestrEnd dest

/-- A sequence of calls. -/
def run (c : Capture) (ops : List (Captures.Op Char Destination)) : Capture :=
  Runs.run (step refuses) c ops

end Capture

end Runtime

end Plang
