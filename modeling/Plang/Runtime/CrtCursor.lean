import Plang.Basic.Text

/-!
# The console's cursor

The Crt unit does not ask the terminal where the cursor is: an automaton follows the bytes that are
written.  It skips control sequences, wherever they are split.
-/

namespace Plang

namespace Runtime

/-- How much of a control sequence has been seen. -/
inductive CrtEscState where
  | normal
  | sawEsc
  | inCsi
  deriving DecidableEq

/-- The tracked cursor. -/
structure CrtCursor where
  /-- The control sequence. -/
  esc : CrtEscState := .normal
  /-- The column, from one. -/
  col : Int := 1
  /-- The row, from one. -/
  row : Int := 1
  deriving DecidableEq

namespace CrtCursor

/-- The cursor behind one byte that reaches the console. -/
def trackByte (cursor : CrtCursor) (c : Char) : CrtCursor :=
  match cursor.esc with
  | .normal =>
      if c = '\x1b' then { cursor with esc := .sawEsc }
      else if c = '\n' then { cursor with col := 1, row := cursor.row + 1 }
      else if c = '\r' then { cursor with col := 1 }
      else { cursor with col := cursor.col + 1 }
  | .sawEsc => { cursor with esc := if c = '[' then .inCsi else .normal }
  | .inCsi =>
      if 0x40 ≤ c.toNat ∧ c.toNat ≤ 0x7e then { cursor with esc := .normal } else cursor

/-- Bytes reach the console. -/
def plangCrtTrackOutput (cursor : CrtCursor) (data : Text) : CrtCursor :=
  data.foldl trackByte cursor

@[simp] theorem plangCrtTrackOutput_nil (cursor : CrtCursor) :
    cursor.plangCrtTrackOutput [] = cursor := rfl

/-- The tracked cursor does not depend on how the bytes are split. -/
theorem plangCrtTrackOutput_append (cursor : CrtCursor) (first second : Text) :
    cursor.plangCrtTrackOutput (first ++ second) =
      (cursor.plangCrtTrackOutput first).plangCrtTrackOutput second :=
  List.foldl_append

end CrtCursor

end Runtime

end Plang
