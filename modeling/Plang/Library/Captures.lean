import Plang.Library.Runs

/-!
# Nested captures

A writer whose output can be captured: what is written goes to the capture that was begun last, or
out where there is none.  Brackets of captures are trees, and running through one stores the text
that was written directly in each of its brackets.
-/

namespace Captures

variable {α δ : Type*}

/-- The operations of the writer; a capture ends with the place its text is for. -/
inductive Op (α δ : Type*) where
  | start
  | write (chunk : List α)
  | finish (dest : δ)

/-- A writer with its captures. -/
@[ext] structure Sink (α δ : Type*) where
  /-- The items written out. -/
  out : List α := []
  /-- The captures, the one begun last first. -/
  frames : List (List α) := []
  /-- The captures stored, in order. -/
  stored : List (δ × List α) := []

namespace Sink

/-- Write to the capture begun last, or out. -/
def put (sink : Sink α δ) (chunk : List α) : Sink α δ :=
  match sink.frames with
  | [] => { sink with out := sink.out ++ chunk }
  | frame :: frames => { sink with frames := (frame ++ chunk) :: frames }

/-- One operation; the end of a capture that was not begun stores nothing. -/
def step (sink : Sink α δ) : Op α δ → Sink α δ
  | .start => { sink with frames := [] :: sink.frames }
  | .write chunk => sink.put chunk
  | .finish dest =>
      { sink with
        frames := sink.frames.tail
        stored := sink.stored ++ [(dest, sink.frames.head?.getD [])] }

/-- Store more. -/
def store (sink : Sink α δ) (more : List (δ × List α)) : Sink α δ :=
  { sink with stored := sink.stored ++ more }

@[simp] theorem put_nil (sink : Sink α δ) : sink.put [] = sink := by
  rcases sink with ⟨out, _ | ⟨frame, frames⟩, stored⟩ <;> simp [put]

@[simp] theorem put_put (sink : Sink α δ) (first second : List α) :
    (sink.put first).put second = sink.put (first ++ second) := by
  rcases sink with ⟨out, _ | ⟨frame, frames⟩, stored⟩ <;> simp [put]

@[simp] theorem stored_put (sink : Sink α δ) (chunk : List α) :
    (sink.put chunk).stored = sink.stored := by
  rcases sink with ⟨out, _ | ⟨frame, frames⟩, stored⟩ <;> rfl

@[simp] theorem store_nil (sink : Sink α δ) : sink.store [] = sink := by
  simp [store]

@[simp] theorem store_store (sink : Sink α δ) (first second : List (δ × List α)) :
    (sink.store first).store second = sink.store (first ++ second) := by
  simp [store]

theorem put_store (sink : Sink α δ) (chunk : List α) (more : List (δ × List α)) :
    (sink.store more).put chunk = (sink.put chunk).store more := by
  rcases sink with ⟨out, _ | ⟨frame, frames⟩, stored⟩ <;> rfl

end Sink

/-- A well-bracketed sequence. -/
inductive Bracketed (α δ : Type*) where
  | nil
  | chunk (text : List α) (rest : Bracketed α δ)
  | capture (body : Bracketed α δ) (dest : δ) (rest : Bracketed α δ)

namespace Bracketed

/-- The operations of the sequence. -/
def ops : Bracketed α δ → List (Op α δ)
  | .nil => []
  | .chunk text rest => .write text :: rest.ops
  | .capture body dest rest => .start :: (body.ops ++ .finish dest :: rest.ops)

/-- The items written directly in the sequence, outside its captures. -/
def text : Bracketed α δ → List α
  | .nil => []
  | .chunk text rest => text ++ rest.text
  | .capture _ _ rest => rest.text

/-- The texts that the captures of the sequence store, in the order in which they end: each the text
written directly in its body. -/
def stored : Bracketed α δ → List (δ × List α)
  | .nil => []
  | .chunk _ rest => rest.stored
  | .capture body dest rest => body.stored ++ (dest, body.text) :: rest.stored

/-- A well-bracketed sequence adds its direct text to the capture that is open around it, or to the
output where none is, stores what its captures have collected, and leaves the rest alone. -/
theorem run_ops (sequence : Bracketed α δ) (sink : Sink α δ) :
    Runs.run Sink.step sink sequence.ops = (sink.put sequence.text).store sequence.stored := by
  induction sequence generalizing sink with
  | nil => simp [ops, text, stored]
  | chunk written rest induction =>
      rw [ops, Runs.run_cons, induction, Sink.step, Sink.put_put, text, stored]
  | capture body dest rest body_induction rest_induction =>
      have begun : (Sink.step sink .start).put body.text =
          { sink with frames := body.text :: sink.frames } := by
        simp [Sink.step, Sink.put]
      have ended : Sink.step ({ sink with frames := body.text :: sink.frames }.store body.stored)
          (.finish dest) = sink.store (body.stored ++ [(dest, body.text)]) := by
        simp [Sink.step, Sink.store]
      rw [ops, Runs.run_cons, Runs.run_append, body_induction, begun, Runs.run_cons, ended,
        rest_induction, Sink.put_store, Sink.store_store, text, stored, List.append_assoc,
        List.singleton_append]

end Bracketed

end Captures
