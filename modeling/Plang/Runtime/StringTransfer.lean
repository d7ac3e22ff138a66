import Plang.Runtime.CaptureNesting

/-!
# String transfer

`writestr` and `readstr` switch the streams of the whole process: what is written goes into a string
and what is read comes from one.  A function called from one of their parameters runs behind the
switch, and finds the streams as they would be without it only as long as it does not use them.
-/

namespace Plang

namespace Runtime

/-- The streams of a program; output that is captured is on the stack of `writestr`. -/
@[ext] structure Streams where
  /-- Standard output and the captures. -/
  sink : Captures.Sink Char Destination := {}
  /-- The text that standard input has not delivered yet. -/
  input : Text := []
  /-- The string of a `readstr`, and the position in it. -/
  inBuf : Option (Text × Nat) := none
  /-- The characters the program has been given. -/
  seen : List (Option Char) := []

/-- The requests of a program to the streams, with the file named or not. -/
inductive StreamOp where
  | write (text : Text)
  | readCh
  | unget (c : Option Char)
  | writestrBegin
  | writestrEnd (dest : Destination)
  | readstrBegin (source : Text)
  | readstrEnd
  | writeOutput (text : Text)
  | readInput

namespace Streams

/-- The next character of the input. -/
def plangInCh (s : Streams) : Option Char × Streams :=
  match s.inBuf with
  | some (source, pos) =>
      if pos < source.length then (source[pos]?, { s with inBuf := some (source, pos + 1) })
      else (none, s)
  | none => (s.input.head?, { s with input := s.input.tail })

/-- Give a character back. -/
def plangInUnget (s : Streams) : Option Char → Streams
  | none => s
  | some c =>
      match s.inBuf with
      | some (source, pos) => { s with inBuf := some (source, pos - 1) }
      | none => { s with input := c :: s.input }

/-- Use the captures. -/
def onSink (s : Streams) (op : Captures.Op Char Destination) : Streams :=
  { s with sink := s.sink.step op }

/-- The program sees a character. -/
def deliver (s : Streams) (c : Option Char) : Streams := { s with seen := s.seen ++ [c] }

/-- One request to the streams. -/
def step (s : Streams) : StreamOp → Streams
  | .write text => s.onSink (.write text)
  | .readCh => s.plangInCh.2.deliver s.plangInCh.1
  | .unget c => s.plangInUnget c
  | .writestrBegin => s.onSink .start
  | .writestrEnd dest => s.onSink (.finish dest)
  | .readstrBegin source => { s with inBuf := some (source, 0) }
  | .readstrEnd => { s with inBuf := none }
  | .writeOutput text => { s with sink := { s.sink with out := s.sink.out ++ text } }
  | .readInput => { s with input := s.input.tail }.deliver s.input.head?

end Streams

/-- The effect of a request on the buffers that the runtime keeps in memory. -/
def Capture.onStream (refuses : Nat → Bool) (c : Capture) : StreamOp → Capture
  | .write text => c.plangOutN refuses text
  | .writestrBegin => c.plangWritestrBegin refuses
  | .writestrEnd dest => c.plangWritestrEnd dest
  | .writeOutput text => { c with output := c.output ++ text }
  | .readCh | .unget _ | .readstrBegin _ | .readstrEnd | .readInput => c

/-- As long as memory is granted, the captures of the streams are those in memory. -/
theorem Capture.refines_onStream {refuses : Nat → Bool} {c : Capture}
    {before : List (Destination × Stored)} {s : Streams} (refines : Refines before c s.sink)
    (op : StreamOp) (granted : Granted refuses c (c.onStream refuses op)) :
    Refines before (c.onStream refuses op) (s.step op).sink := by
  cases op with
  | write text => exact refines.step (.write text) granted
  | writestrBegin => exact refines.step .start granted
  | writestrEnd dest => exact refines.step (.finish dest) granted
  | writeOutput text => exact ⟨congrArg (· ++ text) refines.out, refines.frames, refines.stored⟩
  | unget c =>
      have same : (s.plangInUnget c).sink = s.sink := by
        rcases c with _ | c <;> rcases inBuf : s.inBuf with _ | ⟨source, pos⟩ <;>
          simp [Streams.plangInUnget, inBuf]
      rw [Streams.step, same]
      exact refines
  | readCh =>
      have same : (s.plangInCh.2.deliver s.plangInCh.1).sink = s.sink := by
        rw [Streams.plangInCh, Streams.deliver]
        split
        · split <;> rfl
        · rfl
      rw [Streams.step, same]
      exact refines
  | readstrBegin source => exact refines
  | readstrEnd => exact refines
  | readInput => exact refines

/-- What a program requests next, by how many requests it has made, what it has been given and what
its strings hold; nothing any more once it has returned. -/
def Program := Nat → List (Option Char) → List (Destination × Text) → Option StreamOp

namespace Program

/-- The program's next request. -/
def next (program : Program) (turns : Nat) (s : Streams) : Option StreamOp :=
  program turns s.seen s.sink.stored

/-- The program goes on. -/
def advance (program : Program) (turns : Nat) (s : Streams) : Streams :=
  match program.next turns s with
  | none => s
  | some op => s.step op

/-- The streams after a number of requests. -/
def run (program : Program) : Nat → Streams → Streams
  | 0, s => s
  | turns + 1, s => program.advance turns (program.run turns s)

end Program

/-- How the streams are switched: captures that are open, and a string that is read. -/
structure Redirect where
  /-- The captures. -/
  frames : List Text
  /-- The string. -/
  inBuf : Option (Text × Nat)

namespace Streams

/-- How the streams are switched. -/
def redirect (s : Streams) : Redirect := { frames := s.sink.frames, inBuf := s.inBuf }

/-- The streams as they are outside the statements that have switched them. -/
def suspended (s : Streams) : Streams :=
  { s with sink := { s.sink with frames := [] }, inBuf := none }

end Streams

namespace Redirect

/-- The streams of a program that runs behind a switch. -/
def around (outer : Redirect) (s : Streams) : Streams :=
  { s with
    sink := { s.sink with frames := s.sink.frames ++ outer.frames }
    inBuf := s.inBuf.or outer.inBuf }

@[simp] theorem around_suspended (s : Streams) : s.redirect.around s.suspended = s := rfl

/-- A switch does not affect a request: nothing is written into its captures, nothing is read from
its string (unless string and input have both come to their end), no capture of its own is ended,
and no string that is read replaces it. -/
def Unaffected (outer : Redirect) (s : Streams) : StreamOp → Prop
  | .write text => text = [] ∨ s.sink.frames ≠ [] ∨ outer.frames = []
  | .readCh =>
      s.inBuf ≠ none ∨ outer.inBuf = none ∨
        s.input = [] ∧ ∃ source pos, outer.inBuf = some (source, pos) ∧ source.length ≤ pos
  | .unget c => c = none ∨ s.inBuf ≠ none ∨ outer.inBuf = none
  | .writestrEnd _ => s.sink.frames ≠ [] ∨ outer.frames = []
  | .readstrEnd => outer.inBuf = none
  | .writestrBegin | .readstrBegin _ | .writeOutput _ | .readInput => True

theorem write_around_iff (outer : Redirect) (s : Streams) (text : Text) :
    (outer.around s).step (.write text) = outer.around (s.step (.write text)) ↔
      outer.Unaffected s (.write text) := by
  obtain ⟨⟨out, _ | ⟨own, frames⟩, stored⟩, input, inBuf, seen⟩ := s <;>
    obtain ⟨_ | ⟨frame, outer_frames⟩, outer_inBuf⟩ := outer <;>
    simp [around, Streams.step, Streams.onSink, Captures.Sink.step, Captures.Sink.put, Unaffected]

theorem writestrEnd_around_iff (outer : Redirect) (s : Streams) (dest : Destination) :
    (outer.around s).step (.writestrEnd dest) = outer.around (s.step (.writestrEnd dest)) ↔
      outer.Unaffected s (.writestrEnd dest) := by
  obtain ⟨⟨out, _ | ⟨own, frames⟩, stored⟩, input, inBuf, seen⟩ := s <;>
    obtain ⟨_ | ⟨frame, outer_frames⟩, outer_inBuf⟩ := outer <;>
    simp [around, Streams.step, Streams.onSink, Captures.Sink.step, Unaffected]

theorem readCh_around_iff (outer : Redirect) (s : Streams) :
    (outer.around s).step .readCh = outer.around (s.step .readCh) ↔
      outer.Unaffected s .readCh := by
  obtain ⟨sink, input, inBuf, seen⟩ := s
  rcases inBuf with _ | ⟨source, pos⟩
  · obtain ⟨outer_frames, _ | ⟨source, pos⟩⟩ := outer
    · simp [around, Streams.step, Streams.plangInCh, Streams.deliver, Unaffected]
    · by_cases more : pos < source.length <;> rcases input with _ | ⟨c, rest⟩ <;>
        simp [around, Streams.step, Streams.plangInCh, Streams.deliver, Unaffected, more]
      exact Nat.le_of_not_lt more
  · by_cases more : pos < source.length <;>
      simp [around, Streams.step, Streams.plangInCh, Streams.deliver, Unaffected, more]

theorem unget_around_iff (outer : Redirect) (s : Streams) (c : Option Char) :
    (outer.around s).step (.unget c) = outer.around (s.step (.unget c)) ↔
      outer.Unaffected s (.unget c) := by
  obtain ⟨sink, input, inBuf, seen⟩ := s
  rcases c with _ | c
  · simp [around, Streams.step, Streams.plangInUnget, Unaffected]
  · rcases inBuf with _ | ⟨source, pos⟩ <;>
      obtain ⟨outer_frames, _ | ⟨outer_source, outer_pos⟩⟩ := outer <;>
      simp [around, Streams.step, Streams.plangInUnget, Unaffected]

/-- A request does the same behind a switch as outside if and only if the switch does not affect
it. -/
theorem step_around_iff (outer : Redirect) (s : Streams) (op : StreamOp) :
    (outer.around s).step op = outer.around (s.step op) ↔ outer.Unaffected s op := by
  cases op with
  | write text => exact write_around_iff outer s text
  | readCh => exact readCh_around_iff outer s
  | unget c => exact unget_around_iff outer s c
  | writestrBegin => exact iff_of_true rfl trivial
  | writestrEnd dest => exact writestrEnd_around_iff outer s dest
  | readstrBegin source => exact iff_of_true rfl trivial
  | readstrEnd =>
      rcases inBuf : outer.inBuf <;> simp [around, Streams.step, Unaffected, inBuf]
  | writeOutput text => exact iff_of_true rfl trivial
  | readInput => exact iff_of_true rfl trivial

end Redirect

namespace Program

/-- Behind a switch a program sees what it would see outside. -/
theorem next_around (program : Program) (turns : Nat) (outer : Redirect) (s : Streams) :
    program.next turns (outer.around s) = program.next turns s := rfl

/-- As long as a program has run as it would outside, it goes on so if and only if the switch does
not affect its next request. -/
theorem advance_around_iff (program : Program) (turns : Nat) (outer : Redirect) (s : Streams) :
    program.advance turns (outer.around s) = outer.around (program.advance turns s) ↔
      ∀ op, program.next turns s = some op → outer.Unaffected s op := by
  rw [advance, advance, next_around]
  rcases program.next turns s with _ | op
  · simp
  · simpa using outer.step_around_iff s op

/-- A program that is called behind a switch always is where it would be outside, with the switch
around it, if and only if the switch affects none of its requests. -/
theorem run_around_iff (program : Program) (s : Streams) :
    (∀ turns, program.run turns s = s.redirect.around (program.run turns s.suspended)) ↔
      ∀ turns op, program.next turns (program.run turns s.suspended) = some op →
        s.redirect.Unaffected (program.run turns s.suspended) op := by
  constructor
  · intro same turns
    apply (advance_around_iff program turns s.redirect (program.run turns s.suspended)).mp
    rw [← same turns]
    exact same (turns + 1)
  · intro unaffected turns
    induction turns with
    | zero => exact (Redirect.around_suspended s).symm
    | succ turns induction =>
        rw [run, induction]
        exact (advance_around_iff program turns s.redirect _).mpr (unaffected turns)

/-- A function that makes one request and returns. -/
def once (op : StreamOp) : Program := fun turns _ _ => if turns = 0 then some op else none

/-- What a function called from a parameter of `writestr` writes goes into the string, and what one
called from a parameter of `readstr` reads comes from the string. -/
theorem run_around_fails :
    ((once (.write ['x'])).run 1 (({} : Streams).step .writestrBegin)).sink.out ≠
        ((once (.write ['x'])).run 1 {}).sink.out ∧
      ((once .readCh).run 1 (({ input := ['i'] } : Streams).step (.readstrBegin ['s']))).seen ≠
        ((once .readCh).run 1 { input := ['i'] }).seen := by
  decide

end Program

end Runtime

end Plang
