import Plang.Library.Runs
import Plang.Runtime.StandardInput

/-!
# Reads with and without the file

A program reads standard input now with the file named and now without it.  It is given what it would
be given with the file named throughout, as long as no character is read at a line marker without the
file and every request that names the file finds a window as good as the next character.
-/

namespace Plang

namespace Runtime

open Stdio IsoCall Runs

/-- A window that is as good as the next character for a request. -/
def Judged (kind : InputKind) (window next : Window) : Prop :=
  match kind with
  | .char | .eof => window = .eof ↔ next = .eof
  | .eoln => (window = .eof ∨ window = .char '\n') ↔ (next = .eof ∨ next = .char '\n')
  | .readln => (window = .eof ↔ next = .eof) ∧ (window = .char '\n' ↔ next = .char '\n')
  | .integer => numberSight false window = numberSight false next
  | .real => numberSight true window = numberSight true next

/-- A request that names the file finds an empty window or one as good as the next character; one
that does not name it reads no character at a line marker. -/
def InputOp.Safe (c : IsoCall) (op : InputOp) : Prop :=
  if op.named then c.file.buf = .uninit ∨ Judged op.kind c.file.buf (windowOf c.libc.input)
  else op.kind = .char → c.libc.input.head? ≠ some '\n'

/-- Standard input after a request. -/
def leaving (base : IsoCall) (rest : Text) (window : Window) (ended : Bool) : IsoCall :=
  { onInput base rest window with stopped := ended }

section Requests

variable (strtod : Text → Option UInt64) (base : IsoCall)

/-- The meaning of a request in front of an input: the answer, what is left unread, and whether the
program is ended. -/
structure Heard (kind : InputKind) (input : Text) (answer : Option Delivered) (rest : Text)
    (ended : Bool) : Prop where
  shown : Listener.perform strtod (onInput base input (windowOf input)) ⟨kind, true⟩ =
    (answer, leaving base rest (windowOf rest) ended)
  unfilled : Listener.perform strtod (onInput base input .uninit) ⟨kind, true⟩ =
    (answer, leaving base rest (windowOf rest) ended)
  stale : ∀ window, window ≠ .uninit → Judged kind window (windowOf input) →
    ∃ after, Listener.perform strtod (onInput base input window) ⟨kind, true⟩ =
      (answer, leaving base rest after ended)
  bare : ∀ window, (kind = .char → input.head? ≠ some '\n') →
    ∃ after, Listener.perform strtod (onInput base input window) ⟨kind, false⟩ =
      (answer, leaving base rest after ended)

/-- The window after the file has been looked at. -/
def primed (input : Text) (window : Window) : Window :=
  if window = .uninit then windowOf input else window

theorem primed_of_ne {input : Text} {window : Window} (filled : window ≠ .uninit) :
    primed input window = window :=
  if_neg filled

theorem primed_windowOf (input : Text) : primed input (windowOf input) = windowOf input :=
  primed_of_ne (windowOf_ne_uninit input)

theorem plangEofFile_onInput (input : Text) (window : Window) :
    (onInput base input window).plangEofFile =
      (some (.flag (decide (primed input window = .eof))),
        onInput base input (primed input window)) := by
  have readable : (onInput base input window).file.readable.nonzero = true := rfl
  rw [plangEofFile, abortIfClosed_onInput, orStop_onInput, if_neg (not_not_intro readable)]
  simp only [ensurePrimed_onInput, buf_onInput]
  rfl

theorem heard_eof (input : Text) :
    Heard strtod base .eof input (some (.flag (decide (windowOf input = .eof)))) input false where
  shown := by
    rw [Listener.perform]
    simp only [plangEofFile_onInput, primed_windowOf]
    rfl
  unfilled := plangEofFile_onInput base input .uninit
  stale := by
    intro window filled judged
    refine ⟨window, ?_⟩
    rw [Listener.perform]
    simp only [plangEofFile_onInput, primed_of_ne filled, decide_eq_decide.mpr judged]
    rfl
  bare := by
    intro window _
    exact ⟨window, by cases input <;> rfl⟩

theorem plangEolnFile_onInput (input : Text) (window : Window) :
    (onInput base input window).plangEolnFile =
      (some (.flag (decide (primed input window = .eof ∨ primed input window = .char '\n'))),
        onInput base input (primed input window)) := by
  rw [plangEolnFile, abortIfClosed_onInput, orStop_onInput]
  simp only [ensurePrimed_onInput, buf_onInput]
  rfl

theorem heard_eoln (input : Text) :
    Heard strtod base .eoln input
      (some (.flag (decide (windowOf input = .eof ∨ windowOf input = .char '\n')))) input
      false where
  shown := by
    rw [Listener.perform]
    simp only [plangEolnFile_onInput, primed_windowOf]
    rfl
  unfilled := plangEolnFile_onInput base input .uninit
  stale := by
    intro window filled judged
    refine ⟨window, ?_⟩
    rw [Listener.perform]
    simp only [plangEolnFile_onInput, primed_of_ne filled, decide_eq_decide.mpr judged]
    rfl
  bare := by
    intro window _
    refine ⟨window, ?_⟩
    cases input with
    | nil => rfl
    | cons c rest =>
        simp only [Listener.perform, plangEolnStdin, plangInCh_onInput, List.head?_cons,
          List.tail_cons, plangInUnget_onInput, Option.toList_some, windowOf, reduceCtorEq,
          Option.some.injEq, Window.char.injEq]
        rfl

/-- A character that was read; past the end it is zero. -/
def charOf : Text → Char
  | [] => '\x00'
  | c :: _ => if c = '\n' then ' ' else c

theorem plangReadFileChar_onInput {input : Text} (window : Window)
    (judged : primed input window = .eof ↔ windowOf input = .eof) :
    (onInput base input window).plangReadFileChar =
      (some (.char (charOf input)),
        onInput base input.tail
          (if input = [] then primed input window else windowOf input.tail)) := by
  rw [plangReadFileChar, abortIfClosed_onInput, orStop_onInput, trapOnWrongDirection_onInput,
    orStop_onInput]
  simp only [ensurePrimed_onInput, buf_onInput]
  cases input with
  | nil =>
      have closed : (if window = .uninit then windowOf [] else window) = .eof := judged.mpr rfl
      rw [if_pos closed]
      rfl
  | cons c rest =>
      have open_window : (if window = .uninit then windowOf (c :: rest) else window) ≠ .eof :=
        fun closed => Window.noConfusion (judged.mp closed)
      rw [if_neg open_window]
      simp only [advance_onInput, List.head?_cons, List.tail_cons, Option.some.injEq,
        Option.getD_some]
      rfl

theorem heard_char (input : Text) :
    Heard strtod base .char input (some (.char (charOf input))) input.tail false where
  shown := by
    rw [Listener.perform]
    simp only [plangReadFileChar_onInput base (windowOf input) (by rw [primed_windowOf]),
      primed_windowOf]
    cases input <;> rfl
  unfilled := by
    rw [Listener.perform]
    simp only [plangReadFileChar_onInput base .uninit Iff.rfl]
    cases input <;> rfl
  stale := by
    intro window filled judged
    rw [Listener.perform]
    simp only [plangReadFileChar_onInput base window (by rwa [primed_of_ne filled])]
    exact ⟨_, rfl⟩
  bare := by
    intro window inside
    refine ⟨window, ?_⟩
    cases input with
    | nil => rfl
    | cons c rest =>
        have visible : c ≠ '\n' := fun marker => inside rfl (congrArg some marker)
        rw [Listener.perform]
        simp only [plangReadChar, plangInCh_onInput, List.head?_cons, List.tail_cons,
          Option.getD_some, charOf, if_neg visible]
        rfl

/-! ### Numbers -/

/-- One scan in the file says what every scan without it finds. -/
theorem scanNumber_eq (input : Text) (real : Bool) :
    ∃ sawAny token rest,
      (onInput base input (windowOf input)).scanNumberFile real =
        (sawAny, token, onInput base rest (windowOf rest)) ∧
      ∀ window, (onInput base input window).scanNumber real =
        (sawAny, token, onInput base rest window) := by
  obtain ⟨sawAny, token, rest, -, scan⟩ := scanNumber_beside base input .eof real
  refine ⟨sawAny, token, rest, scan, fun window => ?_⟩
  obtain ⟨saw, found, left, bare, same⟩ := scanNumber_beside base input window real
  obtain ⟨rfl, tail⟩ := Prod.mk.inj (scan.symm.trans same)
  obtain ⟨rfl, after⟩ := Prod.mk.inj tail
  have unread : rest = left := congrArg (fun c : IsoCall => c.libc.input) after
  rw [bare, unread]

theorem readFileNumber_onInput (input : Text) (window : Window) (real : Bool)
    (parse : Bool → Text → Delivered) {sawAny : Bool} {token rest : Text} {after : Window}
    (scan : (onInput base input window).scanNumberFile real =
      (sawAny, token, onInput base rest after)) :
    (onInput base input window).readFileNumber real parse =
      (some (parse sawAny token), leaving base rest after (parse sawAny token).isReport) := by
  rw [readFileNumber, abortIfClosed_onInput, orStop_onInput, trapOnWrongDirection_onInput,
    orStop_onInput, scan]
  simp only [orStop_onInput, unloadComponent_onInput, settle]
  cases (parse sawAny token).isReport <;> rfl

theorem settle_onInput (rest : Text) (after : Window) (answer : Delivered) :
    (onInput base rest after).settle answer =
      (some answer, leaving base rest after answer.isReport) := by
  rw [settle]
  cases answer.isReport <;> rfl

/-- The readers of integers and of real numbers. -/
theorem heard_number {kind : InputKind} {real : Bool} {parse : Bool → Text → Delivered}
    (named : ∀ c, Listener.perform strtod c ⟨kind, true⟩ = c.readFileNumber real parse)
    (unnamed : ∀ c, Listener.perform strtod c ⟨kind, false⟩ =
      (c.scanNumber real).2.2.settle (parse (c.scanNumber real).1 (c.scanNumber real).2.1))
    (judges : ∀ window next, Judged kind window next →
      numberSight real window = numberSight real next) (input : Text) :
    ∃ answer rest ended, Heard strtod base kind input answer rest ended := by
  obtain ⟨sawAny, token, rest, scan, bare⟩ := scanNumber_eq base input real
  refine ⟨some (parse sawAny token), rest, (parse sawAny token).isReport, ?_⟩
  exact
    { shown := (named _).trans (readFileNumber_onInput base input _ real parse scan)
      unfilled := (named _).trans (readFileNumber_onInput base input _ real parse
        ((scanNumberFile_uninit base input real).trans scan))
      stale := by
        intro window filled judged
        obtain ⟨saw, found, after⟩ :=
          scanNumberFile_stale base input filled real (judges _ _ judged)
        simp only [scan] at saw found after
        obtain ⟨last, left⟩ := after.onInput
        refine ⟨last, (named _).trans (readFileNumber_onInput base input window real parse ?_)⟩
        exact Prod.ext saw (Prod.ext found left)
      bare := by
        intro window _
        refine ⟨window, ?_⟩
        rw [unnamed, bare, settle_onInput] }

theorem heard_integer (input : Text) :
    ∃ answer rest ended, Heard strtod base .integer input answer rest ended :=
  @heard_number strtod base .integer false parseInteger (fun _ => rfl) (fun _ => rfl)
    (fun _ _ judged => judged) input

theorem heard_real (input : Text) :
    ∃ answer rest ended, Heard strtod base .real input answer rest ended :=
  @heard_number strtod base .real true (parseReal strtod) (fun _ => rfl) (fun _ => rfl)
    (fun _ _ judged => judged) input

/-! ### Lines -/

/-- The end of a `readln`: at the marker, or where the file ends. -/
def passMarker (c : IsoCall) : IsoCall :=
  if c.file.buf = .char '\n' then c.shared fun call => call.advance.2 else c

theorem plangReadlnFile_onInput (input : Text) (window : Window) :
    (onInput base input window).plangReadlnFile =
      (passMarker ((windowScanner id).takeWhile inLine (input.length + 1)
        (onInput base input (primed input window))).2).shared Call.unloadComponent := by
  rw [plangReadlnFile, abortIfClosed_onInput, andThen_onInput]
  simp only [ensurePrimed_onInput]
  rfl

/-- The line without the file ends where it ends in the file. -/
theorem line_beside (input : Text) (window : Window) :
    ∃ rest, (onInput base input window).plangReadln = onInput base rest window ∧
      passMarker ((windowScanner id).takeWhile inLine (input.length + 1)
        (onInput base input (windowOf input))).2 = onInput base rest (windowOf rest) := by
  have simulates := @simulates_beside base window _ calm_id (fun c => c != '\n') inLine rfl
    fun _ => rfl
  have ends := keep_inputScanner (fun c => c != '\n') (onInput base input window)
  obtain ⟨-, rest, left, right, empty⟩ := Lookahead.Agree.takeWhile simulates (input.length + 1)
    (beside_plangInCh base input window)
  refine ⟨rest, left, ?_⟩
  rw [right]
  change Option.any _ (inputScanner.takeWhile _ (input.length + 1) _).2.1 = false at ends
  generalize (inputScanner.takeWhile (Option.any fun c => c != '\n') (input.length + 1)
    (onInput base input window).plangInCh).2.1 = last at *
  cases last with
  | none =>
      rw [empty rfl]
      rfl
  | some char =>
      have marker : char = '\n' := by simpa using ends
      have shown : windowOf (['\n'] ++ rest) = .char '\n' := rfl
      rw [marker, passMarker, Option.toList_some, buf_onInput, if_pos shown]
      cases rest <;> rfl

theorem plangReadln_eq (input : Text) :
    ∃ rest, (∀ window, (onInput base input window).plangReadln = onInput base rest window) ∧
      passMarker ((windowScanner id).takeWhile inLine (input.length + 1)
        (onInput base input (windowOf input))).2 = onInput base rest (windowOf rest) := by
  obtain ⟨rest, -, line⟩ := line_beside base input .eof
  refine ⟨rest, fun window => ?_, line⟩
  obtain ⟨left, bare, same⟩ := line_beside base input window
  have unread : rest = left :=
    congrArg (fun c : IsoCall => c.libc.input) (line.symm.trans same)
  rw [bare, unread]

/-- The tests that `readln` makes on a window. -/
def lineSight (window : Window) : Bool × Bool :=
  (decide (window = .eof), decide (window = .char '\n'))

theorem inLine_eq (window : Window) :
    inLine window = !((lineSight window).1 || (lineSight window).2) := by
  cases window with
  | uninit => rfl
  | eof => rfl
  | char c => simp [inLine, lineSight, bne, beq_eq_decide]

/-- A line ends alike where a window that shows something else is judged alike. -/
theorem line_stale {input rest : Text} {window : Window}
    (same : lineSight window = lineSight (windowOf input))
    (line : passMarker ((windowScanner id).takeWhile inLine (input.length + 1)
      (onInput base input (windowOf input))).2 = onInput base rest (windowOf rest)) :
    ∃ after, passMarker ((windowScanner id).takeWhile inLine (input.length + 1)
      (onInput base input window)).2 = onInput base rest after := by
  have simulates := @simulates_stale base input window _ lineSight _ calm_id inLine
    fun sight other judged => by rw [inLine_eq, inLine_eq, judged]
  obtain ⟨-, stale⟩ := Lookahead.Agree.takeWhile simulates (input.length + 1)
    (.inr ⟨rfl, rfl, same⟩)
  obtain equal | ⟨left, right, -⟩ := stale
  · exact ⟨_, (congrArg passMarker equal).trans line⟩
  · rw [right] at line
    rw [left]
    have marker : window = .char '\n' ↔ windowOf input = .char '\n' :=
      decide_eq_decide.mp (congrArg Prod.snd same)
    rw [passMarker, buf_onInput] at line ⊢
    by_cases shown : windowOf input = .char '\n'
    · rw [if_pos shown] at line
      rw [if_pos (marker.mpr shown)]
      refine ⟨windowOf rest, ?_⟩
      rw [← line, shared, shared, advance_onInput, advance_onInput]
      rfl
    · rw [if_neg shown] at line
      rw [if_neg fun stands => shown (marker.mp stands)]
      have unread : input = rest := congrArg (fun c : IsoCall => c.libc.input) line
      rw [unread]
      exact ⟨window, rfl⟩

theorem heard_readln (input : Text) :
    ∃ rest, Heard strtod base .readln input none rest false := by
  obtain ⟨rest, bare, line⟩ := plangReadln_eq base input
  refine ⟨rest, ?_⟩
  exact
    { shown := by
        rw [Listener.perform]
        simp only [plangReadlnFile_onInput, primed_windowOf, line]
        rfl
      unfilled := by
        rw [Listener.perform]
        simp only [plangReadlnFile_onInput, primed, if_true, line]
        rfl
      stale := by
        intro window filled judged
        have same : lineSight window = lineSight (windowOf input) :=
          Prod.ext (decide_eq_decide.mpr judged.1) (decide_eq_decide.mpr judged.2)
        obtain ⟨after, stale⟩ := line_stale base same line
        refine ⟨after, ?_⟩
        rw [Listener.perform]
        simp only [plangReadlnFile_onInput, primed_of_ne filled, stale]
        rfl
      bare := by
        intro window _
        refine ⟨window, ?_⟩
        rw [Listener.perform]
        simp only [bare]
        rfl }

/-- Every request means something in front of every input. -/
theorem heard (kind : InputKind) (input : Text) :
    ∃ answer rest ended, Heard strtod base kind input answer rest ended := by
  cases kind with
  | char => exact ⟨_, _, _, heard_char strtod base input⟩
  | integer => exact heard_integer strtod base input
  | real => exact heard_real strtod base input
  | readln =>
      obtain ⟨rest, heard⟩ := heard_readln strtod base input
      exact ⟨_, _, _, heard⟩
  | eof => exact ⟨_, _, _, heard_eof strtod base input⟩
  | eoln => exact ⟨_, _, _, heard_eoln strtod base input⟩

end Requests

/-! ## Programs -/

/-- Two programs that have read the same: the same is left unread, and both go on or have ended. -/
structure Agreeing (base : IsoCall) (mixed explicit : Listener) : Prop where
  delivered : mixed.delivered = explicit.delivered
  unread : ∃ input window ended, mixed.call = leaving base input window ended ∧
    (explicit.call = leaving base input (windowOf input) ended ∨
      explicit.call = leaving base input .uninit ended)

namespace Listener

variable (strtod : Text → Option UInt64)

/-- A program and the one that names the file throughout take a step each. -/
def stepBoth (both : Listener × Listener) (op : InputOp) : Listener × Listener :=
  (step strtod both.1 op, step strtod both.2 op.explicit)

theorem step_leaving {base : IsoCall} {input rest : Text} {window after : Window}
    {given : List Delivered} {op : InputOp} {answer : Option Delivered} {ended : Bool}
    (performed : perform strtod (onInput base input window) op =
      (answer, leaving base rest after ended)) :
    step strtod ⟨leaving base input window false, given⟩ op =
      ⟨leaving base rest after ended, given ++ answer.toList⟩ := by
  have running : ¬(leaving base input window false).stopped = true := Bool.false_ne_true
  rw [step, if_neg running, show leaving base input window false = onInput base input window from rfl,
    performed]

theorem step_ended {base : IsoCall} {input : Text} {window : Window} {given : List Delivered}
    (op : InputOp) :
    step strtod ⟨leaving base input window true, given⟩ op =
      ⟨leaving base input window true, given⟩ :=
  if_pos rfl

/-- A safe request is answered as its explicit form is. -/
theorem perform_of_safe {base : IsoCall} {input : Text} {window : Window} {op : InputOp}
    (safe : op.Safe (onInput base input window)) {answer : Option Delivered} {rest : Text}
    {ended : Bool} (heard : Heard strtod base op.kind input answer rest ended) :
    ∃ after, perform strtod (onInput base input window) op =
      (answer, leaving base rest after ended) := by
  obtain ⟨kind, named⟩ := op
  cases named with
  | false => exact heard.bare window safe
  | true =>
      by_cases filled : window = .uninit
      · rw [filled]
        exact ⟨_, heard.unfilled⟩
      · exact heard.stale window filled (safe.resolve_left filled)

theorem agreeing_step {base : IsoCall} {both : Listener × Listener}
    (agreeing : Agreeing base both.1 both.2) {op : InputOp} (safe : op.Safe both.1.call) :
    Agreeing base (stepBoth strtod both op).1 (stepBoth strtod both op).2 := by
  obtain ⟨⟨mixed, given⟩, ⟨explicit, given_explicit⟩⟩ := both
  obtain ⟨same, input, window, ended, mixed_eq, explicit_eq⟩ := agreeing
  simp only at same mixed_eq explicit_eq safe
  subst same mixed_eq
  cases ended with
  | true =>
      rw [stepBoth]
      obtain rfl | rfl := explicit_eq
      · rw [step_ended, step_ended]
        exact ⟨rfl, input, window, true, rfl, .inl rfl⟩
      · rw [step_ended, step_ended]
        exact ⟨rfl, input, window, true, rfl, .inr rfl⟩
  | false =>
      obtain ⟨answer, rest, ends, heard⟩ := heard strtod base op.kind input
      obtain ⟨after, performed⟩ := perform_of_safe strtod safe heard
      show Agreeing base (step strtod ⟨leaving base input window false, given⟩ op)
        (step strtod ⟨explicit, given⟩ op.explicit)
      rw [step_leaving strtod performed]
      obtain rfl | rfl := explicit_eq
      · have shown : perform strtod (onInput base input (windowOf input)) op.explicit = _ :=
          heard.shown
        rw [step_leaving strtod shown]
        exact ⟨rfl, rest, after, ends, rfl, .inl rfl⟩
      · have unfilled : perform strtod (onInput base input .uninit) op.explicit = _ :=
          heard.unfilled
        rw [step_leaving strtod unfilled]
        exact ⟨rfl, rest, after, ends, rfl, .inl rfl⟩

theorem run_stepBoth (both : Listener × Listener) (ops : List InputOp) :
    run (stepBoth strtod) both ops =
      (run (step strtod) both.1 ops, run (step strtod) both.2 (ops.map InputOp.explicit)) := by
  induction ops generalizing both with
  | nil => rfl
  | cons op ops induction => rw [run_cons, induction]; rfl

theorem along_stepBoth {both : Listener × Listener} {ops : List InputOp}
    {condition : Listener → InputOp → Prop} (along : Along (step strtod) condition both.1 ops) :
    Along (stepBoth strtod) (fun both op => condition both.1 op) both ops := by
  induction ops generalizing both with
  | nil => trivial
  | cons op ops induction => exact ⟨along.1, induction along.2⟩

/-- A program that starts to read. -/
def listening (base : IsoCall) (input : Text) : Listener := ⟨onInput base input .uninit, []⟩

/-- A program whose requests are all safe is given what it would be given with the file named
throughout, and as much is left unread, at every moment. -/
theorem reads_as_explicit (base : IsoCall) (input : Text) {ops : List InputOp}
    (safe : Along (step strtod) (fun listener op => op.Safe listener.call) (listening base input)
      ops) (before after : List InputOp) (split : ops = before ++ after) :
    let mixed := run (step strtod) (listening base input) before
    let explicit := run (step strtod) (listening base input) (before.map InputOp.explicit)
    mixed.delivered = explicit.delivered ∧
      mixed.call.libc.input = explicit.call.libc.input ∧
      mixed.call.stopped = explicit.call.stopped := by
  have start : Agreeing base (listening base input) (listening base input) :=
    ⟨rfl, input, .uninit, false, rfl, .inr rfl⟩
  have along := @along_stepBoth strtod (listening base input, listening base input) ops
    (fun listener op => op.Safe listener.call) safe
  have always := @always_of_along _ _ (stepBoth strtod)
    (fun both op => op.Safe both.1.call) (fun both => Agreeing base both.1 both.2)
    (fun _ _ agreeing safe => agreeing_step strtod agreeing safe)
    (listening base input, listening base input) ops start along
  have agreeing := always before after split
  rw [run_stepBoth] at agreeing
  obtain ⟨delivered, unread, window, ended, mixed, explicit⟩ := agreeing
  simp only at mixed explicit
  refine ⟨delivered, ?_, ?_⟩
  · obtain shown | unfilled := explicit
    · rw [mixed, shown]
      rfl
    · rw [mixed, unfilled]
      rfl
  · obtain shown | unfilled := explicit
    · rw [mixed, shown]
      rfl
    · rw [mixed, unfilled]
      rfl

theorem reads_as_explicit_peek :
    let ops : List InputOp := [⟨.char, false⟩, ⟨.eof, true⟩]
    (run (step fun _ => none) (listening .started ['a']) ops).delivered =
      (run (step fun _ => none) (listening .started ['a']) (ops.map InputOp.explicit)).delivered := by
  intro ops
  have safe : Along (step fun _ => none) (fun listener op => op.Safe listener.call)
      (listening .started ['a']) ops :=
    ⟨fun _ => by decide, .inl rfl, trivial⟩
  exact (reads_as_explicit (fun _ => none) .started ['a'] safe ops [] (List.append_nil _).symm).1

/-- A character read at a line marker is the marker without the file and a space with it; and the
end that was looked for with the file is not found after a read without it. -/
theorem forms_differ :
    ((run (step fun _ => none) (listening .started ['\n']) [⟨.char, false⟩]).delivered ≠
      (run (step fun _ => none) (listening .started ['\n']) [⟨.char, true⟩]).delivered) ∧
    (run (step fun _ => none) (listening .started ['a'])
        [⟨.eof, true⟩, ⟨.char, false⟩, ⟨.eof, true⟩]).delivered ≠
      (run (step fun _ => none) (listening .started ['a'])
        [⟨.eof, true⟩, ⟨.char, true⟩, ⟨.eof, true⟩]).delivered := by
  decide

end Listener

end Runtime

end Plang
