import Plang.Runtime.InputText

/-!
# Standard input

Standard input as a file and standard input without one are one stream.  Of the file there is also a
window, which a read that names no file does not move.
-/

namespace Plang

namespace Runtime

open Stdio

namespace IsoCall

/-! ## Where the readers end -/

theorem toCall_trapOnStreamError (c : IsoCall) : c.trapOnStreamError.toCall = c.toCall := by
  rw [trapOnStreamError]
  split <;> rfl

/-- Reading on in a file ends where there is nothing more to be kept, not at the bound. -/
theorem keep_windowScanner {keep : Window → Bool} {check : IsoCall → IsoCall}
    (ends : keep .eof = false) (checked : ∀ c, (check c).toCall = c.toCall) (c : IsoCall) :
    keep ((windowScanner check).takeWhile keep c.bound c).2.file.buf = false := by
  have shrinks : ∀ state : IsoCall,
      keep ((windowScanner check).next state).2.file.buf = false ∨
        ((windowScanner check).next state).2.left < state.left := by
    intro state
    rw [windowScanner]
    simp only [checked]
    obtain closed | fewer := state.left_advance
    · exact .inl (by rw [closed, ends])
    · exact .inr fewer
  exact (windowScanner check).keep_takeWhile keep (fun c => c.left) shrinks
    (.inr (Nat.lt_succ_self _))

theorem plangInCh_eq (c : IsoCall) :
    c.plangInCh = (c.libc.input.head?, { c with libc := { c.libc with input := c.libc.input.tail } }) := by
  obtain ⟨⟨⟨entries, contents, next, refuses, faults, outputFault, input, output, errno⟩, file⟩,
    self, writePaths, bindings, stopped⟩ := c
  cases input <;> rfl

/-- Reading on in standard input ends likewise. -/
theorem keep_inputScanner (kind : Char → Bool) (c : IsoCall) :
    Option.any kind
      (inputScanner.takeWhile (Option.any kind) c.inputBound c.plangInCh).2.1 = false := by
  have shrinks : ∀ state : Option Char × IsoCall,
      Option.any kind (inputScanner.next state).2.1 = false ∨
        (inputScanner.next state).2.2.libc.input.length < state.2.libc.input.length := by
    intro state
    rw [inputScanner]
    simp only [plangInCh_eq]
    cases state.2.libc.input with
    | nil => exact .inl rfl
    | cons char rest => exact .inr (Nat.lt_succ_self _)
  apply inputScanner.keep_takeWhile _ (fun state => state.2.libc.input.length) shrinks
  right
  rw [plangInCh_eq]
  exact Nat.lt_succ_of_le (by simp)

/-! ## The file on standard input -/

/-- The file of standard input, with what is unread and what its window holds. -/
def onInput (base : IsoCall) (input : Text) (window : Window) : IsoCall :=
  { base with
    libc := { base.libc with input }
    file := { base.file with
      fp := some .stdin, binding := .std, readable := .read, buf := window, compLoaded := false }
    stopped := false }

/-- The window that shows the next character. -/
def windowOf : Text → Window
  | [] => .eof
  | c :: _ => .char c

variable (base : IsoCall) (input : Text) (window : Window)

@[simp] theorem buf_onInput : (onInput base input window).file.buf = window := rfl

@[simp] theorem input_onInput : (onInput base input window).libc.input = input := rfl

@[simp] theorem left_onInput : (onInput base input window).left = input.length := rfl

@[simp] theorem clearerr_onInput :
    (onInput base input window).shared Call.clearerr = onInput base input window := rfl

@[simp] theorem abortIfClosed_onInput :
    (onInput base input window).abortIfClosed = onInput base input window := rfl

@[simp] theorem trapOnWrongDirection_onInput :
    (onInput base input window).trapOnWrongDirection false = onInput base input window := rfl

@[simp] theorem trapOnStreamError_onInput :
    (onInput base input window).trapOnStreamError = onInput base input window := rfl

@[simp] theorem unloadComponent_onInput :
    (onInput base input window).shared Call.unloadComponent = onInput base input window := rfl

@[simp] theorem orStop_onInput (next : IsoCall → Option Delivered × IsoCall) :
    (onInput base input window).orStop next = next (onInput base input window) := rfl

@[simp] theorem andThen_onInput (next : IsoCall → IsoCall) :
    (onInput base input window).andThen next = next (onInput base input window) := rfl

@[simp] theorem prime_onInput :
    (onInput base input window).shared Call.prime = onInput base input (windowOf input) := by
  cases input <;> rfl

@[simp] theorem advance_onInput :
    (onInput base input window).advance =
      (input.head?, (onInput base input.tail (windowOf input.tail)).toCall) := by
  rcases input with _ | ⟨c, _ | ⟨d, rest⟩⟩ <;> rfl

@[simp] theorem ensurePrimed_onInput :
    (onInput base input window).shared Call.ensurePrimed =
      onInput base input (if window = .uninit then windowOf input else window) := by
  cases window
  case uninit => cases input <;> rfl
  case eof => rfl
  case char => rfl

@[simp] theorem plangInCh_onInput :
    (onInput base input window).plangInCh = (input.head?, onInput base input.tail window) := by
  cases input <;> rfl

@[simp] theorem plangInUnget_onInput (char : Option Char) :
    (onInput base input window).plangInUnget char = onInput base (char.toList ++ input) window := by
  cases char <;> rfl

@[simp] theorem look_windowScanner (check : IsoCall → IsoCall) :
    (windowScanner check).look (onInput base input window) = window := rfl

/-- A check that finds nothing wrong with standard input. -/
def Calm (check : IsoCall → IsoCall) : Prop :=
  ∀ base input window, check (onInput base input window) = onInput base input window

theorem calm_id : Calm id := fun _ _ _ => rfl

theorem calm_trapOnStreamError : Calm trapOnStreamError := trapOnStreamError_onInput

theorem next_windowScanner {check : IsoCall → IsoCall} (calm : Calm check) :
    (windowScanner check).next (onInput base input window) =
      (input.head?.getD '\xff', onInput base input.tail (windowOf input.tail)) := by
  rw [windowScanner]
  simp only [advance_onInput, Prod.mk.injEq, true_and]
  exact calm base input.tail (windowOf input.tail)

theorem windowOf_ne_uninit : windowOf input ≠ .uninit := by
  cases input <;> exact Window.noConfusion

/-! ## With and without the file -/

/-- Two scanners stand side by side where the window shows the next character; the one without a
file has already taken it. -/
def Beside (base : IsoCall) (window : Window) (state : Option Char × IsoCall) (c : IsoCall) : Prop :=
  ∃ input, state.2 = onInput base input window ∧
    c = onInput base (state.1.toList ++ input) (windowOf (state.1.toList ++ input)) ∧
    (state.1 = none → input = [])

theorem beside_plangInCh :
    Beside base window (onInput base input window).plangInCh
      (onInput base input (windowOf input)) :=
  ⟨input.tail, by simp, by cases input <;> simp, by cases input <;> simp⟩

theorem simulates_beside {check : IsoCall → IsoCall} (calm : Calm check) {kind : Char → Bool}
    {keep : Window → Bool} (ended : keep .eof = false) (kept : ∀ c, keep (.char c) = kind c) :
    Lookahead.Simulates inputScanner (windowScanner check) (Beside base window)
      (Option.any kind) keep where
  look := by
    rintro ⟨_ | char, _⟩ _ ⟨rest, rfl, rfl, empty⟩
    · rw [empty rfl]
      exact ended.symm
    · exact (kept char).symm
  char := by
    rintro ⟨_ | char, _⟩ _ ⟨rest, rfl, rfl, empty⟩ wanted
    · cases wanted
    · simp [inputScanner, next_windowScanner _ _ _ calm]
  next := by
    rintro ⟨_ | char, _⟩ _ ⟨rest, rfl, rfl, empty⟩ wanted
    · cases wanted
    · refine ⟨rest.tail, ?_, ?_, ?_⟩
      · simp [inputScanner]
      · cases rest <;> simp [inputScanner, next_windowScanner _ _ _ calm]
      · cases rest <;> simp [inputScanner]

/-- There is something in sight without a file where the window does not show the end. -/
theorem Beside.isSome {base : IsoCall} {window : Window} {state : Option Char × IsoCall}
    {c : IsoCall} (beside : Beside base window state c) :
    state.1.isSome = decide (c.file.buf ≠ .eof) := by
  obtain ⟨_ | char, _⟩ := state
  · obtain ⟨rest, -, rfl, empty⟩ := beside
    rw [empty rfl]
    rfl
  · obtain ⟨rest, -, rfl, -⟩ := beside
    rfl

/-! ## A window that shows something else -/

/-- A window that shows something else stands for the next character as long as nothing has been
consumed and it is judged like that. -/
def Stale {κ : Type} (judge : Window → κ) (base : IsoCall) (input : Text) (window : Window)
    (state other : IsoCall) : Prop :=
  state = other ∨ state = onInput base input window ∧
    other = onInput base input (windowOf input) ∧ judge window = judge (windowOf input)

theorem simulates_stale {κ : Type} {judge : Window → κ} {check : IsoCall → IsoCall}
    (calm : Calm check) {keep : Window → Bool}
    (judges : ∀ sight other, judge sight = judge other → keep sight = keep other) :
    Lookahead.Simulates (windowScanner check) (windowScanner check)
      (Stale judge base input window) keep keep := by
  refine Lookahead.simulates_of_alike (fun _ => .inl rfl) ?_ judges
  rintro state other (rfl | ⟨rfl, rfl, same⟩)
  · exact .inl rfl
  · refine .inr ⟨?_, same⟩
    rw [next_windowScanner _ _ _ calm, next_windowScanner _ _ _ calm]

/-- What is unread does not depend on the window. -/
theorem Stale.onInput {κ : Type} {judge : Window → κ} {base : IsoCall} {input rest : Text}
    {window : Window} {state : IsoCall}
    (stale : Stale judge base input window state (onInput base rest (windowOf rest))) :
    ∃ after, state = IsoCall.onInput base rest after := by
  obtain rfl | ⟨rfl, same, -⟩ := stale
  · exact ⟨_, rfl⟩
  · have unread : rest = input := congrArg (fun c : IsoCall => c.libc.input) same
    rw [unread]
    exact ⟨_, rfl⟩

/-! ## Numbers -/

/-- Numbers are collected alike where the two sides judge the characters of a number alike. -/
theorem agree_takeNumber {σ τ ω υ : Type} {first : Lookahead σ ω Char} {second : Lookahead τ υ Char}
    {rel : σ → τ → Prop} {holds : (Char → Bool) → ω → Bool} {holding : (Char → Bool) → υ → Bool}
    (real : Bool)
    (simulates : ∀ kind, kind = isSign ∨ kind = Char.isDigit ∨
      real = true ∧ (kind = isPoint ∨ kind = isExponent) →
      Lookahead.Simulates first second rel (holds kind) (holding kind)) (fuel : Nat) :
    Lookahead.Agree rel (takeNumber first holds fuel real) (takeNumber second holding fuel real) := by
  have sign := simulates isSign (.inl rfl)
  have digit := simulates Char.isDigit (.inr (.inl rfl))
  have signed := (Lookahead.Agree.takeIf sign).append (.takeWhile digit fuel)
  cases real with
  | false => exact signed
  | true =>
      have point := simulates isPoint (.inr (.inr ⟨rfl, .inl rfl⟩))
      have exponent := simulates isExponent (.inr (.inr ⟨rfl, .inr rfl⟩))
      have fraction := Lookahead.Agree.takeThen point (.takeWhile digit fuel)
      exact signed.append (fraction.append ((Lookahead.Agree.takeThen exponent signed).noting _))

theorem skipBlanksFile_onInput {window : Window} (primed : window ≠ .uninit) :
    (onInput base input window).skipBlanksFile =
      ((windowScanner trapOnStreamError).takeWhile (holdsChar isBlank) (input.length + 1)
        (onInput base input window)).2 := by
  rw [skipBlanksFile, buf_onInput, if_neg primed]
  rfl

/-- Without a file a number is what it is in the file, where the window shows the next character. -/
theorem scanNumber_beside (real : Bool) :
    ∃ sawAny token rest,
      (onInput base input window).scanNumber real =
        (sawAny, token, onInput base rest window) ∧
      (onInput base input (windowOf input)).scanNumberFile real =
        (sawAny, token, onInput base rest (windowOf rest)) := by
  have simulates (kind : Char → Bool) :=
    @simulates_beside base window _ calm_trapOnStreamError kind (holdsChar kind) rfl fun _ => rfl
  have blanks : Beside base window (onInput base input window).skipBlanks
      (onInput base input (windowOf input)).skipBlanksFile := by
    rw [skipBlanksFile_onInput base input (windowOf_ne_uninit input)]
    exact (Lookahead.Agree.takeWhile (simulates isBlank) _ (beside_plangInCh base input window)).2
  obtain ⟨token, after⟩ := agree_takeNumber real
    (fun kind _ => simulates kind) (input.length + 1) blanks
  have scan : (onInput base input window).scanNumber real =
      ((onInput base input window).skipBlanks.1.isSome,
        (takeNumber inputScanner Option.any (input.length + 1) real
          (onInput base input window).skipBlanks).1,
        (takeNumber inputScanner Option.any (input.length + 1) real
          (onInput base input window).skipBlanks).2.2.plangInUnget
          (takeNumber inputScanner Option.any (input.length + 1) real
            (onInput base input window).skipBlanks).2.1) := rfl
  have scanFile : (onInput base input (windowOf input)).scanNumberFile real =
      (decide ((onInput base input (windowOf input)).skipBlanksFile.file.buf ≠ .eof),
        takeNumber (windowScanner trapOnStreamError) holdsChar (input.length + 1) real
          (onInput base input (windowOf input)).skipBlanksFile) := rfl
  obtain ⟨rest, bare, file, -⟩ := after
  rw [scan, scanFile, blanks.isSome, token, bare, plangInUnget_onInput]
  exact ⟨_, _, _, rfl, congrArg _ (Prod.ext rfl file)⟩

/-- The tests that the reader of a number makes on a window. -/
structure NumberSight where
  ended : Bool
  blank : Bool
  sign : Bool
  digit : Bool
  point : Bool
  exponent : Bool
  deriving DecidableEq

/-- Only for a real number a point and an exponent matter. -/
def numberSight (real : Bool) (window : Window) : NumberSight where
  ended := decide (window = .eof)
  blank := holdsChar isBlank window
  sign := holdsChar isSign window
  digit := holdsChar Char.isDigit window
  point := real && holdsChar isPoint window
  exponent := real && holdsChar isExponent window

/-- A number is read alike where a window that shows something else is judged alike. -/
theorem scanNumberFile_stale {window : Window} (primed : window ≠ .uninit) (real : Bool)
    (same : numberSight real window = numberSight real (windowOf input)) :
    let state := (onInput base input window).scanNumberFile real
    let other := (onInput base input (windowOf input)).scanNumberFile real
    state.1 = other.1 ∧ state.2.1 = other.2.1 ∧
      Stale (numberSight real) base input window state.2.2 other.2.2 := by
  have start : Stale (numberSight real) base input window (onInput base input window)
      (onInput base input (windowOf input)) :=
    .inr ⟨rfl, rfl, same⟩
  have blanks : Stale (numberSight real) base input window
      (onInput base input window).skipBlanksFile
      (onInput base input (windowOf input)).skipBlanksFile := by
    rw [skipBlanksFile_onInput base input primed,
      skipBlanksFile_onInput base input (windowOf_ne_uninit input)]
    refine (Lookahead.Agree.takeWhile
      (simulates_stale base input window calm_trapOnStreamError ?_) _ start).2
    exact fun _ _ judged => congrArg NumberSight.blank judged
  have simulates : ∀ kind, kind = isSign ∨ kind = Char.isDigit ∨
      real = true ∧ (kind = isPoint ∨ kind = isExponent) →
      Lookahead.Simulates (windowScanner trapOnStreamError) (windowScanner trapOnStreamError)
        (Stale (numberSight real) base input window) (holdsChar kind) (holdsChar kind) := by
    rintro kind (rfl | rfl | ⟨rfl, rfl | rfl⟩)
    · exact simulates_stale base input window calm_trapOnStreamError
        fun _ _ judged => congrArg NumberSight.sign judged
    · exact simulates_stale base input window calm_trapOnStreamError
        fun _ _ judged => congrArg NumberSight.digit judged
    · exact simulates_stale base input window calm_trapOnStreamError
        fun _ _ judged => congrArg NumberSight.point judged
    · exact simulates_stale base input window calm_trapOnStreamError
        fun _ _ judged => congrArg NumberSight.exponent judged
  obtain ⟨token, after⟩ := agree_takeNumber real simulates (input.length + 1) blanks
  have something : decide ((onInput base input window).skipBlanksFile.file.buf ≠ .eof) =
      decide ((onInput base input (windowOf input)).skipBlanksFile.file.buf ≠ .eof) := by
    obtain same_state | ⟨left, right, -⟩ := blanks
    · rw [same_state]
    · rw [left, right, buf_onInput, buf_onInput, decide_not, decide_not]
      exact congrArg (fun sight => !NumberSight.ended sight) same
  exact ⟨something, token, after⟩

/-- A window that has not been filled is filled first. -/
theorem scanNumberFile_uninit (real : Bool) :
    (onInput base input .uninit).scanNumberFile real =
      (onInput base input (windowOf input)).scanNumberFile real := by
  have blanks : (onInput base input .uninit).skipBlanksFile =
      (onInput base input (windowOf input)).skipBlanksFile := by
    rw [skipBlanksFile, skipBlanksFile, buf_onInput, buf_onInput, if_pos rfl,
      if_neg (windowOf_ne_uninit input), prime_onInput]
    rfl
  rw [scanNumberFile, scanNumberFile, blanks]
  rfl

end IsoCall

end Runtime

end Plang
