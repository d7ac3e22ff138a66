import Plang.Runtime.IntegerTokens
import Plang.Runtime.TextReading

/-!
# Reading integers in Turbo Pascal

A token is read up to the next blank, from standard input or from a text file, and converted as a
whole.  A token that is not an integer leaves the error 106.
-/

namespace Plang

namespace Runtime

open Stdio

namespace TurboCall

/-! ### Standard input without a file -/

/-- The next character of standard input. -/
def plangInCh (c : TurboCall) : Option Char × TurboCall :=
  let (char, libc, _) := c.libc.fgetc .stdin
  (char, { c with libc })

/-- Give a character back. -/
def plangInUnget (c : TurboCall) : Option Char → TurboCall
  | none => c
  | some char => { c with libc := (c.libc.ungetc .stdin char).1 }

/-- The characters of standard input, the one in sight already taken from it. -/
def inputScanner : Lookahead (Option Char × TurboCall) (Option Char) Char where
  look := fun state => state.1
  next := fun state => (state.1.getD '\xff', state.2.plangInCh)

/-- How many characters there can be. -/
def inputBound (c : TurboCall) : Nat := c.libc.input.length + 1

/-- Skip blanks and line markers; the character behind them has been taken. -/
def skipBlanks (c : TurboCall) : Option Char × TurboCall :=
  (inputScanner.takeWhile (Option.any IsoCall.isBlank) c.inputBound c.plangInCh).2

/-- Part of a token. -/
def inToken (c : Char) : Bool := !IsoCall.isBlank c

/-- The next token, unless the input ends before it. -/
def scanTokenTurbo (c : TurboCall) : Option Text × TurboCall :=
  let start := c.skipBlanks
  let (token, char, after) := inputScanner.takeWhile (Option.any inToken) c.inputBound start
  (if start.1.isNone then none else some (cString token), after.plangInUnget char)

/-- `Read(i)`. -/
def plangReadI64Turbo (c : TurboCall) : Int × TurboCall :=
  let (token, read) := c.scanTokenTurbo
  match token with
  | none => (0, read)
  | some token =>
      match turboInteger token with
      | some value => (value, read)
      | none => (0, read.setInOutResIfClear 106)

/-- These bytes are unread on standard input. -/
def withInput (c : TurboCall) (input : Text) : TurboCall := { c with libc := { c.libc with input } }

theorem plangInCh_withInput (c : TurboCall) (input : Text) :
    (c.withInput input).plangInCh = (input.head?, c.withInput input.tail) := by
  cases input <;> rfl

theorem plangInUnget_withInput (c : TurboCall) (input : Text) :
    (c.withInput input.tail).plangInUnget input.head? = c.withInput input := by
  cases input <;> rfl

/-- Reading on takes what is to be kept, and the character behind it. -/
theorem takeWhile_inputScanner (kind : Char → Bool) (c : TurboCall) {fuel : Nat} {text : Text}
    (enough : text.length < fuel) :
    inputScanner.takeWhile (Option.any kind) fuel (text.head?, c.withInput text.tail) =
      (text.takeWhile kind, (text.dropWhile kind).head?,
        c.withInput (text.dropWhile kind).tail) := by
  induction fuel generalizing text with
  | zero => exact absurd enough (Nat.not_lt_zero _)
  | succ fuel induction =>
      rw [Lookahead.takeWhile, Lookahead.takeThen]
      cases text with
      | nil => rfl
      | cons d rest =>
          have next : (inputScanner.next ((d :: rest).head?, c.withInput rest)).2 =
              (rest.head?, c.withInput rest.tail) := plangInCh_withInput c rest
          by_cases wanted : kind d
          · have more := induction (Nat.lt_of_succ_lt_succ enough)
            rw [List.takeWhile_cons_of_pos wanted, List.dropWhile_cons_of_pos wanted]
            simp only [List.tail_cons, next, more]
            exact if_pos wanted
          · rw [List.takeWhile_cons_of_neg wanted, List.dropWhile_cons_of_neg wanted]
            exact if_neg wanted

variable {c : TurboCall} {text : Text}

theorem skipBlanks_eq (input : c.libc.input = text) :
    c.skipBlanks = ((text.dropWhile IsoCall.isBlank).head?,
      c.withInput (text.dropWhile IsoCall.isBlank).tail) := by
  have same : c = c.withInput text := by
    rw [← input]
    rfl
  rw [skipBlanks, inputBound, input, same, plangInCh_withInput,
    takeWhile_inputScanner _ _ (Nat.lt_succ_self _)]
  rfl

theorem scanTokenTurbo_eq (input : c.libc.input = text) :
    c.scanTokenTurbo =
      (if text.dropWhile IsoCall.isBlank = [] then none
        else some (cString ((text.dropWhile IsoCall.isBlank).takeWhile inToken)),
        c.withInput ((text.dropWhile IsoCall.isBlank).dropWhile inToken)) := by
  have shorter := (List.dropWhile_sublist IsoCall.isBlank (l := text)).length_le
  rw [scanTokenTurbo, skipBlanks_eq input, inputBound, input]
  simp only [takeWhile_inputScanner inToken c (Nat.lt_succ_of_le shorter), plangInUnget_withInput]
  cases text.dropWhile IsoCall.isBlank <;> simp

/-! ### Text files -/

theorem isBlank_char (d : Char) : Window.isBlank true (.char d) = IsoCall.isBlank d := by
  rw [Window.isBlank, IsoCall.isBlank, Bool.true_and, Bool.or_assoc (d == ' ' || d == '\t')]

theorem inToken_char (d : Char) : Window.inToken (.char d) = inToken d := by
  rw [Window.inToken, inToken, IsoCall.isBlank, Bool.not_or, Bool.not_or, Bool.not_or]
  rfl

theorem Ready.scanTokenTurboFile (ready : c.Ready text) :
    (c.scanTokenTurboFile).1 =
      (if text.dropWhile IsoCall.isBlank = [] then none
        else some (cString ((text.dropWhile IsoCall.isBlank).takeWhile inToken))) ∧
      (c.scanTokenTurboFile).2.Ready ((text.dropWhile IsoCall.isBlank).dropWhile inToken) := by
  obtain ⟨primed, shows, moved, filled⟩ := ready.holds.primed
  have start : (if c.file.buf = .uninit then c.shared Call.prime else c) =
      c.shared fun _ => primed := by
    rw [← filled]
    split <;> rfl
  have checked : (c.shared fun _ => primed).checkRead = c.shared fun _ => primed :=
    checkRead_eq shows.toAhead
  obtain ⟨call, blanks, shown, passed⟩ := @readWhile_eq (c.shared fun _ => primed) _
    (Window.isBlank true) IsoCall.isBlank checkRead rfl isBlank_char checkRead_eq shows
  obtain ⟨after, token, left, read⟩ := @readWhile_eq (c.shared fun _ => call) _
    Window.inToken inToken checkRead rfl inToken_char checkRead_eq shown
  have skipped : c.tpSkipBlanksFile = c.shared fun _ => call := by
    rw [tpSkipBlanksFile, start]
    simp only [checked, blanks]
    rfl
  have scanned : c.scanTokenTurboFile =
      (if IsoCall.windowOf (text.dropWhile IsoCall.isBlank) = .eof then none
        else some (cString ((text.dropWhile IsoCall.isBlank).takeWhile inToken)),
        c.shared fun _ => after) := by
    rw [TurboCall.scanTokenTurboFile, skipped]
    simp only [token]
    rw [← shown.buf]
    rfl
  rw [scanned]
  refine ⟨?_, ready.shows left (moved.trans (passed.trans read))⟩
  simp only [windowOf_eq_eof]

/-! ### Tokens -/

/-- Something to be read up to the next blank. -/
structure Token where
  text : Text
  filled : text ≠ []
  visible : ∀ c ∈ text, IsoCall.isBlank c = false

/-- Behind blanks the token is unread, and then a blank or nothing. -/
def Delimited (token : Token) (unread rest : Text) : Prop :=
  ∃ blanks, (∀ c ∈ blanks, IsoCall.isBlank c) ∧ unread = blanks ++ (token.text ++ rest) ∧
    ∀ c ∈ rest.head?, IsoCall.isBlank c

section Delimited

variable {token : Token} {unread rest : Text} (delimited : Delimited token unread rest)
include delimited

theorem Delimited.dropWhile : unread.dropWhile IsoCall.isBlank = token.text ++ rest := by
  obtain ⟨blanks, blank, rfl, -⟩ := delimited
  obtain ⟨d, more, begins⟩ := List.exists_cons_of_ne_nil token.filled
  rw [List.dropWhile_append_of_pos blank, begins, List.cons_append, List.dropWhile_cons_of_neg]
  rw [token.visible d (begins ▸ List.mem_cons_self)]
  exact Bool.false_ne_true

theorem Delimited.inToken_end : rest.takeWhile inToken = [] ∧ rest.dropWhile inToken = rest := by
  obtain ⟨-, -, -, ends⟩ := delimited
  cases rest with
  | nil => exact ⟨rfl, rfl⟩
  | cons d more =>
      have outside : ¬inToken d := by
        rw [inToken, ends d rfl]
        exact Bool.false_ne_true
      exact ⟨List.takeWhile_cons_of_neg outside, List.dropWhile_cons_of_neg outside⟩

theorem Delimited.takeWhile_token :
    (token.text ++ rest).takeWhile inToken = token.text ∧
      (token.text ++ rest).dropWhile inToken = rest := by
  have inside : ∀ d ∈ token.text, inToken d := fun d occurs => by
    rw [inToken, token.visible d occurs]
    rfl
  rw [List.takeWhile_append_of_pos inside, List.dropWhile_append_of_pos inside,
    delimited.inToken_end.1, delimited.inToken_end.2, List.append_nil]
  exact ⟨rfl, rfl⟩

end Delimited

/-- The outcome of reading a token. -/
structure Converts (token : Text) (outcome : Int × TurboCall) : Prop where
  answer : outcome.1 = (turboInteger (cString token)).getD 0
  inOutRes : outcome.2.inOutRes = if (turboInteger (cString token)).isSome then 0 else 106

theorem converts_stdin {token : Token} {rest : Text} (clear : c.inOutRes = 0)
    (delimited : Delimited token c.libc.input rest) :
    Converts token.text c.plangReadI64Turbo := by
  have scan := scanTokenTurbo_eq (c := c) rfl
  rw [delimited.dropWhile, delimited.takeWhile_token.1, delimited.takeWhile_token.2,
    if_neg (by simp [token.filled])] at scan
  have unread : (c.withInput rest).inOutRes = 0 := clear
  rcases read : turboInteger (cString token.text) with _ | v
  · have outcome : c.plangReadI64Turbo = (0, (c.withInput rest).setInOutResIfClear 106) := by
      simp only [plangReadI64Turbo, scan, read]
    rw [outcome, setInOutResIfClear, if_pos unread]
    exact ⟨by rw [read]; rfl, by rw [read]; rfl⟩
  · have outcome : c.plangReadI64Turbo = (v, c.withInput rest) := by
      simp only [plangReadI64Turbo, scan, read]
    rw [outcome]
    exact ⟨by rw [read]; rfl, by rw [read]; exact unread⟩

theorem converts_file {token : Token} {unread rest : Text} (reading : c.TextAhead unread)
    (delimited : Delimited token unread rest) :
    Converts token.text c.plangReadFileI64Turbo := by
  obtain ⟨scan, after⟩ := reading.ready.scanTokenTurboFile
  rw [delimited.dropWhile, delimited.takeWhile_token.1, if_neg (by simp [token.filled])] at scan
  have clear := after.unloadComponent.clear
  rcases read : turboInteger (cString token.text) with _ | v
  · have outcome : c.plangReadFileI64Turbo =
        (0, ((c.shared Call.clearerr).scanTokenTurboFile.2.shared
          Call.unloadComponent).setInOutResIfClear 106) := by
      rw [plangReadFileI64Turbo, readToken, reading.ifReadyOr, reading.ready.tpTrapOnWrongDirection]
      simp only [scan, read]
    rw [outcome, setInOutResIfClear, if_pos clear]
    exact ⟨by rw [read]; rfl, by rw [read]; rfl⟩
  · have outcome : c.plangReadFileI64Turbo =
        (v, (c.shared Call.clearerr).scanTokenTurboFile.2.shared Call.unloadComponent) := by
      rw [plangReadFileI64Turbo, readToken, reading.ifReadyOr, reading.ready.tpTrapOnWrongDirection]
      simp only [scan, read]
    rw [outcome]
    exact ⟨by rw [read]; rfl, by rw [read]; exact clear⟩

/-! ### The whole -/

/-- What a read should come to: the integer of 64 bits that the token is, or the error. -/
structure Answered (token : Text) (outcome : Int × TurboCall) : Prop where
  value : ∀ v, Numeral token v → InInt64 v → outcome.1 = v ∧ outcome.2.inOutRes = 0
  error : (¬∃ v, Numeral token v ∧ InInt64 v) → outcome.1 = 0 ∧ outcome.2.inOutRes = 106

/-- A conversion answers as it should if it is exact. -/
theorem answered_iff_exact {token : Text} {outcome : Int × TurboCall}
    (converts : Converts token outcome) : Answered token outcome ↔ ExactToken token := by
  obtain ⟨answer, code⟩ := converts
  constructor
  · rintro ⟨value, error⟩ v
    constructor
    · intro read
      rw [read] at answer code
      by_cases numeral : ∃ w, Numeral token w ∧ InInt64 w
      · obtain ⟨w, numeral, fits⟩ := numeral
        obtain rfl : v = w := answer.symm.trans (value w numeral fits).1
        exact ⟨numeral, fits⟩
      · have failed := (error numeral).2
        rw [code] at failed
        cases failed
    · rintro ⟨numeral, fits⟩
      obtain ⟨given, fine⟩ := value v numeral fits
      rcases read : turboInteger (cString token) with _ | w
      · rw [read] at code
        rw [code] at fine
        cases fine
      · rw [read] at answer
        exact congrArg some (answer.symm.trans given)
  · intro exact_
    refine ⟨fun v numeral fits => ?_, fun none_ => ?_⟩
    · have read := (exact_ v).mpr ⟨numeral, fits⟩
      rw [answer, code, read]
      exact ⟨rfl, rfl⟩
    · have unread : turboInteger (cString token) = none :=
        Option.eq_none_iff_forall_ne_some.mpr fun v read => none_ ⟨v, (exact_ v).mp read⟩
      rw [answer, code, unread]
      exact ⟨rfl, rfl⟩

/-- A token is read as it should from standard input and from every text file, and the sign is
applied to nothing that it overflows on. -/
structure ReadsExactly (token : Token) : Prop where
  stdin : ∀ (c : TurboCall) (rest : Text), c.inOutRes = 0 →
    Delimited token c.libc.input rest → Answered token.text c.plangReadI64Turbo
  file : ∀ (c : TurboCall) (unread rest : Text), c.TextAhead unread → Delimited token unread rest →
    Answered token.text c.plangReadFileI64Turbo
  no_overflow : ∀ v, turboInteger (cString token.text) = some v → InInt64 v

/-- A program that is given a text on standard input. -/
def given (input : Text) : TurboCall where
  libc := { input }
  file := {}
  reals := { format := fun _ _ _ _ => [], fixed := fun _ _ _ => [], parse := fun _ => none }

theorem delimited_given (token : Token) : Delimited token (given token.text).libc.input [] :=
  ⟨[], (fun _ inside => nomatch inside), (List.append_nil _).symm, fun _ inside => nomatch inside⟩

/-- Exactly the regular tokens are read as they should. -/
theorem readsExactly_iff_regular (token : Token) : ReadsExactly token ↔ Regular token.text := by
  rw [← exact_iff_regular]
  constructor
  · intro reads
    have clear : (given token.text).inOutRes = 0 := rfl
    exact (answered_iff_exact (converts_stdin clear (delimited_given token))).mp
      (reads.stdin _ _ clear (delimited_given token))
  · intro exact_
    exact {
      stdin := fun c rest clear delimited =>
        (answered_iff_exact (converts_stdin clear delimited)).mpr exact_
      file := fun c unread rest reading delimited =>
        (answered_iff_exact (converts_file reading delimited)).mpr exact_
      no_overflow := fun v read => ((exact_ v).mp read).2 }

/-- A token with a second sign. -/
def secondSign : Token where
  text := ['$', '-', '5']
  filled := List.cons_ne_nil _ _
  visible := by simp [IsoCall.isBlank]

/-- A sign behind the announcement is read. -/
theorem secondSign_not_readsExactly : ¬ReadsExactly secondSign := by
  intro reads
  have answered := reads.stdin (given secondSign.text) [] rfl (delimited_given secondSign)
  have read : (given secondSign.text).plangReadI64Turbo.2.inOutRes = 0 := by decide +kernel
  have announcing : Announcing ['$', '-', '5'] false 16 ['-', '5'] :=
    ⟨[], ['$'], .head _, .head _, rfl⟩
  have no_numeral : ¬∃ v, Numeral secondSign.text v ∧ InInt64 v := by
    rintro ⟨v, numeral, -⟩
    have digits := ((numeral_of_announcing announcing).mp numeral).1
    exact absurd (digits.all '-' List.mem_cons_self) (by decide)
  have failed := (answered.error no_numeral).2
  rw [read] at failed
  cases failed

end TurboCall

end Runtime

end Plang
