import Plang.Library.Cutting

/-!
# The keyboard

The Crt unit reads single bytes from a terminal in raw mode.  A terminal reports a cursor key or a
function key as a sequence of bytes that begins with ESC.  `ReadKey` answers such a sequence with
`#0` and, on the next call, with a scan code.
-/

namespace Plang

namespace Runtime

/-- The keyboard, and the cell for a scan code. -/
structure Keyboard where
  /-- The bytes that have been typed and not read. -/
  typed : List UInt8
  /-- No more bytes will come: the next `read` reports the end instead of waiting. -/
  gone : Bool
  PendingScanCode : Option UInt8

/-- `kBracketLetter`: ESC [ letter. -/
def kBracketLetter : List (UInt8 × UInt8) :=
  [(65, 72), (66, 80), (67, 77), (68, 75), (72, 71), (70, 79)]

/-- `kBracketTilde`: ESC [ digit ~. -/
def kBracketTilde : List (UInt8 × UInt8) :=
  [(49, 71), (50, 82), (51, 83), (52, 79), (53, 73), (54, 81)]

/-- `kSS3Letter`: ESC O letter. -/
def kSS3Letter : List (UInt8 × UInt8) := [(80, 59), (81, 60), (82, 61), (83, 62)]

namespace Keyboard

/-- A call that does not come to an end waits for a byte. -/
abbrev Call := StateT Keyboard Option

/-- One byte; none is the `-1` of a keyboard that has gone away. -/
def readOneByte : Call (Option UInt8) := fun keyboard =>
  match keyboard.typed with
  | byte :: rest => some (some byte, { keyboard with typed := rest })
  | [] => if keyboard.gone then some (none, keyboard) else none

/-- Whether a `read` would not wait.  What has been typed is there without delay. -/
def stdinHasByteWithin : Call Bool := fun keyboard =>
  some (!keyboard.typed.isEmpty || keyboard.gone, keyboard)

/-- `PendingScanCode = Code; return 0`. -/
def pend (code : UInt8) : Call UInt8 := fun keyboard =>
  some (0, { keyboard with PendingScanCode := some code })

/-- The scan code of a byte that may be absent. -/
def entry (table : List (UInt8 × UInt8)) (byte : Option UInt8) : Option UInt8 :=
  byte.bind fun key => List.lookup key table

/-- ESC has been read, and a `[` behind it. -/
def resolveBracket : Call UInt8 := do
  if !(← stdinHasByteWithin) then return 27
  else
    let C2 ← readOneByte
    if C2.any fun byte => 49 ≤ byte && byte ≤ 57 then
      match entry kBracketTilde C2 with
      | some code =>
          -- the byte that is taken is not compared with a tilde
          if ← stdinHasByteWithin then discard readOneByte
          pend code
      | none => return 27
    else
      match entry kBracketLetter C2 with
      | some code => pend code
      | none => return 27

/-- ESC has been read, and an `O` behind it. -/
def resolveSS3 : Call UInt8 := do
  if !(← stdinHasByteWithin) then return 27
  else
    match entry kSS3Letter (← readOneByte) with
    | some code => pend code
    | none => return 27

/-- ESC has been read. -/
def resolveEscape : Call UInt8 := do
  if !(← stdinHasByteWithin) then return 27
  else
    let C1 ← readOneByte
    if C1 = some 91 then resolveBracket
    else if C1 = some 79 then resolveSS3
    else return 27

/-- Read one key, resolving the sequence it may begin. -/
def readKeyResolving : Call UInt8 := do
  match ← readOneByte with
  | none => return 0
  | some C0 =>
      if C0 = 127 then return 8
      else if C0 ≠ 27 then return C0
      else resolveEscape

/-- `KeyPressed`. -/
def plangCrtKeypressed : Call Bool := do
  if (← get).PendingScanCode.isSome then return true
  stdinHasByteWithin

/-- `ReadKey`. -/
def plangCrtReadkey : Call UInt8 := do
  match (← get).PendingScanCode with
  | some code =>
      modify fun keyboard => { keyboard with PendingScanCode := none }
      return code
  | none => readKeyResolving

/-- A terminal that has been typed at. -/
def terminal (typed : List UInt8) (pending : Option UInt8) : Keyboard := ⟨typed, false, pending⟩

/-- The character that a single byte is reported as when it begins no sequence. -/
def reported (byte : UInt8) : UInt8 := if byte = 127 then 8 else byte

/-! ### What a call makes of what has been typed -/

section Resolving

variable (code : UInt8) (rest : List UInt8)

theorem resolveBracket_cons :
    resolveBracket (terminal (code :: rest) none) =
      if 49 ≤ code && code ≤ 57 then
        match kBracketTilde.lookup code with
        | some scan => some (0, terminal (rest.drop 1) (some scan))
        | none => some (27, terminal rest none)
      else
        match kBracketLetter.lookup code with
        | some scan => some (0, terminal rest (some scan))
        | none => some (27, terminal rest none) := by
  have begun : resolveBracket (terminal (code :: rest) none) =
      (if 49 ≤ code && code ≤ 57 then
        match List.lookup code kBracketTilde with
        | some scan => do
            if ← stdinHasByteWithin then discard readOneByte
            pend scan
        | none => return 27
      else
        match List.lookup code kBracketLetter with
        | some scan => pend scan
        | none => return 27 : Call UInt8) (terminal rest none) := rfl
  rw [begun]
  split
  · cases List.lookup code kBracketTilde with
    | none => rfl
    | some scan => cases rest <;> rfl
  · cases List.lookup code kBracketLetter <;> rfl

theorem resolveSS3_cons :
    resolveSS3 (terminal (code :: rest) none) =
      match kSS3Letter.lookup code with
      | some scan => some (0, terminal rest (some scan))
      | none => some (27, terminal rest none) := by
  have begun : resolveSS3 (terminal (code :: rest) none) =
      (match List.lookup code kSS3Letter with
        | some scan => pend scan
        | none => return 27 : Call UInt8) (terminal rest none) := rfl
  rw [begun]
  cases List.lookup code kSS3Letter <;> rfl

theorem resolveEscape_cons :
    resolveEscape (terminal (code :: rest) none) =
      if code = 91 then resolveBracket (terminal rest none)
      else if code = 79 then resolveSS3 (terminal rest none)
      else some (27, terminal rest none) := by
  have begun : resolveEscape (terminal (code :: rest) none) =
      (if some code = some 91 then resolveBracket
        else if some code = some 79 then resolveSS3
        else return 27 : Call UInt8) (terminal rest none) := rfl
  simp only [begun, Option.some.injEq]
  split
  · rfl
  · split <;> rfl

/-- A byte that is not ESC is reported by itself. -/
theorem readKeyResolving_byte (other : code ≠ 27) :
    readKeyResolving (terminal (code :: rest) none) = some (reported code, terminal rest none) := by
  have begun : readKeyResolving (terminal (code :: rest) none) =
      (if code = 127 then return 8
        else if code ≠ 27 then return code
        else resolveEscape : Call UInt8) (terminal rest none) := rfl
  rw [begun, reported, if_pos other]
  split <;> rfl

end Resolving

/-- The call takes some bytes and reports the ESC alone, or a scan code. -/
def Resolves (call : Call UInt8) (tail : List UInt8) : Prop :=
  ∃ front rest, tail = front ++ rest ∧
    (call (terminal tail none) = some (27, terminal rest none) ∨
      ∃ scan, scan ≠ 0 ∧ scan ≠ 27 ∧
        call (terminal tail none) = some (0, terminal rest (some scan)))

/-- A scan code is neither the mark in front of it nor ESC. -/
theorem scan_ne {table : List (UInt8 × UInt8)}
    (listed : table ∈ [kBracketLetter, kBracketTilde, kSS3Letter]) {code scan : UInt8}
    (found : table.lookup code = some scan) : scan ≠ 0 ∧ scan ≠ 27 := by
  have scans : [kBracketLetter, kBracketTilde, kSS3Letter].all
      (fun table => table.all fun pair => pair.2 ≠ 0 ∧ pair.2 ≠ 27) = true := by decide
  obtain ⟨before, after, split, -⟩ := List.lookup_eq_some_iff.mp found
  have entries := List.all_eq_true.mp (List.all_eq_true.mp scans table listed)
  exact of_decide_eq_true (entries (code, scan) (by simp [split]))

theorem resolveBracket_resolves (tail : List UInt8) : Resolves resolveBracket tail := by
  cases tail with
  | nil => exact ⟨[], [], rfl, .inl rfl⟩
  | cons code rest =>
      rw [Resolves, resolveBracket_cons]
      split
      · cases found : List.lookup code kBracketTilde with
        | none => exact ⟨[code], rest, rfl, .inl rfl⟩
        | some scan =>
            obtain ⟨ne_zero, ne_escape⟩ := scan_ne (by decide) found
            exact ⟨code :: rest.take 1, rest.drop 1,
              by rw [List.cons_append, List.take_append_drop],
              .inr ⟨scan, ne_zero, ne_escape, rfl⟩⟩
      · cases found : List.lookup code kBracketLetter with
        | none => exact ⟨[code], rest, rfl, .inl rfl⟩
        | some scan =>
            obtain ⟨ne_zero, ne_escape⟩ := scan_ne (by decide) found
            exact ⟨[code], rest, rfl, .inr ⟨scan, ne_zero, ne_escape, rfl⟩⟩

theorem resolveSS3_resolves (tail : List UInt8) : Resolves resolveSS3 tail := by
  cases tail with
  | nil => exact ⟨[], [], rfl, .inl rfl⟩
  | cons code rest =>
      rw [Resolves, resolveSS3_cons]
      cases found : List.lookup code kSS3Letter with
      | none => exact ⟨[code], rest, rfl, .inl rfl⟩
      | some scan =>
          obtain ⟨ne_zero, ne_escape⟩ := scan_ne (by decide) found
          exact ⟨[code], rest, rfl, .inr ⟨scan, ne_zero, ne_escape, rfl⟩⟩

/-- Behind an ESC, at least one byte is taken if there is one. -/
theorem readKeyResolving_escape (tail : List UInt8) :
    ∃ front rest, tail = front ++ rest ∧
      ((tail ≠ [] → front ≠ []) ∧
          readKeyResolving (terminal (27 :: tail) none) = some (27, terminal rest none) ∨
        ∃ scan, scan ≠ 0 ∧ scan ≠ 27 ∧
          readKeyResolving (terminal (27 :: tail) none) = some (0, terminal rest (some scan))) := by
  have begun : readKeyResolving (terminal (27 :: tail) none) = resolveEscape (terminal tail none) :=
    rfl
  rw [begun]
  cases tail with
  | nil => exact ⟨[], [], rfl, .inl ⟨fun ne => absurd rfl ne, rfl⟩⟩
  | cons code rest =>
      have resolved : ∀ call : Call UInt8, Resolves call rest →
          resolveEscape (terminal (code :: rest) none) = call (terminal rest none) →
          ∃ front after, code :: rest = front ++ after ∧
            ((code :: rest ≠ [] → front ≠ []) ∧
                resolveEscape (terminal (code :: rest) none) = some (27, terminal after none) ∨
              ∃ scan, scan ≠ 0 ∧ scan ≠ 27 ∧
                resolveEscape (terminal (code :: rest) none) =
                  some (0, terminal after (some scan))) := by
        rintro call ⟨front, after, rfl, reports⟩ same
        refine ⟨code :: front, after, rfl, ?_⟩
        rw [same]
        exact reports.imp_left fun alone => ⟨fun _ => List.cons_ne_nil _ _, alone⟩
      by_cases bracket : code = 91
      · apply resolved _ (resolveBracket_resolves rest)
        rw [resolveEscape_cons, if_pos bracket]
      · by_cases letter : code = 79
        · apply resolved _ (resolveSS3_resolves rest)
          rw [resolveEscape_cons, if_neg bracket, if_pos letter]
        · refine ⟨[code], rest, rfl, .inl ⟨fun _ => List.cons_ne_nil _ _, ?_⟩⟩
          rw [resolveEscape_cons, if_neg bracket, if_neg letter]

/-- The characters that `ReadKey` reports of the first piece of the typed bytes, and the bytes that
it leaves. -/
def report (head : UInt8) (tail : List UInt8) : List UInt8 × List UInt8 :=
  match readKeyResolving (terminal (head :: tail) none) with
  | some (char, after) => (char :: after.PendingScanCode.toList, after.typed)
  | none => ([], [])

theorem readKeyResolving_cons (head : UInt8) (tail : List UInt8) :
    ∃ char pending, readKeyResolving (terminal (head :: tail) none) =
        some (char, terminal (report head tail).2 pending) ∧
      (report head tail).1 = char :: pending.toList := by
  by_cases escape : head = 27
  · subst escape
    obtain ⟨front, rest, -, ⟨-, reported⟩ | ⟨scan, -, -, reported⟩⟩ := readKeyResolving_escape tail
    · rw [report, reported]
      exact ⟨27, none, rfl, rfl⟩
    · rw [report, reported]
      exact ⟨0, some scan, rfl, rfl⟩
  · rw [report, readKeyResolving_byte head tail escape]
    exact ⟨_, none, rfl, rfl⟩

theorem report_byte {head : UInt8} (other : head ≠ 27) (tail : List UInt8) :
    report head tail = ([reported head], tail) := by
  rw [report, readKeyResolving_byte head tail other]
  rfl

theorem report_escape (tail : List UInt8) :
    ∃ front rest, tail = front ++ rest ∧
      ((tail ≠ [] → front ≠ []) ∧ report 27 tail = ([27], rest) ∨
        ∃ scan, scan ≠ 0 ∧ scan ≠ 27 ∧ report 27 tail = ([0, scan], rest)) := by
  obtain ⟨front, rest, split, ⟨taken, reported⟩ | ⟨scan, ne_zero, ne_escape, reported⟩⟩ :=
    readKeyResolving_escape tail
  · refine ⟨front, rest, split, .inl ⟨taken, ?_⟩⟩
    rw [report, reported]
    rfl
  · refine ⟨front, rest, split, .inr ⟨scan, ne_zero, ne_escape, ?_⟩⟩
    rw [report, reported]
    rfl

/-- The cutter of typed bytes into keys, as `ReadKey` reports them. -/
def transcript : Cutter UInt8 UInt8 where
  cut := report
  shorter head tail := by
    by_cases escape : head = 27
    · subst escape
      obtain ⟨front, rest, rfl, ⟨-, reports⟩ | ⟨scan, -, -, reports⟩⟩ := report_escape tail
      · simp [reports]
      · simp [reports]
    · simp [report_byte escape]

end Keyboard

end Runtime

end Plang
