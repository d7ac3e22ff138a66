import Plang.Runtime.Keyboard

/-!
# What is typed and what `ReadKey` answers

What has been typed is cut from the left into the sequences that the tables list and into single
bytes.  `ReadKey` answers with what the pieces stand for, in order, only where no other ESC has a
byte behind it: a sequence that is not listed is swallowed, all but its ESC.
-/

namespace Plang

namespace Runtime

namespace Keyboard

/-- The sequences that are recognised, and their scan codes. -/
def recognisedSequences : List (List UInt8 × UInt8) :=
  kBracketLetter.map (fun (letter, scan) => ([27, 91, letter], scan)) ++
    kBracketTilde.map (fun (digit, scan) => ([27, 91, digit, 126], scan)) ++
    kSS3Letter.map fun (letter, scan) => ([27, 79, letter], scan)

/-- The recognised sequence at the front. -/
def recognised (typed : List UInt8) : Option (List UInt8 × UInt8) :=
  recognisedSequences.find? fun piece => piece.1.isPrefixOf typed

/-- The characters that the first piece stands for, and the bytes behind it. -/
def decodePiece (head : UInt8) (tail : List UInt8) : List UInt8 × List UInt8 :=
  match recognised (head :: tail) with
  | some (piece, scan) => ([0, scan], (head :: tail).drop piece.length)
  | none => ([reported head], tail)

/-- The shape of the recognised sequences. -/
theorem recognisedSequences_shape : ∀ piece ∈ recognisedSequences,
    piece.1 = 27 :: piece.1.tail ∧ 27 ∉ piece.1.tail ∧ 0 ∉ piece.1.tail ∧ piece.2 ≠ 0 ∧
      piece.2 ≠ 27 := by
  decide

/-- No recognised sequence begins another one. -/
theorem eq_of_begins : ∀ piece ∈ recognisedSequences, ∀ other ∈ recognisedSequences,
    piece.1 <+: other.1 → piece = other := by
  decide

theorem recognised_some {typed : List UInt8} {piece : List UInt8 × UInt8}
    (found : recognised typed = some piece) :
    piece ∈ recognisedSequences ∧ ∃ rest, typed = piece.1 ++ rest := by
  refine ⟨List.mem_of_find?_eq_some found, ?_⟩
  have begins := List.find?_some found
  obtain ⟨rest, split⟩ := List.isPrefixOf_iff_prefix.mp begins
  exact ⟨rest, split.symm⟩

theorem recognised_append {piece : List UInt8 × UInt8} (listed : piece ∈ recognisedSequences)
    (rest : List UInt8) : recognised (piece.1 ++ rest) = some piece := by
  have whole : piece.1 <+: piece.1 ++ rest := List.prefix_append _ _
  cases found : recognised (piece.1 ++ rest) with
  | none =>
      exact absurd (List.isPrefixOf_iff_prefix.mpr whole)
        (List.find?_eq_none.mp found piece listed)
  | some other =>
      obtain ⟨other_listed, tail, split⟩ := recognised_some found
      have front : other.1 <+: piece.1 ++ rest := ⟨tail, split.symm⟩
      obtain shorter | longer := List.prefix_or_prefix_of_prefix front whole
      · rw [eq_of_begins other other_listed piece listed shorter]
      · rw [eq_of_begins piece listed other other_listed longer]

/-- The cutter of typed bytes into the characters that they stand for. -/
def decode : Cutter UInt8 UInt8 where
  cut := decodePiece
  shorter head tail := by
    rw [decodePiece]
    split
    · rename_i piece scan found
      have starts : piece = 27 :: piece.tail :=
        (recognisedSequences_shape _ (recognised_some found).1).1
      rw [starts]
      simp
    · exact Nat.le_refl _

theorem decode_sequence {piece : List UInt8 × UInt8} (listed : piece ∈ recognisedSequences)
    (rest : List UInt8) : decode.yield (piece.1 ++ rest) = 0 :: piece.2 :: decode.yield rest := by
  have found := recognised_append listed rest
  have starts := (recognisedSequences_shape piece listed).1
  have split : piece.1 ++ rest = 27 :: (piece.1.tail ++ rest) := by
    rw [← List.cons_append, ← starts]
  have cut : decodePiece 27 (piece.1.tail ++ rest) = ([0, piece.2], rest) := by
    rw [decodePiece, ← split, found]
    simp
  rw [split, Cutter.yield_cons]
  change (decodePiece _ _).1 ++ decode.yield (decodePiece _ _).2 = _
  rw [cut]
  rfl

theorem decode_byte {head : UInt8} {tail : List UInt8} (none : recognised (head :: tail) = none) :
    decode.yield (head :: tail) = reported head :: decode.yield tail := by
  have cut : decodePiece head tail = ([reported head], tail) := by rw [decodePiece, none]
  rw [Cutter.yield_cons]
  change (decodePiece _ _).1 ++ decode.yield (decodePiece _ _).2 = _
  rw [cut]
  rfl

theorem transcript_cons (head : UInt8) (tail : List UInt8) :
    transcript.yield (head :: tail) =
      (report head tail).1 ++ transcript.yield (report head tail).2 :=
  Cutter.yield_cons _ _ _

/-! ### Where the two agree -/

/-- Behind an ESC that begins no recognised sequence there is nothing. -/
inductive CutsWell : List UInt8 → Prop
  | nil : CutsWell []
  | sequence {piece : List UInt8 × UInt8} {rest : List UInt8} :
      piece ∈ recognisedSequences → CutsWell rest → CutsWell (piece.1 ++ rest)
  | byte {head : UInt8} {tail : List UInt8} : head ≠ 27 → CutsWell tail → CutsWell (head :: tail)
  | escape : CutsWell [27]

theorem recognised_of_ne {head : UInt8} (other : head ≠ 27) (tail : List UInt8) :
    recognised (head :: tail) = none := by
  cases found : recognised (head :: tail) with
  | none => rfl
  | some piece =>
      obtain ⟨listed, rest, split⟩ := recognised_some found
      rw [(recognisedSequences_shape piece listed).1] at split
      exact absurd (List.cons.inj split).1 other

/-- The entry of a table is what is found in it. -/
theorem lookup_listed {table : List (UInt8 × UInt8)}
    (listed : table ∈ [kBracketLetter, kBracketTilde, kSS3Letter]) {pair : UInt8 × UInt8}
    (entry : pair ∈ table) : table.lookup pair.1 = some pair.2 := by
  have found : [kBracketLetter, kBracketTilde, kSS3Letter].all
      (fun table => table.all fun pair => table.lookup pair.1 = some pair.2) = true := by decide
  exact of_decide_eq_true
    (List.all_eq_true.mp (List.all_eq_true.mp found table listed) pair entry)

/-- The letters behind a bracket are no digits. -/
theorem letters_listed {pair : UInt8 × UInt8} (entry : pair ∈ kBracketLetter) :
    ¬(49 ≤ pair.1 && pair.1 ≤ 57) = true := by
  have letters : kBracketLetter.all (fun pair => ¬(49 ≤ pair.1 && pair.1 ≤ 57) = true) = true := by
    decide
  exact of_decide_eq_true (List.all_eq_true.mp letters pair entry)

/-- The digits are. -/
theorem digits_listed {pair : UInt8 × UInt8} (entry : pair ∈ kBracketTilde) :
    (49 ≤ pair.1 && pair.1 ≤ 57) = true := by
  have digits : kBracketTilde.all (fun pair => 49 ≤ pair.1 && pair.1 ≤ 57) = true := by decide
  exact List.all_eq_true.mp digits pair entry

/-- A recognised sequence is read as a whole. -/
theorem readKeyResolving_sequence {piece : List UInt8 × UInt8}
    (listed : piece ∈ recognisedSequences) (rest : List UInt8) :
    readKeyResolving (terminal (piece.1 ++ rest) none) =
      some (0, terminal rest (some piece.2)) := by
  have begun : ∀ tail, readKeyResolving (terminal (27 :: tail) none) =
      resolveEscape (terminal tail none) := fun _ => rfl
  rw [recognisedSequences, List.mem_append, List.mem_append, List.mem_map, List.mem_map,
    List.mem_map] at listed
  obtain (⟨⟨letter, scan⟩, entry, rfl⟩ | ⟨⟨digit, scan⟩, entry, rfl⟩) |
    ⟨⟨letter, scan⟩, entry, rfl⟩ := listed
  · have found := lookup_listed (by decide) entry
    simp only [List.cons_append, List.nil_append]
    rw [begun, resolveEscape_cons, if_pos rfl, resolveBracket_cons,
      if_neg (letters_listed entry), found]
  · have found := lookup_listed (by decide) entry
    simp only [List.cons_append, List.nil_append]
    rw [begun, resolveEscape_cons, if_pos rfl, resolveBracket_cons,
      if_pos (digits_listed entry), found]
    rfl
  · have found := lookup_listed (by decide) entry
    simp only [List.cons_append, List.nil_append]
    rw [begun, resolveEscape_cons, if_neg (by decide), if_pos rfl, resolveSS3_cons, found]

theorem transcript_sequence {piece : List UInt8 × UInt8} (listed : piece ∈ recognisedSequences)
    (rest : List UInt8) :
    transcript.yield (piece.1 ++ rest) = 0 :: piece.2 :: transcript.yield rest := by
  have read := readKeyResolving_sequence listed rest
  have split : piece.1 ++ rest = 27 :: (piece.1.tail ++ rest) := by
    rw [← List.cons_append, ← (recognisedSequences_shape piece listed).1]
  have reports : report 27 (piece.1.tail ++ rest) = ([0, piece.2], rest) := by
    rw [report, ← split, read]
    rfl
  rw [split, transcript_cons, reports]
  rfl

theorem transcript_byte {head : UInt8} (other : head ≠ 27) (tail : List UInt8) :
    transcript.yield (head :: tail) = reported head :: transcript.yield tail := by
  rw [transcript_cons, report_byte other]
  rfl

/-- Where every ESC is accounted for, what is reported is what has been typed. -/
theorem CutsWell.transcript_eq {typed : List UInt8} (cuts : CutsWell typed) :
    transcript.yield typed = decode.yield typed := by
  induction cuts with
  | nil => rfl
  | sequence listed _ induction =>
      rw [transcript_sequence listed, decode_sequence listed, induction]
  | byte other _ induction =>
      rw [transcript_byte other, decode_byte (recognised_of_ne other _), induction]
  | escape => decide

/-! ### Nothing makes up for a byte that is swallowed -/

/-- A piece that reaches no mark ends in front of it. -/
theorem front_of_piece {front tail piece after : List UInt8} {mark : UInt8} (ne : front ≠ [])
    (split : front ++ mark :: tail = piece ++ after) (unmarked : mark ∉ piece.tail) :
    ∃ more, front = piece ++ more ∧ after = more ++ mark :: tail := by
  obtain ⟨more, rfl, after_eq⟩ | ⟨more, piece_eq, after_eq⟩ := List.append_eq_append_iff.mp split
  · cases more with
    | nil => exact ⟨[], by simp, by simpa using after_eq.symm⟩
    | cons byte more =>
        obtain ⟨rfl, -⟩ := List.cons.inj after_eq
        cases front with
        | nil => exact absurd rfl ne
        | cons head front => simp at unmarked
  · exact ⟨more, piece_eq, after_eq⟩

/-- The first piece of what has been typed is a byte, or a recognised sequence. -/
theorem decode_front {front : List UInt8} (ne : front ≠ []) (rest : List UInt8) :
    (∃ byte more, front = byte :: more ∧
        decode.yield (front ++ rest) = reported byte :: decode.yield (more ++ rest)) ∨
      ∃ piece ∈ recognisedSequences, ∃ after, front ++ rest = piece.1 ++ after ∧
        decode.yield (front ++ rest) = 0 :: piece.2 :: decode.yield after := by
  cases found : recognised (front ++ rest) with
  | none =>
      cases front with
      | nil => exact absurd rfl ne
      | cons byte more => exact .inl ⟨byte, more, rfl, decode_byte found⟩
  | some piece =>
      obtain ⟨listed, after, split⟩ := recognised_some found
      refine .inr ⟨piece, listed, after, split, ?_⟩
      rw [split, decode_sequence listed]

theorem reported_eq_zero {byte : UInt8} (zero : reported byte = 0) : byte = 0 := by
  rw [reported] at zero
  split at zero
  · cases zero
  · exact zero

/-- What stands for an ESC and what is behind it does not begin with a scan code. -/
theorem decode_escape_ne {scan : UInt8} (ne_zero : scan ≠ 0) (ne_escape : scan ≠ 27)
    (tail after : List UInt8) : decode.yield (27 :: tail) ≠ scan :: after := by
  intro same
  cases found : recognised (27 :: tail) with
  | none =>
      rw [decode_byte found] at same
      exact ne_escape (List.cons.inj same).1.symm
  | some piece =>
      obtain ⟨listed, behind, split⟩ := recognised_some found
      rw [split, decode_sequence listed] at same
      exact ne_zero (List.cons.inj same).1.symm

/-- What is reported as something else than an ESC or the mark of a scan code is a single byte. -/
theorem transcript_single {scan : UInt8} (ne_zero : scan ≠ 0) (ne_escape : scan ≠ 27)
    {typed after : List UInt8} (reports : transcript.yield typed = scan :: after) :
    ∃ byte tail, typed = byte :: tail ∧ transcript.yield tail = after := by
  cases typed with
  | nil => cases reports
  | cons byte tail =>
      rw [transcript_cons] at reports
      by_cases escape : byte = 27
      · subst escape
        obtain ⟨_, _, -, ⟨-, report⟩ | ⟨_, -, -, report⟩⟩ := report_escape tail
        · rw [report] at reports
          exact absurd (List.cons.inj reports).1.symm ne_escape
        · rw [report] at reports
          exact absurd (List.cons.inj reports).1.symm ne_zero
      · rw [report_byte escape] at reports
        exact ⟨byte, tail, rfl, (List.cons.inj reports).2⟩

/-- What is left over in front of what is still to be read never comes out even. -/
theorem decode_ne_transcript {front rest : List UInt8} (ne : front ≠ []) :
    decode.yield (front ++ rest) ≠ transcript.yield rest := by
  induction size : rest.length using Nat.strongRecOn generalizing front rest with
  | _ size induction =>
  subst size
  cases rest with
  | nil =>
      rw [List.append_nil, Cutter.yield_nil]
      refine decode.yield_ne_nil (fun head tail empty => ?_) ne
      change (decodePiece head tail).1 = [] at empty
      rw [decodePiece] at empty
      split at empty <;> cases empty
  | cons head tail =>
      intro same
      -- what has been read of the rest joins what is left over
      have later : ∀ more taken left, head :: tail = taken ++ left → taken ≠ [] →
          decode.yield (more ++ head :: tail) ≠ transcript.yield left := by
        intro more taken left split taken_ne
        rw [split, ← List.append_assoc]
        refine induction left.length ?_ (by simp [taken_ne]) rfl
        rw [split, List.length_append]
        exact Nat.lt_add_of_pos_left (List.length_pos_of_ne_nil taken_ne)
      rw [transcript_cons] at same
      by_cases escape : head = 27
      · subst escape
        obtain ⟨taken, left, split, ⟨-, reports⟩ | ⟨scan, ne_zero, ne_escape, reports⟩⟩ :=
          report_escape tail
        all_goals
          rw [reports] at same
          have later := fun more => later more (27 :: taken) left (by rw [split]; rfl)
            (List.cons_ne_nil _ _)
        · obtain ⟨byte, more, rfl, yields⟩ | ⟨piece, listed, after, -, yields⟩ :=
            decode_front ne (27 :: tail)
          · rw [yields] at same
            exact later more (List.cons.inj same).2
          · rw [yields] at same
            cases (List.cons.inj same).1
        · obtain ⟨byte, more, rfl, yields⟩ | ⟨piece, listed, after, split_piece, yields⟩ :=
            decode_front ne (27 :: tail)
          · -- the mark of the scan code was typed as a byte, so the code must be too
            rw [yields] at same
            have same := (List.cons.inj same).2
            cases more with
            | nil => exact decode_escape_ne ne_zero ne_escape _ _ same
            | cons next more =>
                obtain ⟨byte, others, split_more, yields⟩ | ⟨piece, listed, after, -, yields⟩ :=
                  decode_front (List.cons_ne_nil next more) (27 :: tail)
                · rw [yields] at same
                  exact later others (List.cons.inj same).2
                · rw [yields] at same
                  exact ne_zero (List.cons.inj same).1.symm
          · obtain ⟨-, unmarked, -⟩ := recognisedSequences_shape piece listed
            obtain ⟨more, -, rfl⟩ := front_of_piece ne split_piece unmarked
            rw [yields] at same
            exact later more (List.cons.inj (List.cons.inj same).2).2
      · rw [report_byte escape] at same
        obtain ⟨byte, more, rfl, yields⟩ | ⟨piece, listed, after, split, yields⟩ :=
          decode_front ne (head :: tail)
        · rw [yields] at same
          exact later more [head] tail rfl (List.cons_ne_nil _ _) (List.cons.inj same).2
        · rw [yields] at same
          obtain ⟨zero, same⟩ := List.cons.inj same
          obtain rfl := reported_eq_zero zero.symm
          obtain ⟨-, -, unmarked, ne_zero, ne_escape⟩ := recognisedSequences_shape piece listed
          obtain ⟨more, -, rfl⟩ := front_of_piece ne split unmarked
          obtain ⟨next, left, rfl, even⟩ := transcript_single ne_zero ne_escape same.symm
          exact later more [0, next] left rfl (List.cons_ne_nil _ _) even.symm

/-- What is reported is what has been typed only where every ESC is accounted for. -/
theorem transcript_eq_iff (typed : List UInt8) :
    transcript.yield typed = decode.yield typed ↔ CutsWell typed := by
  refine ⟨fun same => ?_, CutsWell.transcript_eq⟩
  induction size : typed.length using Nat.strongRecOn generalizing typed with
  | _ size induction =>
  subst size
  cases typed with
  | nil => exact .nil
  | cons head tail =>
      cases found : recognised (head :: tail) with
      | some piece =>
          obtain ⟨listed, rest, split⟩ := recognised_some found
          rw [split, transcript_sequence listed, decode_sequence listed] at same
          rw [split]
          refine .sequence listed (induction rest.length ?_ rest ?_ rfl)
          · rw [split, List.length_append, (recognisedSequences_shape piece listed).1]
            simp
          · exact (List.cons.inj (List.cons.inj same).2).2
      | none =>
          rw [decode_byte found] at same
          by_cases escape : head = 27
          · subst escape
            obtain ⟨taken, left, rfl, ⟨ne, reports⟩ | ⟨scan, -, -, reports⟩⟩ := report_escape tail
            · rw [transcript_cons, reports] at same
              have even := (List.cons.inj same).2.symm
              by_cases empty : taken ++ left = []
              · rw [empty]
                exact .escape
              · exact absurd even (decode_ne_transcript (ne empty))
            · rw [transcript_cons, reports] at same
              cases (List.cons.inj same).1
          · rw [transcript_byte escape] at same
            exact .byte escape (induction tail.length (Nat.lt_succ_self _) tail
              (List.cons.inj same).2 rfl)

/-! ### Calls of `ReadKey` and `KeyPressed` -/

/-- A call of the program. -/
inductive KeyCall where
  | ReadKey
  | KeyPressed

/-- The answers of the decoder. -/
inductive KeyAnswer where
  | key (char : UInt8)
  | pressed (available : Bool)
  /-- The call waits for something to be typed. -/
  | waits
  deriving DecidableEq

/-- The answers to calls, one after the other, up to one that waits. -/
def answers (keyboard : Keyboard) : List KeyCall → List KeyAnswer
  | [] => []
  | .ReadKey :: calls =>
      match plangCrtReadkey keyboard with
      | some (char, after) => .key char :: answers after calls
      | none => [.waits]
  | .KeyPressed :: calls =>
      match plangCrtKeypressed keyboard with
      | some (available, after) => .pressed available :: answers after calls
      | none => [.waits]

/-- What should come of them where these characters are to be returned: `KeyPressed` is true as long
as one is left. -/
def answersOf : List UInt8 → List KeyCall → List KeyAnswer
  | _, [] => []
  | char :: chars, .ReadKey :: calls => .key char :: answersOf chars calls
  | [], .ReadKey :: _ => [.waits]
  | chars, .KeyPressed :: calls => .pressed (!chars.isEmpty) :: answersOf chars calls

theorem plangCrtKeypressed_terminal (typed : List UInt8) (pending : Option UInt8) :
    plangCrtKeypressed (terminal typed pending) =
      some (pending.isSome || !typed.isEmpty, terminal typed pending) := by
  cases pending <;> cases typed <;> rfl

theorem answersOf_keyPressed (chars : List UInt8) (calls : List KeyCall) :
    answersOf chars (.KeyPressed :: calls) =
      .pressed (!chars.isEmpty) :: answersOf chars calls := by
  cases chars <;> rfl

/-- Something is to be returned as long as a byte or a scan code is there. -/
theorem isEmpty_transcript (typed : List UInt8) (pending : Option UInt8) :
    (pending.isSome || !typed.isEmpty) = !(pending.toList ++ transcript.yield typed).isEmpty := by
  cases pending with
  | some scan => rfl
  | none =>
      cases typed with
      | nil => rfl
      | cons head tail =>
          obtain ⟨char, pending, -, reports⟩ := readKeyResolving_cons head tail
          rw [transcript_cons, reports]
          rfl

/-- The calls answer with what is reported. -/
theorem answers_terminal (calls : List KeyCall) (typed : List UInt8) (pending : Option UInt8) :
    answers (terminal typed pending) calls =
      answersOf (pending.toList ++ transcript.yield typed) calls := by
  induction calls generalizing typed pending with
  | nil => cases pending.toList ++ transcript.yield typed <;> rfl
  | cons call calls induction =>
      cases call with
      | KeyPressed =>
          rw [answers, plangCrtKeypressed_terminal, answersOf_keyPressed, isEmpty_transcript]
          exact congrArg _ (induction typed pending)
      | ReadKey =>
          cases pending with
          | some scan =>
              have returned : plangCrtReadkey (terminal typed (some scan)) =
                  some (scan, terminal typed none) := rfl
              rw [answers, returned, Option.toList_some, List.cons_append, answersOf]
              exact congrArg _ (induction typed none)
          | none =>
              have resolves : plangCrtReadkey (terminal typed none) =
                  readKeyResolving (terminal typed none) := rfl
              cases typed with
              | nil => rfl
              | cons head tail =>
                  obtain ⟨char, pending, returned, reports⟩ := readKeyResolving_cons head tail
                  rw [answers, resolves, returned, transcript_cons, reports, Option.toList_none,
                    List.nil_append, List.cons_append, answersOf]
                  exact congrArg _ (induction _ pending)

/-- Characters that are to be returned are told apart by the calls. -/
theorem eq_of_answersOf_eq {chars others : List UInt8}
    (same : ∀ calls, answersOf chars calls = answersOf others calls) : chars = others := by
  induction chars generalizing others with
  | nil =>
      cases others with
      | nil => rfl
      | cons other others => cases same [.KeyPressed]
  | cons char chars induction =>
      cases others with
      | nil => cases same [.KeyPressed]
      | cons other others =>
          obtain rfl : char = other := by
            have first := same [.ReadKey]
            simp only [answersOf, List.cons.injEq, KeyAnswer.key.injEq, and_true] at first
            exact first
          exact congrArg _ (induction fun calls => (List.cons.inj (same (.ReadKey :: calls))).2)

/-- The calls return what has been typed, piece by piece, and `KeyPressed` tells whether one more
would wait, if and only if no ESC but the recognised ones has a byte behind it. -/
theorem answers_decode_iff (typed : List UInt8) :
    (∀ calls, answers (terminal typed none) calls = answersOf (decode.yield typed) calls) ↔
      CutsWell typed := by
  rw [← transcript_eq_iff]
  simp only [answers_terminal, Option.toList_none, List.nil_append]
  exact ⟨eq_of_answersOf_eq, fun same calls => by rw [same]⟩

/-- ESC [ Z is not recognised: its last two bytes are swallowed. -/
theorem answers_unlisted :
    ¬∀ typed calls, answers (terminal typed none) calls = answersOf (decode.yield typed) calls := by
  intro holds
  exact absurd (holds [27, 91, 90] [.ReadKey, .ReadKey, .ReadKey]) (by decide)

end Keyboard

end Runtime

end Plang
