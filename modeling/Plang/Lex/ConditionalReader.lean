import Plang.Lex.ConditionalText

/-!
# Reading conditional text

What a reader does at the directives of a conditional, live and dead, and at the branches behind the
one that has been taken.
-/

namespace Plang

/-- The tokens and reports that reading has returned. -/
structure Output where
  /-- The kind of the last token. -/
  prevKind : TokenKind
  /-- The next token is known to start an expression. -/
  forceExprStartOnce : Bool
  /-- The tokens, oldest first. -/
  tokens : List (TokenKind × Text)

namespace Reader

/-- The reader in front of a text. -/
def facing (output : Output) (env : Env) (conditionals : List (Bool × Bool))
    (skipDepth : Option Nat) (rest : Text) : Reader where
  control :=
    { prevKind := output.prevKind
      forceExprStartOnce := output.forceExprStartOnce
      conditionals
      currentDefines := env.defines
      switchState := env.switches
      skipDepth }
  rest
  tokens := output.tokens

/-- The reader comes from one state to another. -/
def Goes (opts : LangOptions) (allow : Nat → Bool) (before after : Reader) : Prop :=
  ∃ turns, before.run opts allow turns = after

variable {opts : LangOptions} {allow : Nat → Bool}

theorem Goes.refl (reader : Reader) : Goes opts allow reader reader := ⟨0, rfl⟩

theorem Goes.trans {first second third : Reader} (left : Goes opts allow first second)
    (right : Goes opts allow second third) : Goes opts allow first third := by
  obtain ⟨early, rfl⟩ := left
  obtain ⟨late, rfl⟩ := right
  exact ⟨late + early, run_add opts allow first early late⟩

theorem Goes.of_turn {before after : Reader} (turn_eq : before.turn opts allow = after) :
    Goes opts allow before after := ⟨1, turn_eq⟩

theorem Skips.goes {before after : Reader} (skips : Skips opts before after) :
    Goes opts allow before after := by
  induction skips with
  | refl reader => exact .refl reader
  | turn dead _ _ induction =>
      refine .trans (.of_turn ?_) induction
      simp only [Reader.turn, dead]

/-- Live text without directives. -/
theorem goes_text (allow : Nat → Bool) (turbo : opts.turbo = true) {pieces : List Piece}
    (lexical : Lexical pieces) (plain : ∀ piece ∈ pieces, piece.Plain) (output : Output) :
    ∃ output', ∀ env conditionals x, StopsToken x →
      Goes opts allow (facing output env conditionals none (textOf pieces ++ x))
        (facing output' env conditionals none x) := by
  obtain ⟨kind, force, tokens, turns, reads⟩ := reads_text allow turbo lexical plain
    output.prevKind output.forceExprStartOnce output.tokens
  exact ⟨⟨kind, force, tokens⟩, fun env conditionals x stops =>
    ⟨turns, reads (facing output env conditionals none x).control rfl x stops⟩⟩

/-- A line break. -/
theorem goes_newline (output : Output) (env : Env) (conditionals : List (Bool × Bool)) (x : Text) :
    Goes opts allow (facing output env conditionals none ('\n' :: x))
      (facing output env conditionals none x) :=
  .of_turn rfl

/-- Dead text in which conditionals are nested. -/
theorem goes_dead (turbo : opts.turbo = true) {pieces : List Piece} (lexical : Lexical pieces)
    (unnoticed : Unnoticed pieces) {depth inner : Nat} (nests : nesting depth pieces = some inner)
    (output : Output) (env : Env) (conditionals : List (Bool × Bool)) {x : Text}
    (stops : StopsToken x) :
    Goes opts allow (facing output env conditionals (some depth) (textOf pieces ++ x))
      (facing output env conditionals (some inner) x) :=
  (skips_pieces turbo lexical unnoticed.quiet unnoticed.keep_out nests _ rfl stops _).goes

/-- A directive of live text. -/
theorem turn_directive (turbo : opts.turbo = true) {marker : Marker}
    (valid : marker.piece.Valid none) (control : Control) (live : control.skipDepth = none) (z : Text)
    (tokens : List (TokenKind × Text)) :
    turn opts allow ⟨control, marker.piece.text ++ z, tokens⟩ =
      ⟨control.onDirective marker.body, z, tokens⟩ := by
  have opens : Scanner.trivia opts (marker.piece.text ++ z) = some (.directive marker.braced) := by
    rw [Marker.piece, Piece.text, List.append_assoc]
    exact Scanner.trivia_opener turbo marker.braced _
  have drop_eq : (marker.piece.text ++ z).drop
      ((opener marker.braced).length + 1 + marker.body.length +
        (closer marker.braced).length) = z := by
    refine List.drop_left' ?_
    simp [Marker.piece, Piece.text]
    omega
  rw [turn_trivia allow control live opens]
  simp only [skipTrivia, readDirective, Marker.piece] at drop_eq ⊢
  simp only [(Piece.directive_found valid z).2, drop, drop_eq]

end Reader

/-- The names that only conditionals have are not handled before. -/
theorem Control.onDirective_of_conditional {control after : Control} {body : Text}
    (conditional :
      control.onConditional (directiveName body) (trim (directiveRest body)) = some after)
    (branching : isBranching body = true) : control.onDirective body = after := by
  have names : toLower (directiveName body) = "ifdef".toList ∨
      toLower (directiveName body) = "ifndef".toList ∨ toLower (directiveName body) = "ifopt".toList ∨
      toLower (directiveName body) = "endif".toList ∨ toLower (directiveName body) = "else".toList ∨
      toLower (directiveName body) = "elseif".toList := by
    simpa only [isBranching, Bool.or_eq_true, opensConditional_iff, closesConditional, beq_iff_eq,
      or_assoc] using branching
  have long : 2 ≤ (directiveName body).length := by
    have length_eq : (toLower (directiveName body)).length = (directiveName body).length :=
      List.length_map _
    rw [← length_eq]
    rcases names with name | name | name | name | name | name <;> rw [name] <;> decide
  have no_message : (MessageDirectives.any fun entry =>
      entry.1.toList == toLower (directiveName body)) = false := by
    rcases names with name | name | name | name | name | name <;> rw [name] <;> decide
  simp only [onDirective, splitDirectiveBody, multiSwitches_of_name long, no_message, conditional,
    Bool.false_eq_true, if_false]

namespace Reader

variable {opts : LangOptions} {allow : Nat → Bool}

/-- A live directive that opens a conditional. -/
theorem goes_opening (turbo : opts.turbo = true) {marker : Marker} (valid : marker.piece.Valid none)
    (opens : opensConditional marker.body = true) (output : Output) (env : Env)
    (conditionals : List (Bool × Bool)) (z : Text) :
    Goes opts allow (facing output env conditionals none (marker.piece.text ++ z))
      (facing output env ((env.holds marker.body, false) :: conditionals)
        (if env.holds marker.body then none else some 0) z) := by
  refine .of_turn ((turn_directive turbo valid _ rfl z _).trans ?_)
  have branching : isBranching marker.body = true := by simp [isBranching, opens]
  refine congrArg (Reader.mk · z output.tokens) ?_
  refine Control.onDirective_of_conditional ?_ branching
  rw [opensConditional_iff] at opens
  rcases opens with name | name | name <;>
    simp only [Control.onConditional, Env.holds, splitDirectiveBody, name] <;> rfl

/-- A live directive that begins another branch leaves the one that has been taken. -/
theorem goes_leaving (turbo : opts.turbo = true) {marker : Marker} (valid : marker.piece.Valid none)
    (isElse : Bool) (name : marker.name = if isElse then "else".toList else "elseif".toList)
    (output : Output) (env : Env) (outer : List (Bool × Bool)) (z : Text) :
    Goes opts allow (facing output env ((true, false) :: outer) none (marker.piece.text ++ z))
      (facing output env ((true, isElse) :: outer) (some 0) z) := by
  refine .of_turn ((turn_directive turbo valid _ rfl z _).trans ?_)
  refine congrArg (Reader.mk · z output.tokens) (Control.onDirective_of_conditional ?_ ?_)
  · rw [Marker.name] at name
    cases isElse <;> simp only [Control.onConditional, name] <;> rfl
  · rw [Marker.name] at name
    cases isElse <;> simp [isBranching, name]

/-- A live directive that ends a conditional. -/
theorem goes_closing (turbo : opts.turbo = true) {marker : Marker} (valid : marker.piece.Valid none)
    (closes : closesConditional marker.body = true) (output : Output) (env : Env)
    (conditionals : List (Bool × Bool)) (z : Text) :
    Goes opts allow (facing output env conditionals none (marker.piece.text ++ z))
      (facing output env conditionals.tail none z) := by
  refine .of_turn ((turn_directive turbo valid _ rfl z _).trans ?_)
  refine congrArg (Reader.mk · z output.tokens) (Control.onDirective_of_conditional ?_ ?_)
  · rw [closesConditional, beq_iff_eq] at closes
    simp only [Control.onConditional, closes]
    rfl
  · simp [isBranching, closes]

/-- A live directive that is not part of a conditional. -/
theorem goes_apply (turbo : opts.turbo = true) {marker : Marker} (valid : marker.piece.Valid none)
    (not_branching : isBranching marker.body = false) (output : Output) (env : Env)
    (conditionals : List (Bool × Bool)) (z : Text) :
    Goes opts allow (facing output env conditionals none (marker.piece.text ++ z))
      (facing output (env.apply marker.body) conditionals none z) := by
  refine .of_turn ((turn_directive turbo valid _ rfl z _).trans ?_)
  refine congrArg (Reader.mk · z output.tokens) ?_
  simp only [isBranching, Bool.or_eq_false_iff, opensConditional, closesConditional,
    beq_eq_false_iff_ne] at not_branching
  obtain ⟨⟨⟨⟨⟨not_ifdef, not_ifndef⟩, not_ifopt⟩, not_endif⟩, not_else⟩, not_elseif⟩ := not_branching
  simp only [Control.onDirective, Control.onConditional, Env.apply, splitDirectiveBody, not_ifdef,
    not_ifndef, not_ifopt, not_endif, not_else, not_elseif, if_false]
  cases multiSwitches marker.body with
  | some changes => rfl
  | none =>
      simp only [Control.defineSymbol, if_true, Bool.false_eq_true, if_false]
      by_cases message : (MessageDirectives.any fun entry =>
          entry.1.toList == toLower (directiveName marker.body)) = true
      · simp only [message, if_true]
      by_cases define : toLower (directiveName marker.body) = "define".toList
      · by_cases symbol : looksLikeIdentifier (trim (directiveRest marker.body)) = true <;>
          simp only [define, symbol, if_true, if_false, Bool.false_eq_true] <;> rfl
      by_cases undef : toLower (directiveName marker.body) = "undef".toList
      · by_cases symbol : looksLikeIdentifier (trim (directiveRest marker.body)) = true <;>
          simp only [undef, symbol, if_true, if_false, Bool.false_eq_true] <;> rfl
      simp only [message, define, undef, if_false, Bool.false_eq_true]
      by_cases included :
          isInclude (directiveName marker.body) (trim (directiveRest marker.body)) = true
      · simp only [included, if_true]
      simp only [included, if_false, Bool.false_eq_true]
      generalize directiveSwitch _ _ _ = change
      cases change <;> rfl

/-- A directive of dead text that is not in a nested conditional. -/
theorem goes_dead_directive {marker : Marker} (valid : marker.piece.Valid none)
    {control after : Control} (dead : control.skipDepth = some 0) (after_eq : control.onDeadDirective 0 marker.body = after)
    (z : Text) (tokens : List (TokenKind × Text)) :
    Goes opts allow ⟨control, marker.piece.text ++ z, tokens⟩ ⟨after, z, tokens⟩ := by
  subst after_eq
  have skip_eq : skipTurn opts ⟨control, marker.piece.text ++ z, tokens⟩ 0 =
      ⟨control.onDeadDirective 0 marker.body, z, tokens⟩ :=
    skipTurn_directive valid control z tokens 0
  refine .of_turn ?_
  simp only [turn, dead, skip_eq]

/-- The end of a conditional in a dead branch. -/
theorem goes_dead_closing {marker : Marker} (valid : marker.piece.Valid none)
    (closes : closesConditional marker.body = true) (output : Output) (env : Env)
    (conditionals : List (Bool × Bool)) (z : Text) :
    Goes opts allow (facing output env conditionals (some 0) (marker.piece.text ++ z))
      (facing output env conditionals.tail none z) := by
  refine goes_dead_directive valid rfl ?_ z output.tokens
  rw [closesConditional, beq_iff_eq] at closes
  simp only [Control.onDeadDirective, splitDirectiveBody, closes]
  rfl

/-- `{$ELSE}` selects its branch when none has been taken. -/
theorem goes_dead_else {marker : Marker} (valid : marker.piece.Valid none)
    (name : marker.name = "else".toList) (output : Output) (env : Env) (taken : Bool)
    (outer : List (Bool × Bool)) (z : Text) :
    Goes opts allow (facing output env ((taken, false) :: outer) (some 0) (marker.piece.text ++ z))
      (facing output env ((true, true) :: outer) (if taken then some 0 else none) z) := by
  refine goes_dead_directive valid rfl ?_ z output.tokens
  rw [Marker.name] at name
  simp only [Control.onDeadDirective, splitDirectiveBody, name]
  rfl

/-- `{$ELSEIF}` selects its branch when none has been taken and its condition holds. -/
theorem goes_dead_elseIf {marker : Marker} (valid : marker.piece.Valid none)
    (name : marker.name = "elseif".toList) (output : Output) (env : Env) (taken : Bool)
    (outer : List (Bool × Bool)) (z : Text) :
    Goes opts allow (facing output env ((taken, false) :: outer) (some 0) (marker.piece.text ++ z))
      (facing output env ((taken || env.holds marker.body, false) :: outer)
        (if !taken && env.holds marker.body then none else some 0) z) := by
  refine goes_dead_directive valid rfl ?_ z output.tokens
  rw [Marker.name] at name
  have holds_eq : env.holds marker.body = env.symbol true (trim (directiveRest marker.body)) := by
    simp only [Env.holds, splitDirectiveBody, name]
    rfl
  rw [holds_eq]
  simp only [Control.onDeadDirective, splitDirectiveBody, name]
  cases taken with
  | true => rfl
  | false =>
      cases holds : env.symbol true (trim (directiveRest marker.body)) <;>
        simp only [Env.symbol] at holds <;>
        simp only [Control.deadAlternative, Control.symbolCondition, Control.isDefined, holds] <;> rfl

end Reader

namespace Reader

variable {opts : LangOptions} {allow : Nat → Bool}

/-- How many conditionals the reader has found open. -/
def opened (reader : Reader) : Nat :=
  reader.control.conditionals.length + reader.control.skipDepth.getD 0

/-- In front of every directive of a text as many conditionals have been found open as are open in
the text. -/
def Counts (opts : LangOptions) (allow : Nat → Bool) (start : Reader) (pieces : List Piece)
    (x : Text) : Prop :=
  ∀ front braced body back, pieces = front ++ .directive braced body :: back →
    ∃ reader, Goes opts allow start reader ∧
      reader.rest = textOf (.directive braced body :: back) ++ x ∧
      nesting start.opened front = some reader.opened

/-- The reader comes to the end of a text, and counts the conditionals on its way. -/
structure Passes (opts : LangOptions) (allow : Nat → Bool) (start : Reader) (pieces : List Piece)
    (x : Text) (after : Reader) : Prop where
  goes : Goes opts allow start after
  nests : nesting start.opened pieces = some after.opened
  counts : Counts opts allow start pieces x

theorem Passes.append {start middle after : Reader} {early late : List Piece} {x : Text}
    (first : Passes opts allow start early (textOf late ++ x) middle)
    (second : Passes opts allow middle late x after) :
    Passes opts allow start (early ++ late) x after := by
  refine ⟨first.goes.trans second.goes, by rw [nesting_append, first.nests]; exact second.nests, ?_⟩
  intro front braced body back pieces_eq
  rcases List.append_eq_append_iff.mp pieces_eq with ⟨between, rfl, late_eq⟩ | ⟨between, rfl, back_eq⟩
  · obtain ⟨reader, further, rest_eq, count⟩ := second.counts between braced body back late_eq
    refine ⟨reader, first.goes.trans further, rest_eq, ?_⟩
    rw [nesting_append, first.nests]
    exact count
  · cases between with
    | nil =>
        obtain ⟨reader, further, rest_eq, count⟩ := second.counts [] braced body back back_eq.symm
        refine ⟨reader, first.goes.trans further, rest_eq, ?_⟩
        rw [← List.append_nil front, first.nests]
        exact count
    | cons piece between =>
        obtain ⟨rfl, rfl⟩ := List.cons.inj back_eq
        obtain ⟨reader, reached, rest_eq, count⟩ := first.counts front braced body between rfl
        refine ⟨reader, reached, ?_, count⟩
        rw [rest_eq]
        simp

/-- Live text without directives. -/
theorem Passes.plain {start after : Reader} {pieces : List Piece} {x : Text}
    (plain : ∀ piece ∈ pieces, piece.Plain) (goes : Goes opts allow start after)
    (same : after.opened = start.opened) : Passes opts allow start pieces x after := by
  refine ⟨goes, by rw [same]; exact nesting_plain plain _, ?_⟩
  rintro front braced body back rfl
  exact (plain (.directive braced body) (by simp)).elim

/-- A directive. -/
theorem Passes.marker {start after : Reader} {marker : Marker} {x : Text}
    (goes : Goes opts allow start after) (rest_eq : start.rest = marker.piece.text ++ x)
    (step_eq : nestingStep start.opened marker.body = some after.opened) :
    Passes opts allow start [marker.piece] x after := by
  refine ⟨goes, by rw [nesting_marker, step_eq]; rfl, fun front braced body back pieces_eq => ?_⟩
  obtain ⟨rfl, piece_eq, rfl⟩ : front = [] ∧ marker.piece = .directive braced body ∧ back = [] := by
    cases front with
    | nil => simpa using pieces_eq
    | cons piece front => simp at pieces_eq
  exact ⟨start, .refl start, by rw [rest_eq, piece_eq]; simp, rfl⟩

/-- A directive in front of a text. -/
theorem Passes.cons {start middle after : Reader} {marker : Marker} {pieces : List Piece} {x : Text}
    (first : Passes opts allow start [marker.piece] (textOf pieces ++ x) middle)
    (rest : Passes opts allow middle pieces x after) :
    Passes opts allow start (marker.piece :: pieces) x after :=
  first.append rest

/-- A region that is not selected. -/
theorem passes_dead (turbo : opts.turbo = true) {region : Region} (nested : region.WellNested)
    (lexical : Lexical region.pieces) (unnoticed : Unnoticed region.pieces) (output : Output)
    (env : Env) (conditionals : List (Bool × Bool)) {x : Text} (stops : StopsToken x) :
    Passes opts allow (facing output env conditionals (some 0) (textOf region.pieces ++ x))
      region.pieces x (facing output env conditionals (some 0) x) := by
  have balanced := region.nesting_pieces nested 0
  refine ⟨goes_dead turbo lexical unnoticed balanced output env conditionals stops,
    region.nesting_pieces nested _, fun front braced body back pieces_eq => ?_⟩
  rw [pieces_eq] at balanced lexical unnoticed ⊢
  rw [nesting_append] at balanced
  obtain ⟨inner, nests, _⟩ := Option.bind_eq_some_iff.mp balanced
  have stops_back : StopsToken (textOf (.directive braced body :: back) ++ x) := by
    rw [textOf_cons, List.append_assoc]
    exact stopsToken_directive braced body _
  refine ⟨facing output env conditionals (some inner) (textOf (.directive braced body :: back) ++ x),
    ?_, rfl, nesting_add nests conditionals.length⟩
  rw [textOf_append, List.append_assoc]
  exact goes_dead turbo lexical.front (unnoticed.mono (List.subset_append_left ..)) nests output env
    conditionals stops_back

/-- The branches behind the one that has been taken are not selected. -/
theorem passes_taken (turbo : opts.turbo = true) {more : Branches} (nested : more.WellNested)
    (lexical : Lexical more.pieces) (unnoticed : Unnoticed more.pieces) (output : Output) (env : Env)
    (outer : List (Bool × Bool)) (live : Bool) (x : Text) :
    Passes opts allow
      (facing output env ((true, false) :: outer) (if live then none else some 0)
        (textOf more.pieces ++ x))
      more.pieces x (facing output env outer none x) := by
  have count (rest : Text) : (facing output env ((true, false) :: outer)
      (if live then none else some 0) rest).opened = outer.length + 1 := by
    cases live <;> rfl
  match more, nested with
  | .endif marker, closes =>
      have valid : marker.piece.Valid none := lexical.1
      simp only [Branches.pieces, textOf_cons, textOf_nil, List.append_nil]
      refine .marker ?_ rfl ((count _).symm ▸ nestingStep_closing closes _)
      cases live with
      | true => exact goes_closing turbo valid closes output env _ x
      | false => exact goes_dead_closing valid closes output env _ x
  | .elseIf marker branch more, ⟨name, branch_nested, more_nested⟩ =>
      obtain ⟨valid, lexical⟩ := lexical
      have in_branch : branch.pieces ⊆ (Branches.elseIf marker branch more).pieces :=
        fun piece member => by simp [Branches.pieces, member]
      have in_more : more.pieces ⊆ (Branches.elseIf marker branch more).pieces :=
        fun piece member => by simp [Branches.pieces, member]
      simp only [Branches.pieces, textOf_cons, textOf_append, List.append_assoc]
      refine .cons (.marker ?_ (by simp [facing])
        ((count _).symm ▸ nestingStep_alternative (.inr name) _)) <|
        .append (passes_dead turbo branch_nested lexical.front (unnoticed.mono in_branch) output env
          ((true, false) :: outer) (more.stopsToken x))
        (passes_taken turbo more_nested (lexical.suffix (List.suffix_append ..))
          (unnoticed.mono in_more) output env outer false x)
      cases live with
      | true => exact goes_leaving turbo valid.weaken false name output env outer _
      | false => exact goes_dead_elseIf valid.weaken name output env true outer _
  | .otherwise marker branch closing, ⟨name, branch_nested, closes⟩ =>
      obtain ⟨valid, lexical⟩ := lexical
      have in_branch : branch.pieces ⊆ (Branches.otherwise marker branch closing).pieces :=
        fun piece member => by simp [Branches.pieces, member]
      have closing_valid : closing.piece.Valid none := (lexical.suffix (List.suffix_append ..)).1
      have at_end : StopsToken (textOf [closing.piece] ++ x) := by
        rw [textOf_marker]
        exact stopsToken_marker closing x
      have closed : Passes opts allow
          (facing output env ((true, true) :: outer) (some 0) (textOf [closing.piece] ++ x))
          [closing.piece] x (facing output env outer none x) := by
        rw [textOf_marker]
        exact .marker (goes_dead_closing closing_valid closes output env _ x) rfl
          (nestingStep_closing closes outer.length)
      have rest := (passes_dead turbo branch_nested lexical.front (unnoticed.mono in_branch) output
        env ((true, true) :: outer) at_end).append closed
      rw [Branches.pieces, textOf_cons, textOf_append, List.append_assoc, List.append_assoc]
      refine .cons (.marker ?_ (by simp [facing])
        ((count _).symm ▸ nestingStep_alternative (.inl name) _)) rest
      cases live with
      | true => exact goes_leaving turbo valid.weaken true name output env outer _
      | false => exact goes_dead_else valid.weaken name output env true outer _

end Reader

end Plang
