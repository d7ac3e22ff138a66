import Plang.Lex.DeadBranch

/-!
# Conditional text

A text whose conditionals are well nested is a tree.  Its meaning is the text of the selected
regions: a conditional selects its first branch whose condition holds under the symbols and switches
in force there, or else its `{$ELSE}`, or nothing.
-/

namespace Plang

/-- A directive of the tree. -/
structure Marker where
  /-- The directive stands between braces, not between `(*` and `*)`. -/
  braced : Bool
  /-- The text between the delimiters. -/
  body : Text

/-- Its spelling. -/
def Marker.piece (marker : Marker) : Piece := .directive marker.braced marker.body

/-- The name of the directive, in lower case. -/
def Marker.name (marker : Marker) : Text := toLower (directiveName marker.body)

mutual

/-- A text with conditionals. -/
inductive Region where
  | plain (pieces : List Piece)
  | directive (pieces : List Piece) (marker : Marker) (rest : Region)
  | conditional (pieces : List Piece) (opening : Marker) (branch : Region) (more : Branches)
      (rest : Region)

/-- The branches that follow one of a conditional, up to its end. -/
inductive Branches where
  | endif (marker : Marker)
  | elseIf (marker : Marker) (branch : Region) (more : Branches)
  | otherwise (marker : Marker) (branch : Region) (closing : Marker)

end

mutual

/-- The pieces of the whole text. -/
def Region.pieces : Region → List Piece
  | .plain pieces => pieces
  | .directive pieces marker rest => pieces ++ marker.piece :: rest.pieces
  | .conditional pieces opening branch more rest =>
      pieces ++ opening.piece :: (branch.pieces ++ (more.pieces ++ rest.pieces))

/-- The pieces up to the end of the conditional. -/
def Branches.pieces : Branches → List Piece
  | .endif marker => [marker.piece]
  | .elseIf marker branch more => marker.piece :: (branch.pieces ++ more.pieces)
  | .otherwise marker branch closing => marker.piece :: (branch.pieces ++ [closing.piece])

end

mutual

/-- The directives are where the tree has them, and nowhere else. -/
def Region.WellNested : Region → Prop
  | .plain pieces => ∀ piece ∈ pieces, piece.Plain
  | .directive pieces marker rest =>
      (∀ piece ∈ pieces, piece.Plain) ∧ isBranching marker.body = false ∧ rest.WellNested
  | .conditional pieces opening branch more rest =>
      (∀ piece ∈ pieces, piece.Plain) ∧ opensConditional opening.body = true ∧ branch.WellNested ∧
        more.WellNested ∧ rest.WellNested

/-- The directives of a conditional behind its first branch. -/
def Branches.WellNested : Branches → Prop
  | .endif marker => closesConditional marker.body = true
  | .elseIf marker branch more =>
      marker.name = "elseif".toList ∧ branch.WellNested ∧ more.WellNested
  | .otherwise marker branch closing =>
      marker.name = "else".toList ∧ branch.WellNested ∧ closesConditional closing.body = true

end

/-- The defines and switches that conditions depend on. -/
structure Env where
  /-- The defined symbols. -/
  defines : List Text
  /-- The switches. -/
  switches : CompilerState

namespace Env

/-- A symbol is defined, or is not; what is no symbol is neither. -/
def symbol (env : Env) (wanted : Bool) (argument : Text) : Bool :=
  looksLikeIdentifier argument && env.defines.contains (toLower argument) == wanted

/-- The condition of a directive holds. -/
def holds (env : Env) (body : Text) : Bool :=
  let (name, argument, _) := splitDirectiveBody body
  if toLower name = "ifndef".toList then env.symbol false argument
  else if toLower name = "ifopt".toList then
    (ifoptSwitch argument).any fun asked => env.switches.on asked.1 == asked.2
  else env.symbol true argument

/-- Set switches one after the other. -/
def setSwitches (env : Env) (changes : List (Switch × Bool)) : Env :=
  { env with
    switches := changes.foldl (fun state change => state.set change.1 change.2) env.switches }

/-- The effect of a directive that is not part of a conditional. -/
def apply (env : Env) (body : Text) : Env :=
  let (name, argument, adjacent) := splitDirectiveBody body
  match multiSwitches body with
  | some changes => env.setSwitches changes
  | none =>
      if MessageDirectives.any fun entry => entry.1.toList == toLower name then env
      else if toLower name = "define".toList then
        if looksLikeIdentifier argument then
          { env with defines := toLower argument :: env.defines }
        else env
      else if toLower name = "undef".toList then
        if looksLikeIdentifier argument then
          { env with defines := env.defines.filter (· != toLower argument) }
        else env
      else if isInclude name argument then env
      else
        match directiveSwitch name argument adjacent with
        | some change => env.setSwitches [change]
        | none => env

end Env

mutual

/-- The text of the selected regions, with line breaks in the places of the conditionals, and what is
in force behind it. -/
def Region.selected (env : Env) : Region → Text × Env
  | .plain pieces => (textOf pieces, env)
  | .directive pieces marker rest =>
      let (text, after) := rest.selected (env.apply marker.body)
      (textOf pieces ++ (marker.piece.text ++ text), after)
  | .conditional pieces opening branch more rest =>
      let (chosen, inner) :=
        if env.holds opening.body then branch.selected env else more.selected env
      let (text, after) := rest.selected inner
      (textOf pieces ++ ('\n' :: (chosen ++ '\n' :: text)), after)

/-- The branch that is selected when none of the branches before has been. -/
def Branches.selected (env : Env) : Branches → Text × Env
  | .endif _ => ([], env)
  | .elseIf marker branch more =>
      if env.holds marker.body then branch.selected env else more.selected env
  | .otherwise _ branch _ => branch.selected env

end

/-- The raw scan takes no notice of the comments of a text. -/
structure Unnoticed (pieces : List Piece) : Prop where
  quiet : QuietPieces pieces
  keep_out : CommentsKeepOut pieces

mutual

/-- The raw scan takes no notice of the comments of the regions that are not selected. -/
def Region.Skippable (env : Env) : Region → Prop
  | .plain _ => True
  | .directive _ marker rest => rest.Skippable (env.apply marker.body)
  | .conditional _ opening branch more rest =>
      if env.holds opening.body then
        branch.Skippable env ∧ Unnoticed more.pieces ∧ rest.Skippable (branch.selected env).2
      else
        Unnoticed branch.pieces ∧ more.Skippable env ∧ rest.Skippable (more.selected env).2

/-- The branches can be skipped, behind branches none of which has been selected. -/
def Branches.Skippable (env : Env) : Branches → Prop
  | .endif _ => True
  | .elseIf marker branch more =>
      if env.holds marker.body then branch.Skippable env ∧ Unnoticed more.pieces
      else Unnoticed branch.pieces ∧ more.Skippable env
  | .otherwise _ branch _ => branch.Skippable env

end

theorem nesting_plain {pieces : List Piece} (plain : ∀ piece ∈ pieces, piece.Plain) (depth : Nat) :
    nesting depth pieces = some depth := by
  induction pieces with
  | nil => rfl
  | cons piece pieces induction =>
      have rest := induction fun other member => plain other (List.mem_cons_of_mem piece member)
      cases piece with
      | directive braced body => exact (plain _ List.mem_cons_self).elim
      | _ => exact rest

theorem nesting_marker (marker : Marker) (depth : Nat) (pieces : List Piece) :
    nesting depth (marker.piece :: pieces) =
      (nestingStep depth marker.body).bind fun inner => nesting inner pieces := rfl

theorem nestingStep_closing {body : Text} (closes : closesConditional body = true) (depth : Nat) :
    nestingStep (depth + 1) body = some depth := by
  have not_opens : opensConditional body = false := by
    rw [closesConditional, beq_iff_eq] at closes
    simp [opensConditional, closes]
  simp [nestingStep, not_opens, closes]

theorem nestingStep_alternative {body : Text}
    (name : toLower (directiveName body) = "else".toList ∨
      toLower (directiveName body) = "elseif".toList)
    (depth : Nat) : nestingStep (depth + 1) body = some (depth + 1) := by
  have not_opens : opensConditional body = false := by
    rcases name with name | name <;> simp [opensConditional, name]
  have not_closes : closesConditional body = false := by
    rcases name with name | name <;> simp [closesConditional, name]
  simp [nestingStep, not_opens, not_closes]

theorem nestingStep_of_not_branching {body : Text} (not_branching : isBranching body = false)
    (depth : Nat) : nestingStep depth body = some depth := by
  have not_opens : opensConditional body = false := by
    by_contra opens
    simp [isBranching, opens] at not_branching
  have not_closes : closesConditional body = false := by
    by_contra closes
    simp [isBranching, closes] at not_branching
  simp [nestingStep, not_opens, not_closes, not_branching]

/-- Conditionals that are open around a text stay open. -/
theorem nesting_add {pieces : List Piece} {depth inner : Nat}
    (nests : nesting depth pieces = some inner) (outer : Nat) :
    nesting (outer + depth) pieces = some (outer + inner) := by
  induction pieces generalizing depth with
  | nil =>
      obtain rfl := Option.some.inj nests
      rfl
  | cons piece pieces induction =>
      cases piece with
      | directive braced body =>
          obtain ⟨next, step_eq, nests⟩ := Option.bind_eq_some_iff.mp nests
          have step_add : nestingStep (outer + depth) body = some (outer + next) := by
            unfold nestingStep at step_eq ⊢
            split_ifs at step_eq with opens not_own closes <;> obtain rfl := Option.some.inj step_eq
            · rw [if_pos opens, Nat.add_assoc]
            · have depth_pos : 0 < depth := by
                simp only [isBranching, closes, Bool.or_true, Bool.true_or, Bool.true_and,
                  beq_iff_eq] at not_own
                omega
              rw [if_neg opens, if_neg (by simp; omega), if_pos closes, Nat.add_sub_assoc depth_pos]
            · rw [if_neg opens, if_neg ?_, if_neg closes]
              simp only [Bool.and_eq_true, beq_iff_eq, not_and] at not_own ⊢
              intro branching
              have := not_own branching
              omega
          rw [nesting, step_add]
          exact induction nests
      | _ => exact induction nests

mutual

/-- The conditionals of a region are closed in it. -/
theorem Region.nesting_pieces {region : Region} (nested : region.WellNested) (depth : Nat) :
    nesting depth region.pieces = some depth := by
  match region, nested with
  | .plain pieces, plain => exact nesting_plain plain depth
  | .directive pieces marker rest, ⟨plain, not_branching, rest_nested⟩ =>
      rw [Region.pieces, nesting_append, nesting_plain plain, Option.bind_some, nesting_marker,
        nestingStep_of_not_branching not_branching]
      exact rest.nesting_pieces rest_nested depth
  | .conditional pieces opening branch more rest,
      ⟨plain, opens, branch_nested, more_nested, rest_nested⟩ =>
      have step_eq : nestingStep depth opening.body = some (depth + 1) := by
        simp [nestingStep, opens]
      rw [Region.pieces, nesting_append, nesting_plain plain, Option.bind_some, nesting_marker,
        step_eq, Option.bind_some, nesting_append, branch.nesting_pieces branch_nested, Option.bind_some,
        nesting_append, more.nesting_pieces more_nested]
      exact rest.nesting_pieces rest_nested depth

/-- The branches end the conditional they belong to. -/
theorem Branches.nesting_pieces {more : Branches} (nested : more.WellNested) (depth : Nat) :
    nesting (depth + 1) more.pieces = some depth := by
  match more, nested with
  | .endif marker, closes =>
      rw [Branches.pieces, nesting_marker, nestingStep_closing closes]
      rfl
  | .elseIf marker branch more, ⟨name, branch_nested, more_nested⟩ =>
      rw [Branches.pieces, nesting_marker, nestingStep_alternative (.inr name),
        Option.bind_some, nesting_append, branch.nesting_pieces branch_nested]
      exact more.nesting_pieces more_nested depth
  | .otherwise marker branch closing, ⟨name, branch_nested, closes⟩ =>
      rw [Branches.pieces, nesting_marker, nestingStep_alternative (.inl name),
        Option.bind_some, nesting_append, branch.nesting_pieces branch_nested, Option.bind_some,
        nesting_marker, nestingStep_closing closes]
      rfl

end

theorem Unnoticed.mono {pieces part : List Piece} (unnoticed : Unnoticed pieces)
    (subset : part ⊆ pieces) : Unnoticed part :=
  ⟨fun braced body member => unnoticed.quiet braced body (subset member),
    fun braced body member => unnoticed.keep_out braced body (subset member)⟩

theorem stopsToken_marker (marker : Marker) (rest : Text) : StopsToken (marker.piece.text ++ rest) :=
  stopsToken_directive marker.braced marker.body rest

theorem textOf_marker (marker : Marker) : textOf [marker.piece] = marker.piece.text := by simp

theorem Branches.stopsToken (more : Branches) (x : Text) : StopsToken (textOf more.pieces ++ x) := by
  cases more <;>
    simp only [Branches.pieces, textOf_cons, List.append_assoc] <;>
    exact stopsToken_marker _ _

mutual

/-- Selecting brings in line breaks only. -/
theorem Region.mem_selected {region : Region} {env : Env} {c : Char}
    (member : c ∈ (region.selected env).1) : c ∈ textOf region.pieces ∨ c = '\n' := by
  match region with
  | .plain pieces => exact .inl member
  | .directive pieces marker rest =>
      simp only [Region.selected, Region.pieces, List.mem_append, textOf_append, textOf_cons]
        at member ⊢
      rcases member with early | here | late
      · exact .inl (.inl early)
      · exact .inl (.inr (.inl here))
      · exact (rest.mem_selected late).imp_left fun later => .inr (.inr later)
  | .conditional pieces opening branch more rest =>
      simp only [Region.selected, Region.pieces, List.mem_append, List.mem_cons, textOf_append,
        textOf_cons] at member ⊢
      rcases member with early | rfl | chosen | rfl | late
      · exact .inl (.inl early)
      · exact .inr rfl
      · split at chosen
        case isTrue =>
          exact (branch.mem_selected chosen).imp_left fun inside => .inr (.inr (.inl inside))
        case isFalse =>
          exact (more.mem_selected chosen).imp_left fun inside => .inr (.inr (.inr (.inl inside)))
      · exact .inr rfl
      · exact (rest.mem_selected late).imp_left fun later => .inr (.inr (.inr (.inr later)))

theorem Branches.mem_selected {more : Branches} {env : Env} {c : Char}
    (member : c ∈ (more.selected env).1) : c ∈ textOf more.pieces ∨ c = '\n' := by
  match more with
  | .endif marker => cases member
  | .elseIf marker branch more =>
      simp only [Branches.selected, Branches.pieces, List.mem_append, textOf_append, textOf_cons]
        at member ⊢
      split at member
      case isTrue => exact (branch.mem_selected member).imp_left fun inside => .inr (.inl inside)
      case isFalse => exact (more.mem_selected member).imp_left fun inside => .inr (.inr inside)
  | .otherwise marker branch closing =>
      simp only [Branches.selected, Branches.pieces, List.mem_append, textOf_append, textOf_cons]
        at member ⊢
      exact (branch.mem_selected member).imp_left fun inside => .inr (.inl inside)

end

/-- The defines and switches that the options set. -/
def Env.initial (opts : LangOptions) : Env := ⟨opts.defines.map toLower, opts.defaultSwitches⟩

end Plang
