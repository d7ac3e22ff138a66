import Plang.Parse.NameSets

/-!
# Scopes and the parser's name sets

What a name means by Pascal's scopes, beside what has been written of it: the parser's sets are a
record of what has been written outside routines that have ended, and of nothing else.
-/

namespace Plang

namespace Parse

open Expressions (Context headKind Ambiguous)

/-- The kinds of things that a name is declared as. -/
inductive NameKind where
  | type
  /-- A variable, a parameter or a field. -/
  | variable
  /-- A formal parameter of a method heading, of a procedural type or of a procedural parameter. -/
  | formal
  /-- A tag field, a bound of a conformant array, a procedural parameter or a method. -/
  | unlisted
  /-- A constant or a routine. -/
  | constant
  deriving DecidableEq

/-- A declaration; the name is in lower case. -/
structure Decl where
  name : Text
  kind : NameKind
  deriving DecidableEq

/-- The declarations of some names. -/
def decls (kind : NameKind) (names : List Text) : List Decl :=
  names.map fun name => ⟨toLower name, kind⟩

/-- The declarations that are visible, the innermost ones first, and all that have been written
outside routines that have ended. -/
structure Scope where
  /-- Those of the records, headings and `with` statements in whose text we are. -/
  inner : List Decl
  /-- Those of the blocks. -/
  block : List Decl
  written : List Decl

namespace Scope

/-- Names declared in the block. -/
def intoBlock (scope : Scope) (kind : NameKind) (names : List Text) : Scope :=
  { scope with
    block := decls kind names ++ scope.block
    written := decls kind names ++ scope.written }

/-- Names declared in a record or a heading. -/
def intoInner (scope : Scope) (kind : NameKind) (names : List Text) : Scope :=
  { scope with
    inner := decls kind names ++ scope.inner
    written := decls kind names ++ scope.written }

/-- Parameters: those of a routine belong to its block, those of a heading to the heading. -/
def intoList (scope : Scope) (heading : Bool) (kind : NameKind) (names : List Text) : Scope :=
  if heading then scope.intoInner kind names else scope.intoBlock kind names

/-- Names that become visible and are not written here. -/
def opening (scope : Scope) (names : List Text) : Scope :=
  { scope with inner := decls .variable names ++ scope.inner }

/-- The text of a record, a heading or a `with` statement has ended. -/
def leaving (scope : Scope) (before : Scope) : Scope := { scope with inner := before.inner }

theorem written_opening (scope : Scope) (names : List Text) :
    (scope.opening names).written = scope.written := rfl

theorem written_leaving (scope before : Scope) :
    (scope.leaving before).written = scope.written := rfl

/-- The innermost declaration of a name. -/
def visible (scope : Scope) (name : Text) : Option Decl :=
  (scope.inner ++ scope.block).find? fun decl => decl.name = toLower name

/-- The scope a program begins in. -/
def initial (opts : LangOptions) : Scope where
  inner := []
  block := if opts.turbo then decls .type predefinedTypes else []
  written := if opts.turbo then decls .type predefinedTypes else []

end Scope

/-- A bracket that follows a name, where it stands. -/
structure Occurrence where
  name : Text
  /-- The tokens from the bracket on. -/
  tokens : List Expressions.Token
  scope : Scope

mutual

/-- The scope after a piece, and the brackets in it; `heading` tells whether parameters are those of
a heading. -/
def walkPiece (opts : LangOptions) (heading : Bool) (scope : Scope) :
    Piece → Scope × List Occurrence
  | .typeDef name discriminants denoter =>
      let (left, found) := walkPieces opts heading
        ((scope.intoBlock .type [name]).opening discriminants) denoter
      (left.leaving scope, found)
  | .constDef name value =>
      walkPieces opts heading
        { scope with block := decls .constant [name] ++ scope.block } value
  | .varGroup names denoter => walkPieces opts heading (scope.intoBlock .variable names) denoter
  | .paramGroup names denoter =>
      walkPieces opts heading
        (scope.intoList heading (if heading then .formal else .variable) names) denoter
  | .indexBounds names => (scope.intoList heading .unlisted names, [])
  | .procedureParamGroup name parameters =>
      let scope := scope.intoList heading .unlisted [name]
      let (left, found) := walkPieces opts true scope parameters
      (left.leaving scope, found)
  | .fieldDecl names denoter => walkPieces opts heading (scope.intoInner .variable names) denoter
  | .tagField name denoter => walkPieces opts heading (scope.intoInner .unlisted [name]) denoter
  | .structured sections =>
      let (left, found) := walkPieces opts heading scope sections
      (left.leaving scope, found)
  | .methodHeading name parameters =>
      let scope := scope.intoInner .unlisted [name]
      let (left, found) := walkPieces opts true scope parameters
      (left.leaving scope, found)
  | .procedureType parameters =>
      let (left, found) := walkPieces opts true scope parameters
      (left.leaving scope, found)
  | .procDecl name implied parameters body =>
      let declared := { scope with block := decls .constant name.toList ++ scope.block }
      let (headed, before) := walkPieces opts false
        { declared with block := decls .variable implied ++ declared.block } parameters
      let (_, after) := walkPieces opts false headed body
      (declared, before ++ after)
  | .withStmt designator opened body =>
      let (seen, before) := walkPieces opts heading scope designator
      let (left, after) := walkPieces opts heading (seen.opening opened) body
      (left.leaving seen, before ++ after)
  | .moduleDecl body =>
      let (left, found) := walkPieces opts heading scope body
      ({ left with block := scope.block }, found)
  | .usesClause types others =>
      ({ scope with
          block := decls .constant others ++ decls .type types ++ scope.block
          written := if opts.turbo then decls .type types ++ scope.written else scope.written }, [])
  | .bracketed name tokens inside =>
      let (left, found) := walkPieces opts heading scope inside
      (left, ⟨name, tokens, scope⟩ :: found)

/-- The walk over the pieces of a program, one after the other. -/
def walkPieces (opts : LangOptions) (heading : Bool) (scope : Scope) :
    List Piece → Scope × List Occurrence
  | [] => (scope, [])
  | piece :: pieces =>
      let (left, before) := walkPiece opts heading scope piece
      let (last, after) := walkPieces opts heading left pieces
      (last, before ++ after)

end

/-- The brackets of a program. -/
def occurrences (opts : LangOptions) (program : List Piece) : List Occurrence :=
  (walkPieces opts false (.initial opts) program).2

namespace Occurrence

/-- A declaration of the name has been written, of some kind. -/
def writtenAs (o : Occurrence) (kind : NameKind) : Bool :=
  o.scope.written.contains ⟨toLower o.name, kind⟩

/-- The innermost declaration of the name is a type. -/
def namesType (o : Occurrence) : Bool :=
  (o.scope.visible o.name).any fun decl => decl.kind = .type

end Occurrence

/-! ## The sets record what was written -/

/-- The sets that declarations leave. -/
def setsOf (written : List Decl) : NameSets where
  typeNames := (written.filter fun decl => decl.kind = .type).map Decl.name
  varNames := (written.filter fun decl => decl.kind = .variable ∨ decl.kind = .formal).map Decl.name

theorem filter_decls (kind : NameKind) (names : List Text) (test : NameKind → Bool) :
    ((decls kind names).filter fun decl => test decl.kind).map Decl.name =
      if test kind then names.map toLower else [] := by
  induction names with
  | nil => cases test kind <;> rfl
  | cons name names induction =>
      rw [decls, List.map_cons, List.filter_cons]
      rcases counts : test kind
      · rw [counts] at induction
        exact induction
      · rw [counts] at induction
        exact congrArg (toLower name :: ·) induction

theorem setsOf_append (kind : NameKind) (names : List Text) (written : List Decl) :
    setsOf (decls kind names ++ written) =
      { typeNames := (if kind = .type then names.map toLower else []) ++ (setsOf written).typeNames
        varNames := (if kind = .variable ∨ kind = .formal then names.map toLower else []) ++
          (setsOf written).varNames } := by
  have types := filter_decls kind names fun kind => kind = .type
  have vars := filter_decls kind names fun kind => kind = .variable ∨ kind = .formal
  simp only [decide_eq_true_eq] at types vars
  simp only [setsOf, List.filter_append, List.map_append, types, vars]

theorem setsOf_type (names : List Text) (written : List Decl) :
    setsOf (decls .type names ++ written) = (setsOf written).insertTypes names :=
  setsOf_append .type names written

theorem setsOf_variable (names : List Text) (written : List Decl) :
    setsOf (decls .variable names ++ written) = (setsOf written).insertVars names :=
  setsOf_append .variable names written

theorem setsOf_formal (names : List Text) (written : List Decl) :
    setsOf (decls .formal names ++ written) = (setsOf written).insertVars names :=
  setsOf_append .formal names written

theorem setsOf_unlisted (names : List Text) (written : List Decl) :
    setsOf (decls .unlisted names ++ written) = setsOf written :=
  setsOf_append .unlisted names written

/-- The expression parser takes a name for a type if one has been written, and nothing like a
variable. -/
theorem namesAType_setsOf (written : List Decl) (name : Text) (opts : LangOptions)
    (qualifiedModules realOutOfRange : Text → Bool) :
    ((setsOf written).context opts qualifiedModules realOutOfRange).namesAType ⟨none, name⟩ =
      (written.contains ⟨toLower name, .type⟩ &&
        !(written.contains ⟨toLower name, .variable⟩ ||
          written.contains ⟨toLower name, .formal⟩)) := by
  have types : (setsOf written).typeNames.contains (toLower name) =
      written.contains ⟨toLower name, .type⟩ := by
    rw [Bool.eq_iff_iff]
    simp only [setsOf, List.contains_iff_mem, List.mem_map, List.mem_filter, decide_eq_true_eq]
    constructor
    · rintro ⟨⟨found, kind⟩, ⟨inside, rfl⟩, rfl⟩
      exact inside
    · exact fun inside => ⟨_, ⟨inside, rfl⟩, rfl⟩
  have vars : (setsOf written).varNames.contains (toLower name) =
      (written.contains ⟨toLower name, .variable⟩ || written.contains ⟨toLower name, .formal⟩) := by
    rw [Bool.eq_iff_iff]
    simp only [setsOf, List.contains_iff_mem, List.mem_map, List.mem_filter, decide_eq_true_eq,
      Bool.or_eq_true]
    constructor
    · rintro ⟨⟨found, kind⟩, ⟨inside, rfl | rfl⟩, rfl⟩
      · exact .inl inside
      · exact .inr inside
    · rintro (inside | inside)
      · exact ⟨_, ⟨inside, .inl rfl⟩, rfl⟩
      · exact ⟨_, ⟨inside, .inr rfl⟩, rfl⟩
  exact congrArg₂ (fun type var => type && !var) types vars

/-- The parser's sets record what was written, at each bracket and at the end. -/
def Records (parsed : NameSets × List NameSets) (walked : Scope × List Occurrence) : Prop :=
  parsed = (setsOf walked.1.written, walked.2.map fun o => setsOf o.scope.written)

theorem setsOf_intoList (scope : Scope) (heading : Bool) (names : List Text) :
    setsOf (scope.intoList heading (if heading then .formal else .variable) names).written =
      (setsOf scope.written).insertVars names := by
  rcases heading
  · exact setsOf_variable names scope.written
  · exact setsOf_formal names scope.written

theorem setsOf_intoList_unlisted (scope : Scope) (heading : Bool) (names : List Text) :
    setsOf (scope.intoList heading .unlisted names).written = setsOf scope.written := by
  rcases heading <;> exact setsOf_unlisted names scope.written

variable (opts : LangOptions)

mutual

theorem parsePiece_records (heading : Bool) (scope : Scope) (piece : Piece) :
    Records (parsePiece opts (setsOf scope.written) piece)
      (walkPiece opts heading scope piece) := by
  cases piece with
  | typeDef name discriminants denoter =>
      have inside := parsePieces_records heading
        ((scope.intoBlock .type [name]).opening discriminants) denoter
      rw [parsePiece, walkPiece, ← setsOf_type]
      exact inside
  | constDef name value =>
      rw [parsePiece, walkPiece]
      exact parsePieces_records heading
        { scope with block := decls .constant [name] ++ scope.block } value
  | varGroup names denoter =>
      rw [parsePiece, walkPiece, ← setsOf_variable]
      exact parsePieces_records heading (scope.intoBlock .variable names) denoter
  | paramGroup names denoter =>
      rw [parsePiece, walkPiece, ← setsOf_intoList scope heading]
      exact parsePieces_records heading _ denoter
  | indexBounds names =>
      rw [parsePiece, walkPiece, ← setsOf_intoList_unlisted scope heading names]
      rfl
  | procedureParamGroup name parameters =>
      rw [parsePiece, walkPiece, ← setsOf_intoList_unlisted scope heading [name]]
      exact parsePieces_records true (scope.intoList heading .unlisted [name]) parameters
  | fieldDecl names denoter =>
      rw [parsePiece, walkPiece, ← setsOf_variable]
      exact parsePieces_records heading (scope.intoInner .variable names) denoter
  | tagField name denoter =>
      rw [parsePiece, walkPiece, ← setsOf_unlisted [name]]
      exact parsePieces_records heading (scope.intoInner .unlisted [name]) denoter
  | structured sections =>
      rw [parsePiece, walkPiece]
      exact parsePieces_records heading scope sections
  | methodHeading name parameters =>
      rw [parsePiece, walkPiece, ← setsOf_unlisted [name]]
      exact parsePieces_records true (scope.intoInner .unlisted [name]) parameters
  | procedureType parameters =>
      rw [parsePiece, walkPiece]
      exact parsePieces_records true scope parameters
  | procDecl name implied parameters body =>
      rw [Records, parsePiece, walkPiece]
      generalize decls .variable implied ++ (decls .constant name.toList ++ scope.block) = block
      have headed := parsePieces_records false { scope with block } parameters
      rw [Records] at headed
      simp only at headed
      have inside := parsePieces_records false
        (walkPieces opts false { scope with block } parameters).1 body
      rw [Records] at inside
      simp only [headed, inside, List.map_append]
  | withStmt designator opened body =>
      have seen := parsePieces_records heading scope designator
      have inside := parsePieces_records heading
        ((walkPieces opts heading scope designator).1.opening opened) body
      rw [Records] at seen inside
      rw [Scope.written_opening] at inside
      rw [Records, parsePiece, walkPiece, seen]
      simp only [inside, Scope.written_leaving, List.map_append]
  | moduleDecl body =>
      rw [parsePiece, walkPiece]
      exact parsePieces_records heading scope body
  | usesClause types others =>
      rw [Records, parsePiece, walkPiece]
      rcases opts.turbo
      · rfl
      · exact congrArg (·, []) (setsOf_type types scope.written).symm
  | bracketed name tokens inside =>
      have within := parsePieces_records heading scope inside
      rw [Records] at within
      rw [Records, parsePiece, walkPiece, within]
      rfl

theorem parsePieces_records (heading : Bool) (scope : Scope) (pieces : List Piece) :
    Records (parsePieces opts (setsOf scope.written) pieces)
      (walkPieces opts heading scope pieces) := by
  cases pieces with
  | nil => rfl
  | cons piece pieces =>
      have first := parsePiece_records heading scope piece
      have rest := parsePieces_records heading (walkPiece opts heading scope piece).1 pieces
      rw [Records] at first rest
      rw [Records, parsePieces, walkPieces, first]
      simp only [rest, List.map_append]

end

/-! ## What is visible was written -/

/-- Every visible type has been written. -/
def Scope.Known (scope : Scope) : Prop :=
  ∀ decl ∈ scope.inner ++ scope.block, decl.kind = .type → decl ∈ scope.written

theorem kind_of_mem_decls {kind : NameKind} {names : List Text} {decl : Decl}
    (inside : decl ∈ decls kind names) : decl.kind = kind := by
  obtain ⟨name, -, rfl⟩ := List.mem_map.mp inside
  rfl

namespace Scope.Known

variable {scope : Scope}

/-- More names became visible, and the types among them were written. -/
theorem more (known : scope.Known) (inner block written : List Decl)
    (new : ∀ decl ∈ inner ++ block, decl.kind = .type → decl ∈ written) :
    Known ⟨inner ++ scope.inner, block ++ scope.block, written ++ scope.written⟩ := by
  intro decl inside kind
  simp only [List.mem_append] at inside new ⊢
  rcases inside with (inside | inside) | inside | inside
  · exact .inl (new decl (.inl inside) kind)
  · exact .inr (known decl (List.mem_append_left _ inside) kind)
  · exact .inl (new decl (.inr inside) kind)
  · exact .inr (known decl (List.mem_append_right _ inside) kind)

theorem intoBlock (known : scope.Known) (kind : NameKind) (names : List Text) :
    (scope.intoBlock kind names).Known :=
  known.more [] (decls kind names) (decls kind names) fun _ inside _ => inside

theorem intoInner (known : scope.Known) (kind : NameKind) (names : List Text) :
    (scope.intoInner kind names).Known :=
  known.more (decls kind names) [] (decls kind names) fun _ inside _ => by
    rwa [List.append_nil] at inside

theorem intoList (known : scope.Known) (heading : Bool) (kind : NameKind) (names : List Text) :
    (scope.intoList heading kind names).Known := by
  rcases heading
  · exact known.intoBlock kind names
  · exact known.intoInner kind names

theorem opening (known : scope.Known) (names : List Text) : (scope.opening names).Known :=
  known.more (decls .variable names) [] [] fun _ inside kind => by
    rw [List.append_nil] at inside
    rw [kind_of_mem_decls inside] at kind
    cases kind

/-- Names that are no types became visible in the block. -/
theorem others (known : scope.Known) {kind : NameKind} (no_type : kind ≠ .type)
    (names : List Text) : Known { scope with block := decls kind names ++ scope.block } :=
  known.more [] (decls kind names) [] fun _ inside is_type =>
    absurd ((kind_of_mem_decls inside).symm.trans is_type) no_type

/-- Back in the text around, with what was written meanwhile. -/
theorem back (known : scope.Known) {left : Scope} (known_left : left.Known)
    (written : scope.written ⊆ left.written) :
    (left.leaving scope).Known ∧ Known { left with block := scope.block } := by
  constructor
  · intro decl inside kind
    rcases List.mem_append.mp inside with inside | inside
    · exact written (known decl (List.mem_append_left _ inside) kind)
    · exact known_left decl (List.mem_append_right _ inside) kind
  · intro decl inside kind
    rcases List.mem_append.mp inside with inside | inside
    · exact known_left decl (List.mem_append_left _ inside) kind
    · exact written (known decl (List.mem_append_right _ inside) kind)

end Scope.Known

/-- A walk loses nothing that was written, and every visible type was written. -/
structure Keeps (before : Scope) (walked : Scope × List Occurrence) : Prop where
  written : before.written ⊆ walked.1.written
  known : walked.1.Known
  found : ∀ o ∈ walked.2, o.scope.Known

namespace Keeps

variable {before middle : Scope} {walked next : Scope × List Occurrence}

theorem after (keeps : Keeps middle walked) (grows : before.written ⊆ middle.written) :
    Keeps before walked :=
  ⟨List.Subset.trans grows keeps.written, keeps.known, keeps.found⟩

theorem leaving (keeps : Keeps before walked) (known : before.Known) :
    Keeps before (walked.1.leaving before, walked.2) :=
  ⟨keeps.written, (known.back keeps.known keeps.written).1, keeps.found⟩

theorem append (keeps : Keeps before walked) (rest : Keeps walked.1 next) :
    Keeps before (next.1, walked.2 ++ next.2) where
  written := List.Subset.trans keeps.written rest.written
  known := rest.known
  found := fun o inside => (List.mem_append.mp inside).elim (keeps.found o) (rest.found o)

end Keeps

variable {opts}

mutual

theorem walkPiece_keeps (turbo : opts.turbo = true) (heading : Bool) {scope : Scope}
    (known : scope.Known) (piece : Piece) :
    Keeps scope (walkPiece opts heading scope piece) := by
  have inBlock : ∀ kind names, scope.written ⊆ (scope.intoBlock kind names).written :=
    fun _ _ => List.subset_append_right ..
  have inInner : ∀ kind names, scope.written ⊆ (scope.intoInner kind names).written :=
    fun _ _ => List.subset_append_right ..
  have inList : ∀ heading kind names,
      scope.written ⊆ (scope.intoList heading kind names).written := by
    rintro (_ | _) kind names
    · exact inBlock kind names
    · exact inInner kind names
  cases piece with
  | typeDef name discriminants denoter =>
      have inside := walkPieces_keeps turbo heading
        ((known.intoBlock .type [name]).opening discriminants) denoter
      rw [walkPiece]
      have kept := inside.after (inBlock .type [name])
      exact kept.leaving known
  | constDef name value =>
      rw [walkPiece]
      have others := known.others (by decide : NameKind.constant ≠ .type) [name]
      exact (walkPieces_keeps turbo heading others value).after (List.Subset.refl _)
  | varGroup names denoter =>
      rw [walkPiece]
      exact (walkPieces_keeps turbo heading (known.intoBlock .variable names) denoter).after
        (inBlock .variable names)
  | paramGroup names denoter =>
      rw [walkPiece]
      exact (walkPieces_keeps turbo heading (known.intoList heading _ names) denoter).after
        (inList heading _ names)
  | indexBounds names =>
      rw [walkPiece]
      exact ⟨inList heading .unlisted names, known.intoList heading .unlisted names, nofun⟩
  | procedureParamGroup name parameters =>
      have listed := known.intoList heading .unlisted [name]
      rw [walkPiece]
      exact ((walkPieces_keeps turbo true listed parameters).leaving listed).after
        (inList heading .unlisted [name])
  | fieldDecl names denoter =>
      rw [walkPiece]
      exact (walkPieces_keeps turbo heading (known.intoInner .variable names) denoter).after
        (inInner .variable names)
  | tagField name denoter =>
      rw [walkPiece]
      exact (walkPieces_keeps turbo heading (known.intoInner .unlisted [name]) denoter).after
        (inInner .unlisted [name])
  | structured sections =>
      rw [walkPiece]
      exact (walkPieces_keeps turbo heading known sections).leaving known
  | methodHeading name parameters =>
      have listed := known.intoInner .unlisted [name]
      rw [walkPiece]
      exact ((walkPieces_keeps turbo true listed parameters).leaving listed).after
        (inInner .unlisted [name])
  | procedureType parameters =>
      rw [walkPiece]
      exact (walkPieces_keeps turbo true known parameters).leaving known
  | procDecl name implied parameters body =>
      have declared := known.others (by decide : NameKind.constant ≠ .type) name.toList
      have headed := walkPieces_keeps turbo false
        (declared.others (by decide : NameKind.variable ≠ .type) implied) parameters
      have inside := headed.append (walkPieces_keeps turbo false headed.known body)
      rw [walkPiece]
      exact ⟨List.Subset.refl _, declared, inside.found⟩
  | withStmt designator opened body =>
      have seen := walkPieces_keeps turbo heading known designator
      have inside : Keeps (walkPieces opts heading scope designator).1 _ :=
        (walkPieces_keeps turbo heading (seen.known.opening opened) body).after (List.Subset.refl _)
      rw [walkPiece]
      exact seen.append (inside.leaving seen.known)
  | moduleDecl body =>
      have inside := walkPieces_keeps turbo heading known body
      rw [walkPiece]
      exact ⟨inside.written, (known.back inside.known inside.written).2, inside.found⟩
  | usesClause types others =>
      rw [walkPiece, turbo]
      refine ⟨List.subset_append_right .., ?_, nofun⟩
      have listed := (known.more [] (decls .type types) (decls .type types)
        fun _ inside _ => inside).others (by decide : NameKind.constant ≠ .type) others
      rwa [← List.append_assoc] at listed
  | bracketed name tokens inside =>
      have within := walkPieces_keeps turbo heading known inside
      rw [walkPiece]
      refine ⟨within.written, within.known, fun o found => ?_⟩
      rcases List.mem_cons.mp found with rfl | found
      · exact known
      · exact within.found o found

theorem walkPieces_keeps (turbo : opts.turbo = true) (heading : Bool) {scope : Scope}
    (known : scope.Known) (pieces : List Piece) :
    Keeps scope (walkPieces opts heading scope pieces) := by
  cases pieces with
  | nil => exact ⟨List.Subset.refl _, known, nofun⟩
  | cons piece pieces =>
      have first := walkPiece_keeps turbo heading known piece
      rw [walkPieces]
      exact first.append (walkPieces_keeps turbo heading first.known pieces)

end

/-! ## How the parser's reading agrees with the scopes -/

/-- The name has been written as a type, a variable, a parameter or a field only. -/
def Occurrence.Settled (o : Occurrence) : Prop :=
  o.writtenAs .formal = false ∧ o.writtenAs .unlisted = false

/-- How the parser reads a bracket with the sets that it has there. -/
structure Reads (opts : LangOptions) (sets : NameSets) (o : Occurrence) : Prop where
  /-- A type has been written, and no variable, parameter or field. -/
  typed : ∀ node, sets.Builds opts o.name o.tokens node → Ambiguous opts o.tokens node →
    o.Settled → (node.isTyped = true ↔ o.writtenAs .type = true ∧ o.writtenAs .variable = false)
  /-- A visible type that was written is read as one unless the name was written as both, and what
  is no type is not read as one unless it hides a type. -/
  agrees : ∀ node, sets.Builds opts o.name o.tokens node → Ambiguous opts o.tokens node →
    o.Settled → (o.namesType = true → o.writtenAs .type = true) →
      ((node.isTyped = true ↔ o.namesType = true) ↔
        (o.writtenAs .type = true → (o.namesType = true ↔ o.writtenAs .variable = false)))
  /-- In Turbo Pascal every visible type was written. -/
  known : opts.turbo = true → o.namesType = true → o.writtenAs .type = true
  /-- Empty brackets, and those with arms, are a typed constructor whatever was written. -/
  shaped : ∀ node, sets.Builds opts o.name o.tokens node → opts.extendedPascal = true →
    headKind o.tokens = .LeftBracket →
    (Context.beginsConstructor (headKind o.tokens.tail) = true ∨ node.hasArms = true) →
      node.isTyped = true

/-- A type that is visible by Turbo Pascal's scopes was written. -/
theorem writtenAs_of_namesType {o : Occurrence} (known : o.scope.Known)
    (names : o.namesType = true) : o.writtenAs .type = true := by
  rcases visible : o.scope.visible o.name with _ | decl
  · rw [Occurrence.namesType, visible] at names
    cases names
  · rw [Occurrence.namesType, visible] at names
    have kind : decl.kind = .type := of_decide_eq_true names
    rw [Scope.visible] at visible
    have name : decl.name = toLower o.name := by simpa using List.find?_some visible
    have inside := known decl (List.mem_of_find?_eq_some visible) kind
    rw [Occurrence.writtenAs, List.contains_iff_mem, ← kind, ← name]
    exact inside

theorem reads_setsOf {o : Occurrence} (known : opts.turbo = true → o.scope.Known) :
    Reads opts (setsOf o.scope.written) o := by
  have typed : ∀ node, (setsOf o.scope.written).Builds opts o.name o.tokens node →
      Ambiguous opts o.tokens node → o.Settled →
        (node.isTyped = true ↔ o.writtenAs .type = true ∧ o.writtenAs .variable = false) := by
    rintro node ⟨qualifiedModules, realOutOfRange, builds⟩ ambiguous settled
    have formal : o.scope.written.contains ⟨toLower o.name, .formal⟩ = false := settled.1
    rw [builds.isTyped_eq ambiguous, namesAType_setsOf, formal, Bool.or_false, Bool.and_eq_true,
      Bool.not_eq_true']
    exact Iff.rfl
  refine ⟨typed, fun node builds ambiguous settled visible => ?_,
    fun turbo names => writtenAs_of_namesType (known turbo) names, ?_⟩
  · rw [typed node builds ambiguous settled]
    by_cases written : o.writtenAs .type = true
    · simp only [written, true_and, forall_const]
      exact iff_comm
    · have hidden : ¬o.namesType = true := fun names => written (visible names)
      simp only [written, false_and, hidden, false_implies, Bool.false_eq_true]
  · rintro node ⟨_, _, builds⟩ extended bracket shape
    exact builds.isTyped_of_shape extended bracket shape

theorem setsOf_initial (opts : LangOptions) :
    setsOf (Scope.initial opts).written = NameSets.initial opts := by
  rw [Scope.initial, NameSets.initial]
  rcases opts.turbo <;> rfl

theorem known_initial (opts : LangOptions) : (Scope.initial opts).Known := by
  rw [Scope.initial]
  rcases opts.turbo
  · exact nofun
  · exact fun _ inside _ => inside

/-- The parser's reading of the brackets of a program. -/
structure NamesLaw (opts : LangOptions) (program : List Piece) : Prop where
  reads : List.Forall₂ (Reads opts) (parseProgram opts program) (occurrences opts program)
  /-- A routine leaves no trace in the sets. -/
  ended : ∀ sets name implied heading body,
    (parsePiece opts sets (.procDecl name implied heading body)).1 = sets

/-- `(x)`. -/
def inParens : List Expressions.Token :=
  [⟨.LeftParen, ['(']⟩, ⟨.Identifier, ['x']⟩, ⟨.RightParen, [')']⟩]

/-- A record with a field called as a type, and a cast to the type where no record is open. -/
def fieldClash : List Piece :=
  [.typeDef ['t'] [] [],
    .typeDef ['r'] [] [.structured [.fieldDecl [['t']] []]],
    .bracketed ['t'] inParens []]

/-- With the sets at the cast the parser builds a call. -/
theorem builds_call :
    ∀ sets ∈ parseProgram { std := .Turbo } fieldClash,
      sets.Builds { std := .Turbo } ['t'] inParens
        (.call ⟨none, ['t']⟩ [.ident ⟨none, ['x']⟩]) := by
  intro sets member
  obtain rfl : sets = (((NameSets.initial { std := .Turbo }).insertTypes [['t']]).insertTypes
      [['r']]).insertVars [['t']] := by
    simpa [parseProgram, fieldClash, parsePieces, parsePiece] using member
  refine ⟨fun _ => false, fun _ => false, 12, ⟨inParens, [], 0, false, 0, false⟩,
    ⟨[], [], 0, false, 0, false⟩, rfl, rfl, rfl⟩

end Parse

end Plang
