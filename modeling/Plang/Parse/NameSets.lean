import Plang.Parse.BracketReading

/-!
# The parser's name sets

The parser has no symbol table.  What `Name(...)` and `Name[...]` begin it decides by two flat sets of
names, which the declarations fill as they are read and which are put back where a routine ends.  The
sets are what the expression parser knows of names.
-/

namespace Plang

namespace Parse

open Expressions (Context Name ExprNode Builds Ambiguous)

/-- The text of a program as far as names and brackets go; what is written inside a piece comes
after its name. -/
inductive Piece where
  /-- A type definition; a schema has discriminants. -/
  | typeDef (name : Text) (discriminants : List Text) (denoter : List Piece)
  /-- A constant definition, or a constant of an enumeration. -/
  | constDef (name : Text) (value : List Piece)
  | varGroup (names : List Text) (denoter : List Piece)
  | paramGroup (names : List Text) (denoter : List Piece)
  /-- The bounds of a conformant array. -/
  | indexBounds (names : List Text)
  /-- A procedural or functional parameter, written as a heading. -/
  | procedureParamGroup (name : Text) (heading : List Piece)
  /-- A section of a record, of a variant or of an object type. -/
  | fieldDecl (names : List Text) (denoter : List Piece)
  /-- The tag field of a variant part. -/
  | tagField (name : Text) (denoter : List Piece)
  /-- A record or object type, or a part of one. -/
  | structured (sections : List Piece)
  | methodHeading (name : Text) (heading : List Piece)
  | procedureType (heading : List Piece)
  /-- A routine; the name of a method's body is declared elsewhere.  The body sees names that are not
  written as its parameters: the members of its object, the parameters of a forward declaration, the
  variable for the result. -/
  | procDecl (name : Option Text) (implied : List Text) (heading body : List Piece)
  /-- `with`, and the fields it opens. -/
  | withStmt (designator : List Piece) (opened : List Text) (body : List Piece)
  | moduleDecl (body : List Piece)
  /-- `uses`, or an import: the types and the other names that become visible. -/
  | usesClause (types others : List Text)
  /-- A name and a bracket behind it: the tokens from the bracket on, and the names and brackets in
  them. -/
  | bracketed (name : Text) (tokens : List Expressions.Token) (inside : List Piece)

/-- `TypeNames_` and `VarNames_`. -/
structure NameSets where
  typeNames : List Text
  varNames : List Text

namespace NameSets

def insertTypes (sets : NameSets) (names : List Text) : NameSets :=
  { sets with typeNames := names.map toLower ++ sets.typeNames }

def insertVars (sets : NameSets) (names : List Text) : NameSets :=
  { sets with varNames := names.map toLower ++ sets.varNames }

/-- The context of the expression parser with these sets. -/
def context (sets : NameSets) (opts : LangOptions) (qualifiedModules realOutOfRange : Text → Bool) :
    Context where
  opts
  qualifiedModules
  typeNames := sets.typeNames.contains
  varNames := sets.varNames.contains
  realOutOfRange

/-- The expression parser builds the tree of a name and the tokens behind it, and reports nothing. -/
def Builds (sets : NameSets) (opts : LangOptions) (name : Text) (tokens : List Expressions.Token)
    (node : ExprNode) : Prop :=
  ∃ qualifiedModules realOutOfRange,
    Expressions.Builds (sets.context opts qualifiedModules realOutOfRange) ⟨none, name⟩ tokens node

end NameSets

/-- The types Turbo Pascal's parser knows from the start. -/
def predefinedTypes : List Text :=
  ["shortint", "byte", "smallint", "word", "cardinal", "longint", "longword", "int64", "qword",
    "ansichar", "pointer", "pchar", "pansichar", "bytebool", "wordbool", "longbool",
    "single"].map String.toList

/-- The sets as the parser begins. -/
def NameSets.initial (opts : LangOptions) : NameSets where
  typeNames := if opts.turbo then predefinedTypes else []
  varNames := []

mutual

/-- The sets behind a piece, and the sets at each of its brackets. -/
def parsePiece (opts : LangOptions) (sets : NameSets) : Piece → NameSets × List NameSets
  | .typeDef name _ denoter => parsePieces opts (sets.insertTypes [name]) denoter
  | .constDef _ value => parsePieces opts sets value
  | .varGroup names denoter => parsePieces opts (sets.insertVars names) denoter
  | .paramGroup names denoter => parsePieces opts (sets.insertVars names) denoter
  | .indexBounds _ => (sets, [])
  | .procedureParamGroup _ heading => parsePieces opts sets heading
  | .fieldDecl names denoter => parsePieces opts (sets.insertVars names) denoter
  | .tagField _ denoter => parsePieces opts sets denoter
  | .structured sections => parsePieces opts sets sections
  | .methodHeading _ heading => parsePieces opts sets heading
  | .procedureType heading => parsePieces opts sets heading
  | .procDecl _ _ heading body =>
      let (headed, before) := parsePieces opts sets heading
      let (_, after) := parsePieces opts headed body
      -- the guard puts back the sets as they were
      (sets, before ++ after)
  | .withStmt designator _ body =>
      let (seen, before) := parsePieces opts sets designator
      let (left, after) := parsePieces opts seen body
      (left, before ++ after)
  | .moduleDecl body => parsePieces opts sets body
  | .usesClause types _ => (if opts.turbo then sets.insertTypes types else sets, [])
  | .bracketed _ _ inside =>
      let (left, brackets) := parsePieces opts sets inside
      (left, sets :: brackets)

/-- The parser's sets behind the pieces of a program, one after the other. -/
def parsePieces (opts : LangOptions) (sets : NameSets) : List Piece → NameSets × List NameSets
  | [] => (sets, [])
  | piece :: pieces =>
      let (left, before) := parsePiece opts sets piece
      let (last, after) := parsePieces opts left pieces
      (last, before ++ after)

end

/-- The sets at the brackets of a program. -/
def parseProgram (opts : LangOptions) (program : List Piece) : List NameSets :=
  (parsePieces opts (.initial opts) program).2

end Parse

end Plang
