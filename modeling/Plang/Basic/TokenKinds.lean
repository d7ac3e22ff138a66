import Plang.Basic.LangOptions

/-!
# Token kinds

The kinds of `TokenKinds.def`, the reserved words and the dialects that reserve them.
-/

namespace Plang

/-- The category of a token. -/
inductive TokenKind where
  | IntLit | RealLit | StringLit | Identifier | Eof | Error
  | Abstract | And | AndThen | Array | Asm | Begin | Bindable | Boolean | Case | Char | Const
  | Constructor | Destructor | Div | Do | Downto | Else | End | Export | Exports | False | File
  | For | Forward | Function | Goto | If | Implementation | Import | In | Inherited | Inline
  | Integer | Interface | Label | Library | Mod | Module | Nil | Not | Object | Of | Only | Or
  | OrElse | Otherwise | Packed | Pow | Private | Procedure | Program | Protected | Public
  | Qualified | Real | Record | Repeat | Restricted | Set | Shl | Shr | String | Then | To | True
  | «Type» | Unit | Until | Uses | Value | Var | Virtual | While | With | Xor
  | Assign | At | Caret | Colon | Comma | Divide | Dot | DotDot | Equal | GreaterThan
  | GreaterThanOrEqual | LeftBracket | LeftParen | LessThan | LessThanOrEqual | Minus | NotEqual
  | Plus | RightBracket | RightParen | Semicolon | StarStar | SymDiff | Times
  deriving DecidableEq, Repr

/-- Every reserved word of every dialect, in ascending order of spelling. -/
def keywords : List (String × TokenKind) :=
  [("abstract", .Abstract), ("and", .And), ("and_then", .AndThen), ("array", .Array),
    ("asm", .Asm), ("begin", .Begin), ("bindable", .Bindable), ("boolean", .Boolean),
    ("case", .Case), ("char", .Char), ("const", .Const), ("constructor", .Constructor),
    ("destructor", .Destructor), ("div", .Div), ("do", .Do), ("downto", .Downto),
    ("else", .Else), ("end", .End), ("export", .Export), ("exports", .Exports),
    ("false", .False), ("file", .File), ("for", .For), ("forward", .Forward),
    ("function", .Function), ("goto", .Goto), ("if", .If), ("implementation", .Implementation),
    ("import", .Import), ("in", .In), ("inherited", .Inherited), ("inline", .Inline),
    ("integer", .Integer), ("interface", .Interface), ("label", .Label), ("library", .Library),
    ("mod", .Mod), ("module", .Module), ("nil", .Nil), ("not", .Not), ("object", .Object),
    ("of", .Of), ("only", .Only), ("or", .Or), ("or_else", .OrElse), ("otherwise", .Otherwise),
    ("packed", .Packed), ("pow", .Pow), ("private", .Private), ("procedure", .Procedure),
    ("program", .Program), ("protected", .Protected), ("public", .Public),
    ("qualified", .Qualified), ("real", .Real), ("record", .Record), ("repeat", .Repeat),
    ("restricted", .Restricted), ("set", .Set), ("shl", .Shl), ("shr", .Shr),
    ("string", .String), ("then", .Then), ("to", .To), ("true", .True), ("type", .«Type»),
    ("unit", .Unit), ("until", .Until), ("uses", .Uses), ("value", .Value), ("var", .Var),
    ("virtual", .Virtual), ("while", .While), ("with", .With), ("xor", .Xor)]

/-- The dialects that reserve a word; every kind that is not restricted belongs to all. -/
def keywordDialects (kind : TokenKind) (std : Standard) : Bool :=
  match kind with
  | .Abstract | .Asm | .Constructor | .Destructor | .Exports | .Implementation | .Inherited
  | .Inline | .Library | .Object | .Private | .Public | .Shl | .Shr | .Unit | .Uses | .Virtual
  | .Xor => std == .Turbo
  | .AndThen | .Bindable | .Export | .Import | .Module | .Only | .OrElse | .Otherwise | .Pow
  | .Protected | .Qualified | .Restricted | .Value => std == .ISO10206
  | .Interface => std == .ISO10206 || std == .Turbo
  | _ => true

/-- A kind that can only be followed by an expression, never by a type denoter. -/
def startsExpression : TokenKind → Bool
  | .Assign | .LeftParen | .LeftBracket | .Comma | .Plus | .Minus | .Times | .Divide | .StarStar
  | .LessThan | .GreaterThan | .LessThanOrEqual | .GreaterThanOrEqual | .NotEqual | .SymDiff
  | .And | .Or | .Not | .Div | .Mod | .In => true
  | _ => false

/-- A token: its category, its text and the position of its first character. -/
structure Token where
  /-- The category. -/
  kind : TokenKind
  /-- The source text, decoded for literals that are written in codes. -/
  lexeme : Text
  /-- Where the token begins. -/
  loc : Nat
  deriving DecidableEq

end Plang
