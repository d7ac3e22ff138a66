import Plang.Lex.Directives

/-!
# The scanner's loop

`step` is one turn of the loops of `next()`: it skips one piece of white space, one comment or one
directive, goes on with a dead branch, or returns a token.
-/

namespace Plang

namespace Scanner

/-- An ISO comment, which either closing delimiter ends. -/
def skipCommentISO (s : Scanner) (braced : Bool) : Scanner :=
  let width := (opener braced).length
  match eitherCloser (s.rest.drop width) with
  | some body => s.advance (width + body)
  | none => (s.advance s.rest.length).emitError (s.locAt s.pos) .err_unterminated_comment []

/-- A Turbo comment, which ends with its own kind of delimiter. -/
def skipCommentTurbo (s : Scanner) (braced : Bool) : Scanner :=
  let sought := seekCloser braced s.includeStack (s.advance (opener braced).length) [] false
  match sought.body with
  | some _ => sought.scanner
  | none => sought.scanner.reportUnclosed (s.locAt s.pos) braced sought.sawOtherCloser

/-- A comment. -/
def skipComment (s : Scanner) (braced : Bool) : Scanner :=
  if s.opts.turbo then s.skipCommentTurbo braced else s.skipCommentISO braced

/-- A line comment, up to the line break. -/
def skipLineComment (s : Scanner) : Scanner :=
  s.advance (2 + ((s.rest.drop 2).takeWhile (· != '\n')).length)

/-- Report what scanning a token complained about. -/
def emitComplaints (s : Scanner) (start : Nat) (complaints : List Complaint) : Scanner :=
  { s with
    diags := s.diags ++ complaints.map fun complaint =>
      ⟨s.locAt (start + complaint.offset), complaint.id, complaint.args⟩ }

/-- Scan a token; one that is in error is dropped. -/
def returnToken (s : Scanner) : Scanner × Option Token :=
  let scanned :=
    scanToken s.opts (startsExpression s.prevKind || s.forceExprStartOnce) s.rest
  let after := (s.advance scanned.width).emitComplaints s.pos scanned.complaints
  if scanned.kind = .Error then
    (after, none)
  else
    ({ after with prevKind := scanned.kind, forceExprStartOnce := false },
      some ⟨scanned.kind, scanned.lexeme, s.locAt s.pos⟩)

/-- The comment or directive a text begins with. -/
inductive Trivia where
  | directive (braced : Bool)
  | comment (braced : Bool)
  | line
  deriving DecidableEq

/-- Whether a comment or directive begins here, as `skipWhitespaceAndComments` looks for them. -/
def trivia (opts : LangOptions) : Text → Option Trivia
  | [] => none
  | c :: rest =>
      if c = '{' then
        some (if opts.turbo && rest.head? == some '$' then .directive true else .comment true)
      else if c = '(' ∧ rest.head? = some '*' then
        some (if opts.turbo && (rest.drop 1).head? == some '$' then .directive false
          else .comment false)
      else if opts.turbo && c == '/' && rest.head? == some '/' then
        some .line
      else
        none

/-- One turn of the scanner's loop. -/
def step (fs : FileSystem) (s : Scanner) : Scanner × Option Token :=
  match s.skipDepth with
  | some depth => (s.skipToNextConditionalMarker depth, none)
  | none =>
      match s.rest with
      | [] =>
          match s.popInclude with
          | some resumed => (resumed, none)
          | none => (s.reportUnterminatedConditionals, some ⟨.Eof, [], s.locAt s.pos⟩)
      | c :: _ =>
          if isspace c then
            (s.advance 1, none)
          else
            match trivia s.opts s.rest with
            | some (.directive braced) => (s.skipDirective fs braced, none)
            | some (.comment braced) => (s.skipComment braced, none)
            | some .line => (s.skipLineComment, none)
            | none => s.returnToken

/-- Skip the comment or directive a text begins with. -/
def skipTrivia (fs : FileSystem) (s : Scanner) : Trivia → Scanner
  | .directive braced => s.skipDirective fs braced
  | .comment braced => s.skipComment braced
  | .line => s.skipLineComment

theorem step_trivia (fs : FileSystem) {s : Scanner} {c : Char} {rest : Text} {piece : Trivia}
    (live : s.skipDepth = none) (rest_eq : s.rest = c :: rest) (space : isspace c = false)
    (piece_eq : trivia s.opts s.rest = some piece) :
    s.step fs = (s.skipTrivia fs piece, none) := by
  rw [rest_eq] at piece_eq
  simp only [step, live, rest_eq, space, piece_eq, Bool.false_eq_true, if_false]
  cases piece <;> rfl

end Scanner

/-- A scanner with the tokens it has returned so far, oldest first. -/
structure Session where
  /-- The scanner. -/
  scanner : Scanner
  /-- The returned tokens. -/
  tokens : List Token := []

namespace Session

/-- The parser has been given the tokens; before it asks for the one after the first `n` of them it
may have allowed a control character. -/
def returned (allow : Nat → Bool) (scanner : Scanner) (tokens : List Token) : Session :=
  { scanner := if allow tokens.length then scanner.allowCaretControlCharNext else scanner
    tokens }

/-- One turn of the loop that asks the scanner for tokens. -/
def step (fs : FileSystem) (allow : Nat → Bool) (session : Session) : Session :=
  match session.scanner.step fs with
  | (after, none) => { session with scanner := after }
  | (after, some token) => returned allow after (session.tokens ++ [token])

/-- A session at the beginning of a file. -/
def ofFile (fs : FileSystem) (allow : Nat → Bool) (sm : SourceManager) (filename : Text)
    (opts : LangOptions) : Session :=
  returned allow (Scanner.ofFile fs sm filename opts) []

/-- A session at the beginning of a text in memory. -/
def ofBuffer (allow : Nat → Bool) (sm : SourceManager) (sourceName content : Text)
    (opts : LangOptions) : Session :=
  returned allow (Scanner.ofBuffer sm sourceName content opts) []

/-- The session has read nothing yet. -/
def Start (fs : FileSystem) (allow : Nat → Bool) (session : Session) : Prop :=
  (∃ sm filename opts, session = ofFile fs allow sm filename opts) ∨
    ∃ sm sourceName content opts, session = ofBuffer allow sm sourceName content opts

/-- The session after a number of turns. -/
def run (fs : FileSystem) (allow : Nat → Bool) (session : Session) (turns : Nat) : Session :=
  (step fs allow)^[turns] session

theorem run_zero (fs : FileSystem) (allow : Nat → Bool) (session : Session) :
    session.run fs allow 0 = session := rfl

theorem run_succ (fs : FileSystem) (allow : Nat → Bool) (session : Session) (turns : Nat) :
    session.run fs allow (turns + 1) = (session.run fs allow turns).step fs allow :=
  Function.iterate_succ_apply' (step fs allow) turns session

theorem run_succ' (fs : FileSystem) (allow : Nat → Bool) (session : Session) (turns : Nat) :
    session.run fs allow (turns + 1) = (session.step fs allow).run fs allow turns :=
  Function.iterate_succ_apply (step fs allow) turns session

theorem run_add (fs : FileSystem) (allow : Nat → Bool) (session : Session) (first second : Nat) :
    session.run fs allow (second + first) = (session.run fs allow first).run fs allow second :=
  Function.iterate_add_apply (step fs allow) second first session

/-- A directory with a main file and one small include file. -/
def includeExample (main : String) : FileSystem where
  is_regular_file path := path = "a".toList
  file_size _ := none
  read path :=
    if path = "main".toList then some main.toList
    else if path = "a".toList then some "x".toList
    else none
  canonical _ := none
  current_path := none

/-- A session over such a main file. -/
def includeSession (main : String) : Session :=
  ofFile (includeExample main) (fun _ => false) .empty "main".toList { std := .Turbo }

end Session

end Plang
