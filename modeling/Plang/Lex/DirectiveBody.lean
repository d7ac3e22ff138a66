import Plang.Lex.TokenScan

/-!
# The text of a compiler directive

Where a directive or a comment ends, how its body splits into a name and an argument, and the
fixed tables of directive names.
-/

namespace Plang

/-- The delimiter a directive or comment opens with. -/
def opener (braced : Bool) : Text := if braced then ['{'] else ['(', '*']

/-- The delimiter it closes with. -/
def closer (braced : Bool) : Text := if braced then ['}'] else ['*', ')']

/-- A closing delimiter stands at this character. -/
def closesHere (braced : Bool) (c : Char) (rest : Text) : Bool :=
  if braced then c == '}' else c == '*' && rest.head? == some ')'

/-- The text up to the first closing delimiter of the given kind. -/
def findCloser (braced : Bool) : Text → Option Text
  | [] => none
  | c :: rest =>
      if closesHere braced c rest then some [] else (findCloser braced rest).map (c :: ·)

theorem closesHere_iff {braced : Bool} {c : Char} {rest : Text} :
    closesHere braced c rest ↔ ∃ tail, c :: rest = closer braced ++ tail := by
  cases braced with
  | true => simp [closesHere, closer]
  | false =>
      simp only [closesHere, closer, Bool.false_eq_true, if_false, Bool.and_eq_true, beq_iff_eq,
        List.head?_eq_some_iff, List.cons_append, List.nil_append, List.cons.injEq]
      constructor
      · rintro ⟨star, tail, rest_eq⟩
        exact ⟨tail, star, rest_eq⟩
      · rintro ⟨tail, star, rest_eq⟩
        exact ⟨star, tail, rest_eq⟩

theorem findCloser_eq_some {braced : Bool} {text body : Text}
    (found : findCloser braced text = some body) : ∃ rest, text = body ++ closer braced ++ rest := by
  induction text generalizing body with
  | nil => cases found
  | cons c text induction =>
      unfold findCloser at found
      split at found
      case isTrue closes =>
        obtain rfl := Option.some.inj found
        exact closesHere_iff.mp closes
      case isFalse =>
        obtain ⟨inner, inner_found, rfl⟩ := Option.map_eq_some_iff.mp found
        obtain ⟨rest, rfl⟩ := induction inner_found
        exact ⟨rest, rfl⟩

/-- What stands behind the closing delimiter does not matter. -/
theorem findCloser_congr {braced : Bool} {body rest : Text} (other : Text)
    (found : findCloser braced (body ++ closer braced ++ rest) = some body) :
    findCloser braced (body ++ closer braced ++ other) = some body := by
  induction body with
  | nil => cases braced <;> simp [closer, closesHere, findCloser]
  | cons c body induction =>
      have same : closesHere braced c (body ++ closer braced ++ rest) =
          closesHere braced c (body ++ closer braced ++ other) := by
        cases body <;> cases braced <;> rfl
      simp only [List.cons_append, findCloser, same] at found ⊢
      split at found
      case isTrue => cases found
      case isFalse still_open =>
        obtain ⟨inner, inner_found, cons_eq⟩ := Option.map_eq_some_iff.mp found
        obtain rfl := (List.cons.inj cons_eq).2
        rw [if_neg still_open, induction inner_found]
        rfl

theorem findCloser_closed {braced : Bool} {body : Text}
    (closed : findCloser braced (body ++ closer braced) = some body) (z : Text) :
    findCloser braced (body ++ closer braced ++ z) = some body := by
  rw [← List.append_nil (body ++ closer braced)] at closed
  exact findCloser_congr z closed

theorem findCloser_append {braced : Bool} {u x body : Text} (y : Text)
    (found : findCloser braced (u ++ x) = some body)
    (within : body.length + (closer braced).length ≤ u.length) :
    findCloser braced (u ++ y) = some body := by
  obtain ⟨rest, split_eq⟩ := findCloser_eq_some found
  have piece_length : (body ++ closer braced).length ≤ u.length := by simpa using within
  obtain ⟨tail, rfl⟩ : body ++ closer braced <+: u :=
    List.prefix_of_prefix_length_le ⟨rest, split_eq.symm⟩ (List.prefix_append u x) piece_length
  rw [List.append_assoc] at found ⊢
  exact findCloser_congr _ found

/-- No closing delimiter reaches across a line break. -/
theorem findCloser_newline (braced : Bool) (text rest : Text) :
    findCloser braced (text ++ '\n' :: rest) =
      (findCloser braced text).or
        ((findCloser braced rest).map fun body => text ++ '\n' :: body) := by
  induction text with
  | nil => cases braced <;> simp [findCloser, closesHere]
  | cons c text induction =>
      have same : closesHere braced c (text ++ '\n' :: rest) = closesHere braced c text := by
        cases text <;> cases braced <;> simp [closesHere]
      simp only [List.cons_append, findCloser, same, induction]
      split
      case isTrue => rfl
      case isFalse =>
        cases findCloser braced text with
        | some body => rfl
        | none => simp [Option.map_map, Function.comp_def]

/-- A closing delimiter of the other kind stands in a text. -/
def hasOtherCloser (braced : Bool) : Text → Bool
  | [] => false
  | c :: rest => closesHere (!braced) c rest || hasOtherCloser braced rest

/-- A comment that either closing delimiter ends: the number of characters up to and including
it. -/
def eitherCloser : Text → Option Nat
  | [] => none
  | c :: rest =>
      if c = '}' then some 1
      else if c = '*' ∧ rest.head? = some ')' then some 2
      else (eitherCloser rest).map (· + 1)

/-- Past the closing quote of a string that ends on its own line. -/
def closingQuote : Text → Option Nat
  | [] => none
  | '\n' :: _ => none
  | '\'' :: '\'' :: rest => (closingQuote rest).map (· + 2)
  | '\'' :: _ => some 1
  | _ :: rest => (closingQuote rest).map (· + 1)

/-- The directive a text begins with: its opening delimiter, directly followed by `$`. -/
def directiveOpener : Text → Option Bool
  | [] => none
  | c :: rest =>
      if c = '{' ∧ rest.head? = some '$' then some true
      else if c = '(' ∧ rest.head? = some '*' ∧ (rest.drop 1).head? = some '$' then some false
      else none

theorem directiveOpener_eq_some {text : Text} {braced : Bool}
    (opens : directiveOpener text = some braced) : ∃ rest, text = opener braced ++ '$' :: rest := by
  cases text with
  | nil => cases opens
  | cons c rest =>
      unfold directiveOpener at opens
      simp only at opens
      split_ifs at opens with brace paren <;> obtain rfl := Option.some.inj opens
      · obtain ⟨rfl, dollar⟩ := brace
        obtain ⟨tail, rfl⟩ := List.head?_eq_some_iff.mp dollar
        exact ⟨tail, rfl⟩
      · obtain ⟨rfl, star, dollar⟩ := paren
        obtain ⟨tail, rfl⟩ := List.head?_eq_some_iff.mp star
        obtain ⟨tail, rfl⟩ := List.head?_eq_some_iff.mp dollar
        exact ⟨tail, rfl⟩

/-- A directive that is closed ends within its text. -/
theorem directive_width_le {text body : Text} {braced : Bool}
    (opens : directiveOpener text = some braced)
    (found : findCloser braced (text.drop ((opener braced).length + 1)) = some body) :
    (opener braced).length + 1 + body.length + (closer braced).length ≤ text.length := by
  obtain ⟨behind, rfl⟩ := directiveOpener_eq_some opens
  obtain ⟨rest, split_eq⟩ := findCloser_eq_some found
  have lengths := congrArg List.length split_eq
  simp only [List.length_append, List.length_drop, List.length_cons] at lengths ⊢
  omega

/-- The leading run of letters of a directive body. -/
def directiveName (body : Text) : Text := body.takeWhile Char.isAlpha

/-- Everything behind the name. -/
def directiveRest (body : Text) : Text := body.dropWhile Char.isAlpha

/-- Split a body into a name, an argument and whether the argument follows without a gap. -/
def splitDirectiveBody (body : Text) : Text × Text × Bool :=
  let rest := directiveRest body
  (directiveName body, trim rest, rest.head?.any fun c => !isspace c)

/-- The message directives and the diagnostics that carry their argument. -/
def MessageDirectives : List (String × DiagID) :=
  [("message", .note_directive_message), ("info", .note_directive_info),
    ("note", .note_directive_note), ("hint", .warn_directive_hint),
    ("warning", .warn_directive_warning), ("error", .err_directive_error),
    ("fatal", .err_directive_fatal)]

/-- The directives that are known and do nothing. -/
def IgnoredDirectiveNames : List String :=
  ["a", "d", "e", "f", "g", "l", "m", "n", "o", "y", "k", "u", "apptype", "codepage",
    "packrecords", "align", "smartlink", "warn", "region", "endregion"]

/-- `+` or `-`. -/
def signValue (text : Text) : Option Bool :=
  if text = ['+'] then some true else if text = ['-'] then some false else none

/-- One element of `{$R+,I-}`: a switch letter and a sign. -/
def switchElement (element : Text) : Option (Switch × Bool) :=
  match trim element with
  | [letter, sign] => do
      let value ← signValue [sign]
      let switch ← switchFromLetter letter
      return (switch, value)
  | _ => none

/-- The switches of the comma form, when every element of it is one. -/
def multiSwitches (body : Text) : Option (List (Switch × Bool)) :=
  if body.contains ',' then
    ((splitAt ',' body).mapM switchElement).filter fun parsed => 2 ≤ parsed.length
  else
    none

/-- Two letters are no switch with a sign. -/
theorem switchElement_letters {first second : Char} (first_alpha : first.isAlpha = true)
    (second_alpha : second.isAlpha = true) (text : Text) :
    switchElement (first :: second :: text) = none := by
  have first_kept := isspace_of_isAlpha first_alpha
  have trim_eq : trim (first :: second :: text) = first :: second :: trimBack text := by
    rw [trim, trimFront, List.dropWhile_cons_of_neg (by simp [first_kept]), trimBack_cons first_kept,
      trimBack_cons (isspace_of_isAlpha second_alpha)]
  have no_sign : signValue [second] = none := by
    have not_plus : second ≠ '+' := by
      rintro rfl
      cases second_alpha
    have not_minus : second ≠ '-' := by
      rintro rfl
      cases second_alpha
    simp [signValue, not_plus, not_minus]
  rw [switchElement, trim_eq]
  cases trimBack text with
  | nil => simp [no_sign]
  | cons c text => rfl

/-- A directive whose name is more than a letter is not a list of switches. -/
theorem multiSwitches_of_name {body : Text} (long : 2 ≤ (directiveName body).length) :
    multiSwitches body = none := by
  match body with
  | [] => cases long
  | [c] =>
      have name_le : (directiveName [c]).length ≤ 1 :=
        (List.takeWhile_prefix (l := [c]) Char.isAlpha).length_le
      omega
  | first :: second :: text =>
      obtain ⟨first_alpha, second_alpha⟩ : first.isAlpha = true ∧ second.isAlpha = true := by
        by_contra not_both
        rw [directiveName, List.takeWhile_cons, List.takeWhile_cons] at long
        rcases not_and_or.mp not_both with other | other <;> simp [other] at long
        split at long <;> simp at long
      have not_comma {c : Char} (alpha : c.isAlpha = true) : c ≠ ',' := by
        rintro rfl
        cases alpha
      obtain ⟨_, _, split_second, split_first⟩ :=
        splitAt_cons (not_comma first_alpha) (second :: text)
      obtain ⟨piece, pieces, _, split_eq⟩ := splitAt_cons (not_comma second_alpha) text
      rw [split_second] at split_eq
      obtain ⟨rfl, rfl⟩ := List.cons.inj split_eq
      unfold multiSwitches
      rw [split_first, List.mapM_cons, switchElement_letters first_alpha second_alpha]
      simp

/-- The switch a single directive sets. -/
def directiveSwitch (name argument : Text) (adjacent : Bool) : Option (Switch × Bool) :=
  match name with
  | [letter] =>
      if adjacent then do
        let switch ← switchFromLetter letter
        let value ← signValue argument
        return (switch, value)
      else
        none
  | _ => do
      let switch ← switchFromLongName (toLower name)
      let value ← (signValue argument).orElse fun _ =>
        if toLower argument = "on".toList then some true
        else if toLower argument = "off".toList then some false
        else none
      return (switch, value)

/-- The switches a directive sets, when no other handler claims it. -/
def bodySwitches (body : Text) : Option (List (Switch × Bool)) :=
  let (name, argument, adjacent) := splitDirectiveBody body
  multiSwitches body <|> (directiveSwitch name argument adjacent).map fun change => [change]

/-- The directive names a file to include; `{$I+}` is a switch. -/
def isInclude (name argument : Text) : Bool :=
  let folded := toLower name
  folded == "include".toList || folded == "i".toList && (signValue argument).isNone

/-- The switch and the value `{$IFOPT R+}` asks about. -/
def ifoptSwitch (argument : Text) : Option (Switch × Bool) :=
  match argument with
  | [letter, sign] => do
      let switch ← switchFromLetter letter
      let value ← signValue [sign]
      return (switch, value)
  | _ => none

/-- One layer of quotes around a file name is not part of it. -/
def unquote (argument : Text) : Text :=
  if 2 ≤ argument.length && argument.head? == some '\'' && argument.getLast? == some '\'' then
    (argument.drop 1).dropLast
  else
    argument

end Plang
