import Plang.Lex.Locality
import Plang.Lex.Reader

/-!
# The pieces of a text

A lexically valid text is a sequence of bytes, quoted strings, line comments, comments and
directives.  The tokens of Turbo Pascal begin and end at the borders of these pieces, so that a text
without directives is read up to its end whatever directive follows.
-/

namespace Plang

/-- A part of a text that is read as a whole. -/
inductive Piece where
  | byte (c : Char)
  | quoted (body : Text)
  | line (body : Text)
  | comment (braced : Bool) (body : Text)
  | directive (braced : Bool) (body : Text)

namespace Piece

/-- Its spelling. -/
def text : Piece → Text
  | byte c => [c]
  | quoted body => '\'' :: (body ++ ['\''])
  | line body => '/' :: '/' :: (body ++ ['\n'])
  | comment braced body => opener braced ++ (body ++ closer braced)
  | directive braced body => opener braced ++ '$' :: (body ++ closer braced)

/-- The piece ends where its spelling does, when `next` is the character behind it. -/
def Valid (next : Option Char) : Piece → Prop
  | byte c => c ≠ '\'' ∧ c ≠ '{' ∧ (c = '(' → next ≠ some '*') ∧ (c = '/' → next ≠ some '/')
  | quoted body => closingQuote (body ++ ['\'']) = some (body.length + 1) ∧ next ≠ some '\''
  | line body => '\n' ∉ body
  | comment braced body =>
      findCloser braced (body ++ closer braced) = some body ∧ body.head? ≠ some '$'
  | directive braced body => findCloser braced (body ++ closer braced) = some body

/-- A piece of a text without directives. -/
def Plain : Piece → Prop
  | directive _ _ => False
  | _ => True

instance decidableValid (next : Option Char) : (piece : Piece) → Decidable (piece.Valid next)
  | byte _ => inferInstanceAs (Decidable (_ ∧ _ ∧ _ ∧ _))
  | quoted _ => inferInstanceAs (Decidable (_ ∧ _))
  | line _ => inferInstanceAs (Decidable (_ ∉ _))
  | comment _ _ => inferInstanceAs (Decidable (_ ∧ _))
  | directive _ _ => inferInstanceAs (Decidable (_ = _))

theorem text_ne_nil (piece : Piece) : piece.text ≠ [] := by
  cases piece with
  | comment braced body => cases braced <;> simp [text, opener]
  | _ => simp [text]

end Piece

/-- A directive is found to begin and to end where it does. -/
theorem Piece.directive_found {braced : Bool} {body : Text}
    (valid : (Piece.directive braced body).Valid none) (z : Text) :
    directiveOpener ((Piece.directive braced body).text ++ z) = some braced ∧
      findCloser braced (((Piece.directive braced body).text ++ z).drop
        ((opener braced).length + 1)) = some body := by
  have text_eq : (Piece.directive braced body).text ++ z =
      opener braced ++ ['$'] ++ (body ++ closer braced ++ z) := by simp [text]
  constructor
  · rw [text_eq]
    cases braced <;> simp [opener, directiveOpener]
  · rw [text_eq, List.drop_left' (by simp)]
    exact findCloser_closed valid z

/-- The text that pieces make up. -/
def textOf (pieces : List Piece) : Text := pieces.flatMap Piece.text

@[simp] theorem textOf_nil : textOf [] = [] := rfl

@[simp] theorem textOf_cons (piece : Piece) (pieces : List Piece) :
    textOf (piece :: pieces) = piece.text ++ textOf pieces := rfl

@[simp] theorem textOf_append (left right : List Piece) :
    textOf (left ++ right) = textOf left ++ textOf right := by
  simp [textOf]

/-- Every piece ends where its spelling does. -/
def Lexical : List Piece → Prop
  | [] => True
  | piece :: pieces => piece.Valid (textOf pieces).head? ∧ Lexical pieces

instance decidableLexical : (pieces : List Piece) → Decidable (Lexical pieces)
  | [] => .isTrue trivial
  | piece :: pieces =>
      have := decidableLexical pieces
      inferInstanceAs (Decidable (piece.Valid (textOf pieces).head? ∧ Lexical pieces))

/-- A piece stays what it is when a directive or a line break follows. -/
theorem Piece.Valid.append {piece : Piece} {u x : Text} (valid : piece.Valid u.head?)
    (stops : StopsToken x) : piece.Valid (u ++ x).head? := by
  have same {c : Char} (c_ne : c ≠ '\n' ∧ c ≠ '{' ∧ c ≠ '(') (not_next : u.head? ≠ some c) :
      (u ++ x).head? ≠ some c := by
    rwa [ne_eq, head?_append_iff stops c_ne]
  cases piece with
  | byte c =>
      exact ⟨valid.1, valid.2.1, fun paren => same (by decide) (valid.2.2.1 paren),
        fun slash => same (by decide) (valid.2.2.2 slash)⟩
  | quoted body => exact ⟨valid.1, same (by decide) valid.2⟩
  | line body => exact valid
  | comment braced body => exact valid
  | directive braced body => exact valid

theorem Piece.Valid.weaken {next : Option Char} {piece : Piece} (valid : piece.Valid next) :
    piece.Valid none := by
  cases piece with
  | byte c => exact ⟨valid.1, valid.2.1, fun _ => by simp, fun _ => by simp⟩
  | quoted body => exact ⟨valid.1, by simp⟩
  | line body => exact valid
  | comment braced body => exact valid
  | directive braced body => exact valid

/-- Texts are put together before a directive. -/
theorem Lexical.append {front back : List Piece} (lexical : Lexical front)
    (lexical_back : Lexical back) (stops : StopsToken (textOf back)) : Lexical (front ++ back) := by
  induction front with
  | nil => exact lexical_back
  | cons piece front induction =>
      have valid := lexical.1.append stops
      rw [← textOf_append] at valid
      exact ⟨valid, induction lexical.2⟩

/-- A text may be cut off behind any of its pieces. -/
theorem Lexical.front {front back : List Piece} (lexical : Lexical (front ++ back)) :
    Lexical front := by
  induction front with
  | nil => trivial
  | cons piece front induction =>
      obtain ⟨valid, lexical⟩ := lexical
      refine ⟨?_, induction lexical⟩
      cases front with
      | nil => exact valid.weaken
      | cons second front =>
          obtain ⟨c, rest, second_eq⟩ := List.exists_cons_of_ne_nil second.text_ne_nil
          simpa [second_eq] using valid

theorem Lexical.suffix {pieces back : List Piece} (lexical : Lexical pieces)
    (suffix : back <:+ pieces) : Lexical back := by
  obtain ⟨front, rfl⟩ := suffix
  induction front with
  | nil => exact lexical
  | cons piece front induction => exact induction lexical.2

/-- A number of characters is the length of some of the first pieces. -/
def Cuts (pieces : List Piece) (width : Nat) : Prop :=
  width ≤ (textOf pieces).length ∧ ∃ back, back <:+ pieces ∧ textOf back = (textOf pieces).drop width

namespace Cuts

theorem zero (pieces : List Piece) : Cuts pieces 0 :=
  ⟨Nat.zero_le _, pieces, List.suffix_rfl, rfl⟩

theorem piece (piece : Piece) (pieces : List Piece) : Cuts (piece :: pieces) piece.text.length :=
  ⟨by simp, pieces, List.suffix_cons .., by simp⟩

theorem add {pieces back : List Piece} {first second : Nat}
    (first_le : first ≤ (textOf pieces).length)
    (suffix : back <:+ pieces) (back_eq : textOf back = (textOf pieces).drop first)
    (cuts : Cuts back second) : Cuts pieces (first + second) := by
  obtain ⟨second_le, rest, rest_suffix, rest_eq⟩ := cuts
  rw [back_eq, List.length_drop] at second_le
  refine ⟨by omega, rest, rest_suffix.trans suffix, ?_⟩
  rw [rest_eq, back_eq, List.drop_drop]

end Cuts

/-- No piece but a byte begins with this character. -/
def inert (c : Char) : Prop := c ≠ '\'' ∧ c ≠ '{' ∧ c ≠ '(' ∧ c ≠ '/'

/-- The text begins with so many characters of this kind. -/
def InertPrefix (text : Text) (width : Nat) : Prop :=
  width ≤ text.length ∧ ∀ c ∈ text.take width, inert c

theorem Piece.eq_byte_of_inert {piece : Piece} {c : Char} {rest after : Text}
    (starts : piece.text ++ rest = c :: after) (inert_c : inert c) : piece = .byte c := by
  obtain ⟨not_quote, not_brace, not_paren, not_slash⟩ := inert_c
  cases piece with
  | byte d => rw [(List.cons.inj starts).1]
  | quoted body => exact absurd (List.cons.inj starts).1.symm not_quote
  | line body => exact absurd (List.cons.inj starts).1.symm not_slash
  | comment braced body =>
      cases braced with
      | true => exact absurd (List.cons.inj starts).1.symm not_brace
      | false => exact absurd (List.cons.inj starts).1.symm not_paren
  | directive braced body =>
      cases braced with
      | true => exact absurd (List.cons.inj starts).1.symm not_brace
      | false => exact absurd (List.cons.inj starts).1.symm not_paren

theorem InertPrefix.cuts {pieces : List Piece} {width : Nat}
    (starts : InertPrefix (textOf pieces) width) : Cuts pieces width := by
  obtain ⟨width_le, all_inert⟩ := starts
  induction width generalizing pieces with
  | zero => exact .zero pieces
  | succ width induction =>
      cases pieces with
      | nil => simp at width_le
      | cons piece pieces =>
          obtain ⟨c, after, starts⟩ := List.exists_cons_of_ne_nil (piece.text_ne_nil)
          have text_eq : textOf (piece :: pieces) = c :: (after ++ textOf pieces) := by simp [starts]
          have inert_c : inert c := all_inert c (by simp [text_eq])
          obtain rfl : piece = .byte c := Piece.eq_byte_of_inert text_eq inert_c
          have rest := @induction pieces (by simpa [Piece.text] using width_le)
            fun d member => all_inert d (by simpa [Piece.text] using Or.inr member)
          rw [Nat.add_comm]
          exact Cuts.add (by simp [Piece.text]) (List.suffix_cons ..) (by simp [Piece.text]) rest

end Plang
