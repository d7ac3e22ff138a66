import Mathlib.Data.List.Basic

/-!
# Bytes and spellings

Source text is a list of bytes, written as characters.  The compiler never leaves the "C" locale,
so the character classes are the ASCII ones.
-/

namespace Plang

/-- Source text, a lexeme, a symbol or a path. -/
abbrev Text := List Char

/-- `std::isspace`. -/
def isspace (c : Char) : Bool :=
  c == ' ' || c == '\t' || c == '\n' || c == '\x0b' || c == '\x0c' || c == '\r'

/-- `std::isxdigit`. -/
def isxdigit (c : Char) : Bool :=
  c.isDigit || ('a' ≤ c && c ≤ 'f') || ('A' ≤ c && c ≤ 'F')

/-- The value of a digit, letters counting on from ten. -/
def digitValue (c : Char) : Nat :=
  if c.isDigit then c.toNat - '0'.toNat else c.toLower.toNat - 'a'.toNat + 10

/-- Lower-case copy of a spelling. -/
def toLower (text : Text) : Text := text.map Char.toLower

/-- A character an identifier may hold. -/
def isWordChar (c : Char) : Bool := c.isAlphanum || c == '_'

/-- A letter or underscore, followed by letters, digits and underscores only. -/
def looksLikeIdentifier : Text → Bool
  | [] => false
  | first :: rest => (first.isAlpha || first == '_') && rest.all isWordChar

/-- Remove leading white space. -/
def trimFront (text : Text) : Text := text.dropWhile isspace

/-- Remove trailing white space. -/
def trimBack (text : Text) : Text := (text.reverse.dropWhile isspace).reverse

/-- Remove white space at both ends. -/
def trim (text : Text) : Text := trimBack (trimFront text)

/-- Split at every occurrence of a separator. -/
def splitAt (separator : Char) : Text → List Text
  | [] => [[]]
  | c :: rest =>
      if c = separator then
        [] :: splitAt separator rest
      else
        match splitAt separator rest with
        | [] => [[c]]
        | piece :: pieces => (c :: piece) :: pieces

theorem splitAt_cons {separator c : Char} (c_ne : c ≠ separator) (text : Text) :
    ∃ piece pieces, splitAt separator text = piece :: pieces ∧
      splitAt separator (c :: text) = (c :: piece) :: pieces := by
  have not_nil : splitAt separator text ≠ [] := by
    cases text with
    | nil => simp [splitAt]
    | cons d text =>
        rw [splitAt]
        split
        · simp
        · split <;> simp
  obtain ⟨piece, pieces, split_eq⟩ := List.exists_cons_of_ne_nil not_nil
  exact ⟨piece, pieces, split_eq, by simp [splitAt, c_ne, split_eq]⟩

theorem trimBack_cons {c : Char} (not_space : isspace c = false) (text : Text) :
    trimBack (c :: text) = c :: trimBack text := by
  simp only [trimBack, List.reverse_cons, List.dropWhile_append]
  split
  case isTrue empty =>
    rw [List.isEmpty_iff.mp empty]
    simp [not_space]
  case isFalse => simp

theorem isspace_of_isAlpha {c : Char} (alpha : c.isAlpha = true) : isspace c = false := by
  by_contra space
  simp only [isspace, Bool.or_eq_true, beq_iff_eq, Bool.not_eq_false] at space
  rcases space with ((((rfl | rfl) | rfl) | rfl) | rfl) | rfl <;> exact absurd alpha (by decide)

/-- A run of characters goes exactly as far as they are of the kind. -/
theorem takeWhile_run {p : Char → Bool} {run rest : Text} (all : ∀ c ∈ run, p c)
    (ends : ∀ c ∈ rest.head?, ¬p c) : (run ++ rest).takeWhile p = run := by
  have stops : rest.takeWhile p = [] := by
    cases rest with
    | nil => rfl
    | cons c rest => exact List.takeWhile_cons_of_neg (ends c rfl)
  rw [List.takeWhile_append_of_pos all, stops, List.append_nil]

end Plang
