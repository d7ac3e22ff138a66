import Mathlib.Data.List.Basic

/-!
# Where a text goes wrong

A text is viable for a language if it can be continued to a text of the language.  The error in a
text that is not of the language is the first character at which no continuation is left, or the
end, where only more text could help.  There is no more than one such place.
-/

namespace ViablePrefix

variable {α : Type*} (language : List α → Prop)

def Viable (p : List α) : Prop := ∃ continuation, language (p ++ continuation)

/-- The error is right behind the first `n` characters. -/
def FailsBehind (text : List α) (n : ℕ) : Prop :=
  Viable language (text.take n) ∧ n ≤ text.length ∧
    (n < text.length → ¬Viable language (text.take (n + 1)))

variable {language}

theorem Viable.of_append {p q : List α} (viable : Viable language (p ++ q)) : Viable language p := by
  obtain ⟨rest, accepted⟩ := viable
  exact ⟨q ++ rest, by rwa [← List.append_assoc]⟩

theorem Viable.take {text : List α} {n m : ℕ} (viable : Viable language (text.take m))
    (le : n ≤ m) : Viable language (text.take n) := by
  rw [← List.take_append_drop n (text.take m), List.take_take, Nat.min_eq_left le] at viable
  exact viable.of_append

theorem viable_of_mem {text : List α} (mem : language text) : Viable language text :=
  ⟨[], by rwa [List.append_nil]⟩

/-- A text that goes wrong before its end is not of the language. -/
theorem FailsBehind.not_mem {text : List α} {n : ℕ} (fails : FailsBehind language text n)
    (before : n < text.length) : ¬language text := by
  intro mem
  have whole := viable_of_mem mem
  rw [← List.take_length (l := text)] at whole
  exact fails.2.2 before (whole.take before)

/-- There is one place where a text goes wrong. -/
theorem FailsBehind.unique {text : List α} {n m : ℕ} (left : FailsBehind language text n)
    (right : FailsBehind language text m) : n = m := by
  obtain ⟨left_viable, left_le, left_fails⟩ := left
  obtain ⟨right_viable, right_le, right_fails⟩ := right
  rcases Nat.lt_trichotomy n m with less | same | greater
  · exact absurd (right_viable.take less) (left_fails (by omega))
  · exact same
  · exact absurd (left_viable.take greater) (right_fails (by omega))

end ViablePrefix
