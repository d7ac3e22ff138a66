import Mathlib.Data.List.Basic

/-!
# Scanners with one thing in sight

A scanner has something in sight and can consume a character.  Two scanners that judge what is in
sight alike, and consume the same wherever they go on, take the same characters.
-/

/-- A scanner with states `σ` sees values of `ω` and consumes characters of `α`. -/
structure Lookahead (σ ω α : Type*) where
  /-- The item in sight. -/
  look : σ → ω
  /-- Consume a character. -/
  next : σ → α × σ

namespace Lookahead

variable {σ τ ω υ α : Type*}

/-- Consume a character that is to be kept, and then more. -/
def takeThen (scanner : Lookahead σ ω α) (keep : ω → Bool) (more : σ → List α × σ) (state : σ) :
    List α × σ :=
  if keep (scanner.look state) then
    let (rest, after) := more (scanner.next state).2
    ((scanner.next state).1 :: rest, after)
  else ([], state)

/-- Consume the character in sight if it is to be kept. -/
def takeIf (scanner : Lookahead σ ω α) (keep : ω → Bool) : σ → List α × σ :=
  scanner.takeThen keep fun state => ([], state)

/-- Consume characters as long as they are to be kept. -/
def takeWhile (scanner : Lookahead σ ω α) (keep : ω → Bool) : Nat → σ → List α × σ
  | 0, state => ([], state)
  | fuel + 1, state => scanner.takeThen keep (takeWhile scanner keep fuel) state

/-- Take twice. -/
def append (take more : σ → List α × σ) (state : σ) : List α × σ :=
  ((take state).1 ++ (more (take state).2).1, (more (take state).2).2)

/-- Note what was taken in another way. -/
def noting (note : List α → List α) (take : σ → List α × σ) (state : σ) : List α × σ :=
  (note (take state).1, (take state).2)

/-- Taking ends where nothing more is to be kept, not for want of fuel. -/
theorem keep_takeWhile (scanner : Lookahead σ ω α) (keep : ω → Bool) (size : σ → Nat)
    (shrinks : ∀ state, keep (scanner.look (scanner.next state).2) = false ∨
      size (scanner.next state).2 < size state)
    {fuel : Nat} {state : σ} (enough : keep (scanner.look state) = false ∨ size state < fuel) :
    keep (scanner.look (scanner.takeWhile keep fuel state).2) = false := by
  induction fuel generalizing state with
  | zero => exact enough.resolve_right (Nat.not_lt_zero _)
  | succ fuel induction =>
      rw [takeWhile, takeThen]
      split
      · rename_i kept
        have bounded := enough.resolve_left (by simp [kept])
        apply induction
        exact (shrinks state).imp_right fun less =>
          Nat.lt_of_lt_of_le less (Nat.le_of_lt_succ bounded)
      · rename_i ended
        exact Bool.eq_false_iff.mpr ended

/-! ## Simulation -/

section Simulation

variable {first : Lookahead σ ω α} {second : Lookahead τ υ α} {rel : σ → τ → Prop}
  {keep : ω → Bool} {hold : υ → Bool}

/-- Related states judge what is in sight alike, and where they keep it consume the same. -/
structure Simulates (first : Lookahead σ ω α) (second : Lookahead τ υ α) (rel : σ → τ → Prop)
    (keep : ω → Bool) (hold : υ → Bool) : Prop where
  look : ∀ {state other}, rel state other → keep (first.look state) = hold (second.look other)
  char : ∀ {state other}, rel state other → keep (first.look state) = true →
    (first.next state).1 = (second.next other).1
  next : ∀ {state other}, rel state other → keep (first.look state) = true →
    rel (first.next state).2 (second.next other).2

/-- Two actions take the same from related states. -/
def Agree (rel : σ → τ → Prop) (take : σ → List α × σ) (other : τ → List α × τ) : Prop :=
  ∀ ⦃before : σ⦄ ⦃start : τ⦄, rel before start →
    (take before).1 = (other start).1 ∧ rel (take before).2 (other start).2

theorem Agree.append {take more : σ → List α × σ} {other others : τ → List α × τ}
    (head : Agree rel take other) (tail : Agree rel more others) :
    Agree rel (append take more) (append other others) := by
  intro state start related
  obtain ⟨taken, between⟩ := head related
  obtain ⟨rest, after⟩ := tail between
  exact ⟨congrArg₂ (· ++ ·) taken rest, after⟩

theorem Agree.noting {take : σ → List α × σ} {other : τ → List α × τ}
    (agree : Agree rel take other) (note : List α → List α) :
    Agree rel (noting note take) (noting note other) := by
  intro state start related
  obtain ⟨taken, after⟩ := agree related
  exact ⟨congrArg note taken, after⟩

variable (simulates : Simulates first second rel keep hold)
include simulates

theorem Agree.takeThen {more : σ → List α × σ} {others : τ → List α × τ}
    (agree : Agree rel more others) :
    Agree rel (first.takeThen keep more) (second.takeThen hold others) := by
  intro state other related
  have look := simulates.look related
  rw [Lookahead.takeThen, Lookahead.takeThen, ← look]
  split
  · rename_i kept
    obtain ⟨taken, after⟩ := agree (simulates.next related kept)
    exact ⟨congrArg₂ List.cons (simulates.char related kept) taken, after⟩
  · exact ⟨rfl, related⟩

theorem Agree.takeIf : Agree rel (first.takeIf keep) (second.takeIf hold) :=
  .takeThen simulates fun _ _ related => ⟨rfl, related⟩

theorem Agree.takeWhile (fuel : Nat) :
    Agree rel (first.takeWhile keep fuel) (second.takeWhile hold fuel) := by
  induction fuel with
  | zero => exact fun _ _ related => ⟨rfl, related⟩
  | succ fuel induction => exact .takeThen simulates induction

end Simulation

/-! ## One scanner in two states -/

section Alike

variable {κ : Type*} {scanner : Lookahead σ ω α} {judge : ω → κ} {rel : σ → σ → Prop}

/-- Two states are the same, or consume the same and judge what they see alike. -/
def Alike (scanner : Lookahead σ ω α) (judge : ω → κ) (state other : σ) : Prop :=
  state = other ∨
    scanner.next state = scanner.next other ∧
      judge (scanner.look state) = judge (scanner.look other)

/-- Alike states go on alike, as far as only judgements matter. -/
theorem simulates_of_alike (refl : ∀ state, rel state state)
    (alike : ∀ {state other}, rel state other → scanner.Alike judge state other) {keep : ω → Bool}
    (judges : ∀ sight other, judge sight = judge other → keep sight = keep other) :
    Simulates scanner scanner rel keep keep where
  look := by
    intro state other related
    obtain rfl | ⟨-, judged⟩ := alike related
    · rfl
    · exact judges _ _ judged
  char := by
    intro state other related _
    obtain rfl | ⟨next, -⟩ := alike related
    · rfl
    · rw [next]
  next := by
    intro state other related _
    obtain rfl | ⟨next, -⟩ := alike related
    · exact refl _
    · rw [next]
      exact refl _

end Alike

end Lookahead
