import Mathlib.Data.Option.Basic

/-!
# Stateful computations with a bound on their calls

A computation with a state is given a number of calls that it may nest, and does not come to an end
where it needs more.  With enough of them, a run either ends with what is expected of it, or each
end that it may come to is lost: what follows does not make up for it.
-/

namespace Fuel

universe u

variable {σ α β : Type u}

/-- A computation for each number of calls. -/
abbrev Bounded (σ α : Type u) := Nat → StateT σ Option α

/-- With enough calls, the run from a state ends with a result in a state if it is good, and
otherwise only in states that are lost. -/
def Ends (lost : σ → Prop) (run : Bounded σ α) (before : σ) (result : α) (after : σ)
    (good : Bool) : Prop :=
  ∃ enough, ∀ fuel, enough ≤ fuel →
    (good = true → run fuel before = some (result, after)) ∧
      (good = false → ∀ other final, run fuel before = some (other, final) → lost final)

/-- The computation turns states of the one kind into states of the other. -/
def Turns (before after : σ → Prop) (run : StateT σ Option α) : Prop :=
  ∀ start result final, before start → run start = some (result, final) → after final

theorem bind_apply (run : StateT σ Option α) (next : α → StateT σ Option β) (before : σ) :
    (run >>= next) before = (run before).bind fun middle => next middle.1 middle.2 := rfl

theorem pure_apply (result : α) (before : σ) :
    (pure result : StateT σ Option α) before = some (result, before) := rfl

/-- Every result of the run is of the kind. -/
def Yields (kind : α → Prop) (run : StateT σ Option α) : Prop :=
  ∀ start result final, run start = some (result, final) → kind result

namespace Yields

variable {kind : α → Prop}

theorem pure {result : α} (holds : kind result) :
    Yields kind (Pure.pure result : StateT σ Option α) := by
  rintro start _ final ⟨⟩
  exact holds

/-- What follows a run has the results of that run to begin with. -/
theorem bind_of {middle : β → Prop} {run : StateT σ Option β} {next : β → StateT σ Option α}
    (first : Yields middle run) (second : ∀ result, middle result → Yields kind (next result)) :
    Yields kind (run >>= next) := by
  intro start result final ended
  rw [bind_apply] at ended
  obtain ⟨⟨between, state⟩, begun, ended⟩ := Option.bind_eq_some_iff.mp ended
  exact second between (first start between state begun) state result final ended

theorem bind {run : StateT σ Option β} {next : β → StateT σ Option α}
    (second : ∀ result, Yields kind (next result)) : Yields kind (run >>= next) :=
  bind_of (fun _ _ _ _ => trivial) fun result (_ : True) => second result

theorem failure : Yields kind (failure : StateT σ Option α) := by
  intro start result final ended
  cases ended

theorem ite {condition : Prop} [Decidable condition] {left right : StateT σ Option α}
    (first : Yields kind left) (second : Yields kind right) :
    Yields kind (if condition then left else right) := by
  split
  · exact first
  · exact second

theorem mono {other : α → Prop} {run : StateT σ Option α} (yields : Yields kind run)
    (weaker : ∀ result, kind result → other result) : Yields other run :=
  fun start result final ended => weaker result (yields start result final ended)

end Yields

namespace Turns

variable {before middle after : σ → Prop}

theorem pure (result : α) : Turns before before (Pure.pure result : StateT σ Option α) := by
  rintro start _ final holds ⟨⟩
  exact holds

theorem bind {run : StateT σ Option α} {next : α → StateT σ Option β}
    (first : Turns before middle run) (second : ∀ result, Turns middle after (next result)) :
    Turns before after (run >>= next) := by
  intro start result final holds ended
  rw [bind_apply] at ended
  obtain ⟨⟨between, state⟩, begun, ended⟩ := Option.bind_eq_some_iff.mp ended
  exact second between state result final (first start between state holds begun) ended

theorem failure : Turns before after (failure : StateT σ Option α) := by
  intro start result final holds ended
  cases ended

theorem ite {condition : Prop} [Decidable condition] {left right : StateT σ Option α}
    (first : Turns before after left) (second : Turns before after right) :
    Turns before after (if condition then left else right) := by
  split
  · exact first
  · exact second

theorem weaken {run : StateT σ Option α} (turns : Turns before middle run)
    (weaker : ∀ state, middle state → after state) : Turns before after run :=
  fun start result final holds ended => weaker final (turns start result final holds ended)

end Turns

namespace Ends

variable {lost left : σ → Prop} {run : Bounded σ α} {before middle after : σ} {result : α}
  {good : Bool}

theorem pure (result : α) (before : σ) :
    Ends lost (fun _ => Pure.pure result) before result before true :=
  ⟨0, fun _ _ => ⟨fun _ => rfl, fun wrong => absurd wrong (by decide)⟩⟩

/-- A run that goes on as another one does. -/
theorem of_eq {other : Bounded σ α} (ends : Ends lost other middle result after good)
    (same : ∀ fuel, run fuel before = other fuel middle) :
    Ends lost run before result after good := by
  obtain ⟨enough, ends⟩ := ends
  refine ⟨enough, fun fuel le => ?_⟩
  rw [same fuel]
  exact ends fuel le

/-- A call of a computation with a body. -/
theorem call (body : Bounded σ α) (called : ∀ fuel, run (fuel + 1) = body fuel)
    (ends : Ends lost body before result after good) : Ends lost run before result after good := by
  obtain ⟨enough, ends⟩ := ends
  refine ⟨enough + 1, fun fuel le => ?_⟩
  obtain ⟨fuel, rfl⟩ : ∃ less, fuel = less + 1 := ⟨fuel - 1, by omega⟩
  rw [called fuel]
  exact ends fuel (by omega)

theorem weaken (ends : Ends left run before result after good)
    (weaker : ∀ state, left state → lost state) : Ends lost run before result after good := by
  obtain ⟨enough, ends⟩ := ends
  exact ⟨enough, fun fuel le => ⟨(ends fuel le).1, fun wrong other final ended =>
    weaker final ((ends fuel le).2 wrong other final ended)⟩⟩

/-- A run that is not good does not end with anything else either. -/
theorem elsewhere {other : α} {final : σ} (ends : Ends lost run before result after false) :
    Ends lost run before other final false := by
  obtain ⟨enough, ends⟩ := ends
  exact ⟨enough, fun fuel le => ⟨fun wrong => absurd wrong (by decide), (ends fuel le).2⟩⟩

/-- Where the expected end is lost as well, each end is. -/
theorem all_lost {other : α} {final : σ} (ends : Ends lost run before result after good)
    (gone : lost after) : Ends lost run before other final false := by
  obtain ⟨enough, ends⟩ := ends
  refine ⟨enough, fun fuel le => ⟨fun wrong => absurd wrong (by decide), ?_⟩⟩
  intro _ found state ended
  cases good with
  | false => exact (ends fuel le).2 rfl found state ended
  | true =>
      rw [(ends fuel le).1 rfl] at ended
      obtain ⟨-, rfl⟩ := Prod.mk.inj (Option.some.inj ended)
      exact gone

/-- One run behind another: a lost state is not made up for. -/
theorem bind {next : α → Bounded σ β} {last : β} {final : σ} {fine : Bool}
    (first : Ends left run before result middle good)
    (second : Ends lost (next result) middle last final fine)
    (turns : ∀ result fuel, Turns left lost (next result fuel)) :
    Ends lost (fun fuel => run fuel >>= fun result => next result fuel) before last final
      (good && fine) := by
  obtain ⟨enough, first⟩ := first
  cases good with
  | false =>
      refine ⟨enough, fun fuel le => ⟨fun wrong => absurd wrong (by simp), ?_⟩⟩
      intro _ other gone ended
      obtain ⟨⟨between, state⟩, begun, ended⟩ := Option.bind_eq_some_iff.mp ended
      exact turns between fuel state other gone ((first fuel le).2 rfl between state begun) ended
  | true =>
      obtain ⟨more, second⟩ := second
      refine ⟨max enough more, fun fuel le => ?_⟩
      have begun := (first fuel (Nat.le_trans (Nat.le_max_left _ _) le)).1 rfl
      have goes := second fuel (Nat.le_trans (Nat.le_max_right _ _) le)
      simp only [bind_apply, begun, Option.bind_some, Bool.true_and]
      exact goes

/-- A run whose result is put into another one. -/
theorem returning (make : α → β) (ends : Ends lost run before result after good) :
    Ends lost (fun fuel => run fuel >>= fun result => Pure.pure (make result)) before (make result)
      after good := by
  rw [← Bool.and_true good]
  exact ends.bind (.pure (make result) after) fun result _ => .pure (make result)

/-- A run that is good ends with what is expected, and one that is not does not where that end is
not lost. -/
theorem iff (ends : Ends lost run before result after good) (found : ¬ lost after) :
    (∃ enough, ∀ fuel, enough ≤ fuel → run fuel before = some (result, after)) ↔ good = true := by
  obtain ⟨enough, ends⟩ := ends
  constructor
  · rintro ⟨more, reached⟩
    by_contra wrong
    have here := reached (max enough more) (Nat.le_max_right _ _)
    exact found ((ends _ (Nat.le_max_left _ _)).2 (by simpa using wrong) result after here)
  · intro fine
    exact ⟨enough, fun fuel le => (ends fuel le).1 fine⟩

end Ends

/-! ### Runs that come to what is expected -/

/-- With enough calls, the run from a state ends with a result in a state. -/
def Comes (run : Bounded σ α) (before : σ) (result : α) (after : σ) : Prop :=
  ∃ enough, ∀ fuel, enough ≤ fuel → run fuel before = some (result, after)

theorem Ends.comes {lost : σ → Prop} {run : Bounded σ α} {before after : σ} {result : α}
    (ends : Ends lost run before result after true) : Comes run before result after := by
  obtain ⟨enough, ends⟩ := ends
  exact ⟨enough, fun fuel le => (ends fuel le).1 rfl⟩

namespace Comes

variable {run : Bounded σ α} {before middle after : σ} {result : α}

theorem pure (result : α) (before : σ) : Comes (fun _ => Pure.pure result) before result before :=
  ⟨0, fun _ _ => rfl⟩

theorem of_eq {other : Bounded σ α} (comes : Comes other middle result after)
    (same : ∀ fuel, run fuel before = other fuel middle) : Comes run before result after := by
  obtain ⟨enough, comes⟩ := comes
  exact ⟨enough, fun fuel le => (same fuel).trans (comes fuel le)⟩

theorem call (body : Bounded σ α) (called : ∀ fuel, run (fuel + 1) = body fuel)
    (comes : Comes body before result after) : Comes run before result after := by
  obtain ⟨enough, comes⟩ := comes
  refine ⟨enough + 1, fun fuel le => ?_⟩
  obtain ⟨fuel, rfl⟩ : ∃ less, fuel = less + 1 := ⟨fuel - 1, by omega⟩
  rw [called fuel]
  exact comes fuel (by omega)

theorem bind {next : α → Bounded σ β} {last : β} {final : σ}
    (first : Comes run before result middle) (second : Comes (next result) middle last final) :
    Comes (fun fuel => run fuel >>= fun result => next result fuel) before last final := by
  obtain ⟨enough, first⟩ := first
  obtain ⟨more, second⟩ := second
  refine ⟨max enough more, fun fuel le => ?_⟩
  have begun := first fuel (Nat.le_trans (Nat.le_max_left _ _) le)
  simp only [bind_apply, begun, Option.bind_some]
  exact second fuel (Nat.le_trans (Nat.le_max_right _ _) le)

theorem of_pos {condition : Prop} [Decidable condition] {other : Bounded σ α} (holds : condition)
    (comes : Comes run before result after) :
    Comes (fun fuel => if condition then run fuel else other fuel) before result after := by
  simpa only [if_pos holds] using comes

theorem of_neg {condition : Prop} [Decidable condition] {other : Bounded σ α} (fails : ¬condition)
    (comes : Comes run before result after) :
    Comes (fun fuel => if condition then other fuel else run fuel) before result after := by
  simpa only [if_neg fails] using comes

end Comes

end Fuel
