import Mathlib.Data.List.Basic
import Mathlib.Tactic.Common

/-!
# Tables of virtual methods

A hierarchy is a list of levels, the most derived one first.  A level declares a name as a static
method or as a virtual one with a slot, or not at all.  What a slot should hold is the most derived
of the overrides that follow each other without a static method of that name in between.
-/

namespace Plang.VirtualTables

variable {ν label : Type*}

/-- A level by its label and its declarations: static ones, and virtual ones with their slots. -/
structure Level (ν label : Type*) where
  label : label
  declares : ν → Option (Option Nat)

/-- The nearest declaration of a name. -/
def nearest : List (Level ν label) → ν → Option (Option Nat)
  | [], _ => none
  | level :: ancestors, name => (level.declares name).or (nearest ancestors name)

/-- A name is introduced as virtual where no virtual method of that name is inherited. -/
def Introduces (level : Level ν label) (ancestors : List (Level ν label)) (name : ν) (slot : Nat) :
    Prop :=
  level.declares name = some (some slot) ∧ ∀ other, nearest ancestors name ≠ some (some other)

/-- Among the levels that are derived from a first one, the one whose method is the last override
before the name is declared static. -/
def LastOverride (derived : List (Level ν label)) (first : Level ν label) (name : ν) (slot : Nat)
    (holder : label) : Prop :=
  ∃ above level below, derived ++ [first] = above ++ level :: below ∧ level.label = holder ∧
    (∀ other ∈ level :: below, other.declares name = none ∨
      other.declares name = some (some slot)) ∧
    level.declares name = some (some slot) ∧
    ∀ later other between, above = later ++ other :: between →
      (∃ taken, other.declares name = some (some taken)) →
      ∃ hider ∈ between, hider.declares name = some none

/-- The holder of a slot is the last override of the method that introduced the slot. -/
def MostDerived (levels : List (Level ν label)) (name : ν) (slot : Nat) (holder : label) : Prop :=
  ∃ derived first ancestors, levels = derived ++ first :: ancestors ∧
    Introduces first ancestors name slot ∧ LastOverride derived first name slot holder

/-- Where one level is the last override, no later one is. -/
theorem last_eq {levels above below above' below' : List (Level ν label)}
    {level level' : Level ν label} {name : ν} {slot : Nat}
    (split : levels = above ++ level :: below) (split' : levels = above' ++ level' :: below')
    (chain : ∀ other ∈ level :: below, other.declares name = none ∨
      other.declares name = some (some slot))
    (own : level.declares name = some (some slot))
    (later' : ∀ later other between, above' = later ++ other :: between →
      (∃ taken, other.declares name = some (some taken)) →
      ∃ hider ∈ between, hider.declares name = some none)
    (longer : above.length ≤ above'.length) : level = level' := by
  obtain ⟨middle, rfl, parts⟩ : ∃ middle, above' = above ++ middle ∧
      level :: below = middle ++ level' :: below' := by
    rcases List.append_eq_append_iff.mp (split.symm.trans split') with
      ⟨middle, parts⟩ | ⟨middle, rfl, parts⟩
    · exact ⟨middle, parts⟩
    · rw [List.length_append] at longer
      obtain rfl : middle = [] := List.eq_nil_of_length_eq_zero (by omega)
      exact ⟨[], by simp, by simpa using parts.symm⟩
  cases middle with
  | nil => exact (List.cons.inj parts).1
  | cons first between =>
      obtain ⟨rfl, rfl⟩ := List.cons.inj parts
      obtain ⟨hider, occurs, static⟩ := later' above level between rfl ⟨slot, own⟩
      rcases chain hider (List.mem_cons_of_mem _ (List.mem_append_left _ occurs)) with
        silent | same
      · rw [static] at silent
        cases silent
      · rw [static] at same
        cases same

/-- There is one last override. -/
theorem LastOverride.unique {derived : List (Level ν label)} {first : Level ν label} {name : ν}
    {slot : Nat} {holder holder' : label} (last : LastOverride derived first name slot holder)
    (last' : LastOverride derived first name slot holder') : holder = holder' := by
  obtain ⟨above, level, below, split, rfl, chain, own, later⟩ := last
  obtain ⟨above', level', below', split', rfl, chain', own', later'⟩ := last'
  rcases Nat.le_total above.length above'.length with longer | longer
  · rw [last_eq split split' chain own later' longer]
  · rw [last_eq split' split chain' own' later longer]

/-- Where a slot is introduced once, it has one holder. -/
theorem MostDerived.unique {levels : List (Level ν label)} {name : ν} {slot : Nat}
    {holder holder' : label}
    (once : ∀ derived first ancestors derived' first' ancestors',
      levels = derived ++ first :: ancestors → levels = derived' ++ first' :: ancestors' →
      Introduces first ancestors name slot → Introduces first' ancestors' name slot →
      derived = derived')
    (most : MostDerived levels name slot holder) (most' : MostDerived levels name slot holder') :
    holder = holder' := by
  obtain ⟨derived, first, ancestors, split, introduces, last⟩ := most
  obtain ⟨derived', first', ancestors', split', introduces', last'⟩ := most'
  obtain rfl := once _ _ _ _ _ _ split split' introduces introduces'
  obtain ⟨rfl, _⟩ := List.cons.inj (List.append_cancel_left (split.symm.trans split'))
  exact last.unique last'

/-- The holder of a slot, level by level, and whether the name is still overridden there. -/
inductive Held : List (Level ν label) → ν → Nat → label → Bool → Prop where
  | introduced {level ancestors name slot} : Introduces level ancestors name slot →
      Held (level :: ancestors) name slot level.label true
  | overridden {level ancestors name slot holder} : Held ancestors name slot holder true →
      level.declares name = some (some slot) →
      Held (level :: ancestors) name slot level.label true
  | hidden {level ancestors name slot holder} : Held ancestors name slot holder true →
      level.declares name = some none → Held (level :: ancestors) name slot holder false
  | silent {level ancestors name slot holder open_} : Held ancestors name slot holder open_ →
      level.declares name = none → Held (level :: ancestors) name slot holder open_
  | apart {level ancestors name slot holder} : Held ancestors name slot holder false →
      Held (level :: ancestors) name slot holder false

variable {level other : Level ν label} {ancestors levels : List (Level ν label)} {name : ν}
  {slot : Nat} {holder : label} {open_ : Bool}

namespace Held

/-- While a slot is overridden, the nearest declaration of its name has it. -/
theorem nearest_eq (held : Held levels name slot holder open_) (is_open : open_ = true) :
    nearest levels name = some (some slot) := by
  induction held with
  | introduced introduces => rw [nearest, introduces.1, Option.some_or]
  | overridden _ declares _ => rw [nearest, declares, Option.some_or]
  | hidden => cases is_open
  | silent _ silent induction => rw [nearest, silent, Option.none_or, induction is_open]
  | apart => cases is_open

/-- Only what the first level says of the name matters. -/
theorem congr_head (held : Held (level :: ancestors) name slot holder open_)
    (same_label : level.label = other.label)
    (same : level.declares name = other.declares name) :
    Held (other :: ancestors) name slot holder open_ := by
  cases held with
  | introduced introduces =>
      rw [same_label]
      exact .introduced ⟨same ▸ introduces.1, introduces.2⟩
  | overridden held declares =>
      rw [same_label]
      exact .overridden held (same ▸ declares)
  | hidden held declares => exact .hidden held (same ▸ declares)
  | silent held silent => exact .silent held (same ▸ silent)
  | apart held => exact .apart held

/-- The holder level by level is the last override: while the slot is overridden, nothing after it
says anything of the name, and afterwards the name is declared static after it. -/
theorem mostDerived (held : Held levels name slot holder open_) :
    ∃ derived first ancestors, levels = derived ++ first :: ancestors ∧
      Introduces first ancestors name slot ∧ LastOverride derived first name slot holder ∧
      (open_ = true → ∀ level ∈ derived ++ [first], level.declares name = none ∨
        level.declares name = some (some slot)) ∧
      (open_ = false → ∃ hider ∈ derived, hider.declares name = some none) := by
  induction held with
  | @introduced level ancestors name slot introduces =>
      have only : ∀ other ∈ [level], other.declares name = none ∨
          other.declares name = some (some slot) := by
        intro other occurs
        rw [List.mem_singleton.mp occurs]
        exact .inr introduces.1
      refine ⟨[], level, ancestors, rfl, introduces, ⟨[], level, [], rfl, rfl, only, introduces.1, ?_⟩,
        fun _ => only, fun impossible => by cases impossible⟩
      intro later other between impossible
      simp at impossible
  | @overridden level ancestors name slot holder held declares induction =>
      obtain ⟨derived, first, rest, rfl, introduces, _, unbroken, _⟩ := induction
      have whole : ∀ other ∈ level :: (derived ++ [first]), other.declares name = none ∨
          other.declares name = some (some slot) :=
        List.forall_mem_cons.mpr ⟨.inr declares, unbroken rfl⟩
      refine ⟨level :: derived, first, rest, rfl, introduces,
        ⟨[], level, derived ++ [first], rfl, rfl, whole, declares, ?_⟩, fun _ => whole,
        fun impossible => by cases impossible⟩
      intro later other between impossible
      simp at impossible
  | @hidden level ancestors name slot holder held declares induction =>
      obtain ⟨derived, first, rest, rfl, introduces, ⟨above, last, below, split, labelled, chain, own,
        later⟩, _, _⟩ := induction
      refine ⟨level :: derived, first, rest, rfl, introduces,
        ⟨level :: above, last, below, by rw [List.cons_append, split, List.cons_append], labelled,
          chain, own, ?_⟩, (fun impossible => by cases impossible),
        fun _ => ⟨level, List.mem_cons_self, declares⟩⟩
      rintro (_ | ⟨_, earlier⟩) other between parts ⟨taken, virtual⟩
      · obtain ⟨rfl, _⟩ := List.cons.inj parts
        rw [declares] at virtual
        cases virtual
      · obtain ⟨_, parts⟩ := List.cons.inj parts
        exact later earlier other between parts ⟨taken, virtual⟩
  | @silent level ancestors name slot holder open_ held silent induction =>
      obtain ⟨derived, first, rest, rfl, introduces, ⟨above, last, below, split, labelled, chain, own,
        later⟩, unbroken, broken⟩ := induction
      refine ⟨level :: derived, first, rest, rfl, introduces,
        ⟨level :: above, last, below, by rw [List.cons_append, split, List.cons_append], labelled,
          chain, own, ?_⟩,
        fun is_open => List.forall_mem_cons.mpr ⟨.inl silent, unbroken is_open⟩,
        fun closed => ?_⟩
      · rintro (_ | ⟨_, earlier⟩) other between parts ⟨taken, virtual⟩
        · obtain ⟨rfl, _⟩ := List.cons.inj parts
          rw [silent] at virtual
          cases virtual
        · obtain ⟨_, parts⟩ := List.cons.inj parts
          exact later earlier other between parts ⟨taken, virtual⟩
      · obtain ⟨hider, occurs, static⟩ := broken closed
        exact ⟨hider, List.mem_cons_of_mem _ occurs, static⟩
  | @apart level ancestors name slot holder held induction =>
      obtain ⟨derived, first, rest, rfl, introduces, ⟨above, last, below, split, labelled, chain, own,
        later⟩, _, broken⟩ := induction
      obtain ⟨hider, occurs, static⟩ := broken rfl
      refine ⟨level :: derived, first, rest, rfl, introduces,
        ⟨level :: above, last, below, by rw [List.cons_append, split, List.cons_append], labelled,
          chain, own, ?_⟩, (fun impossible => by cases impossible),
        fun _ => ⟨hider, List.mem_cons_of_mem _ occurs, static⟩⟩
      rintro (_ | ⟨_, earlier⟩) other between parts ⟨taken, virtual⟩
      · -- the level that hides the name stands after the holder
        obtain ⟨rfl, rfl⟩ := List.cons.inj parts
        have within : hider ∈ above ++ last :: below :=
          split ▸ List.mem_append_left _ occurs
        rcases List.mem_append.mp within with above_occurs | chained
        · exact ⟨hider, above_occurs, static⟩
        · rcases chain hider chained with silent | same
          · rw [static] at silent
            cases silent
          · rw [static] at same
            cases same
      · obtain ⟨_, parts⟩ := List.cons.inj parts
        exact later earlier other between parts ⟨taken, virtual⟩

theorem most (held : Held levels name slot holder open_) : MostDerived levels name slot holder := by
  obtain ⟨derived, first, ancestors, split, introduces, last, _⟩ := held.mostDerived
  exact ⟨derived, first, ancestors, split, introduces, last⟩

end Held

end Plang.VirtualTables
