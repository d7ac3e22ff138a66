import Mathlib.Data.List.Nodup
import Mathlib.Logic.Relation
import Mathlib.Tactic.Common

/-!
# Activations and static links

Blocks are nested, and a procedure is called in the activation of the block that declares it.  The
language says so by a link from each activation to another; an implementation hands on a frame that
names the activations around the procedure by their levels.  In every run the frame names what the
links lead to, and what it names is still there.
-/

namespace Plang.StaticLinks

variable {β : Type*}

/-- A procedure as a value: its block and the blocks around it, the frame that goes with it, and the
activation it is declared in. -/
structure Closure (β : Type*) where
  blocks : List β
  frame : List Nat
  link : Option Nat

/-- An activation: what it was called as, the procedures it was given, and whether the statement
part of its block has begun. -/
structure Activation (β : Type*) where
  id : Nat
  callee : Closure β
  formals : List (Closure β)
  started : Bool

/-- The activations that an activation can name, its own first. -/
def Activation.display (activation : Activation β) : List Nat :=
  activation.id :: activation.callee.frame

/-- The activations there are, the last one called first. -/
abbrev Stack (β : Type*) := List (Activation β)

/-- The activations that some link leads to. -/
inductive Linked (stack : Stack β) : Option Nat → List (Activation β) → Prop
  | outermost : Linked stack none []
  | within {activation around} : activation ∈ stack →
      Linked stack activation.callee.link around →
      Linked stack (some activation.id) (activation :: around)

variable (declares : β → β → Prop) (isGlobal : β → Prop)

/-- The procedures that an activation can call or hand on.  Until its statement part has begun, the
procedures of its own block are out of reach. -/
inductive Visible (stack : Stack β) (caller : Activation β) : Closure β → Prop
  | isGlobal {block} : isGlobal block → Visible stack caller ⟨[block], [], none⟩
  | declared {around holder block proc} {level : Nat} : Linked stack caller.callee.link around →
      (caller :: around)[level]? = some holder → caller.callee.blocks[level]? = some block →
      declares block proc → (level = 0 → caller.started = true) →
      Visible stack caller
        ⟨proc :: caller.callee.blocks.drop level, caller.display.drop level, some holder.id⟩
  | formal {around holder closure} : Linked stack caller.callee.link around →
      holder ∈ caller :: around → closure ∈ holder.formals → Visible stack caller closure

/-- One step of a run. -/
inductive Step : Stack β → Stack β → Prop
  | start {caller rest} : Step (caller :: rest) ({ caller with started := true } :: rest)
  | call {caller rest closure formals id} :
      Visible declares isGlobal (caller :: rest) caller closure →
      (∀ formal ∈ formals, Visible declares isGlobal (caller :: rest) caller formal) →
      (∀ other ∈ caller :: rest, other.id ≠ id) →
      Step (caller :: rest) (⟨id, closure, formals, false⟩ :: caller :: rest)
  | done {caller rest} : rest ≠ [] → Step (caller :: rest) rest
  /-- A jump to an activation that the frame names abandons all that were called since. -/
  | jump {caller rest target above below} {level : Nat} : caller.display[level]? = some target.id →
      caller :: rest = above ++ target :: below → Step (caller :: rest) (target :: below)

/-- The stacks reached from the activation of one block, or of none. -/
def Reached (blocks : List β) (stack : Stack β) : Prop :=
  ∃ id started, Relation.ReflTransGen (Step declares isGlobal)
    [⟨id, ⟨blocks, [], none⟩, [], started⟩] stack

/-! ### What frames name -/

/-- A frame names the activations that the link leads to, one of each block around the procedure,
and each of them has begun. -/
def Names (stack : Stack β) (closure : Closure β) : Prop :=
  ∃ around, Linked stack closure.link around ∧ closure.frame = around.map Activation.id ∧
    around.length = closure.blocks.length - 1 ∧
    (∀ (level : Nat) activation, around[level]? = some activation →
      activation.callee.blocks = closure.blocks.drop (level + 1)) ∧
    ∀ activation ∈ around, activation.started = true

/-- Every activation and every procedure value names activations that were there before. -/
inductive Sound : Stack β → Prop
  | nil : Sound []
  | cons {activation rest} : Sound rest → (∀ other ∈ rest, other.id ≠ activation.id) →
      Names rest activation.callee → (∀ formal ∈ activation.formals, Names rest formal) →
      Sound (activation :: rest)

variable {declares isGlobal}

theorem Linked.mono {stack : Stack β} {link : Option Nat} {around : List (Activation β)}
    (linked : Linked stack link around) (newer : Activation β) :
    Linked (newer :: stack) link around := by
  induction linked with
  | outermost => exact .outermost
  | within occurs _ induction => exact .within (List.mem_cons_of_mem _ occurs) induction

theorem Names.mono {stack : Stack β} {closure : Closure β} (names : Names stack closure)
    (newer : Activation β) : Names (newer :: stack) closure := by
  obtain ⟨around, linked, rest⟩ := names
  exact ⟨around, linked.mono newer, rest⟩

theorem Linked.drop {stack : Stack β} {link : Option Nat} {around : List (Activation β)}
    (linked : Linked stack link around) {level : Nat} {holder : Activation β}
    (held : around[level]? = some holder) : Linked stack (some holder.id) (around.drop level) := by
  induction linked generalizing level with
  | outermost => simp at held
  | within occurs above induction =>
      cases level with
      | zero =>
          obtain rfl := Option.some.inj held
          exact .within occurs above
      | succ level => exact induction held

theorem Linked.subset {stack : Stack β} {link : Option Nat} {around : List (Activation β)}
    (linked : Linked stack link around) : ∀ activation ∈ around, activation ∈ stack := by
  induction linked with
  | outermost => simp
  | within occurs _ induction => exact List.forall_mem_cons.mpr ⟨occurs, induction⟩

namespace Sound

variable {stack rest : Stack β} {caller activation : Activation β}

theorem tail (sound : Sound (caller :: rest)) : Sound rest := by
  cases sound with
  | cons sound _ _ _ => exact sound

theorem suffix {above below : Stack β} (sound : Sound (above ++ below)) : Sound below := by
  induction above with
  | nil => exact sound
  | cons first above induction => exact induction sound.tail

/-- An activation is known by its number. -/
theorem id_injective (sound : Sound stack) {first second : Activation β} (first_mem : first ∈ stack)
    (second_mem : second ∈ stack) (same : first.id = second.id) : first = second := by
  induction sound with
  | nil => cases first_mem
  | @cons top rest _ fresh _ _ induction =>
      rcases List.mem_cons.mp first_mem with rfl | first_below
      · rcases List.mem_cons.mp second_mem with rfl | second_below
        · rfl
        · exact absurd same.symm (fresh second second_below)
      · rcases List.mem_cons.mp second_mem with rfl | second_below
        · exact absurd same (fresh first first_below)
        · exact induction first_below second_below

/-- A link leads to one list of activations. -/
theorem linked_unique (sound : Sound stack) {link : Option Nat} {around around' : List (Activation β)}
    (linked : Linked stack link around) (linked' : Linked stack link around') : around = around' := by
  induction linked generalizing around' with
  | outermost =>
      cases linked'
      rfl
  | @within first around occurs _ induction =>
      generalize link_eq : some first.id = link at linked'
      cases linked' with
      | outermost => cases link_eq
      | @within second around' occurs' linked' =>
          obtain rfl := sound.id_injective occurs occurs' (Option.some.inj link_eq)
          rw [induction linked']

/-- What every activation of a sound stack names. -/
theorem names_of_mem (sound : Sound stack) (occurs : activation ∈ stack) :
    Names stack activation.callee ∧ ∀ formal ∈ activation.formals, Names stack formal := by
  induction sound with
  | nil => cases occurs
  | @cons top rest _ _ callee formals induction =>
      rcases List.mem_cons.mp occurs with rfl | occurs
      · exact ⟨callee.mono _, fun formal listed => (formals formal listed).mono _⟩
      · obtain ⟨named, given⟩ := induction occurs
        exact ⟨named.mono top, fun formal listed => (given formal listed).mono top⟩

end Sound

/-! ### Runs -/

section Runs

variable {rest : Stack β} {caller : Activation β} {closure : Closure β}

/-- What an activation can call names activations that are there. -/
theorem Visible.names (sound : Sound (caller :: rest))
    (visible : Visible declares isGlobal (caller :: rest) caller closure) :
    Names (caller :: rest) closure := by
  obtain ⟨around, linked, frame, length, blocks, started⟩ := (sound.names_of_mem List.mem_cons_self).1
  cases visible with
  | isGlobal _ => exact ⟨[], .outermost, rfl, rfl, by simp, by simp⟩
  | @declared around' holder block proc level linked' held block_at _ begun =>
      obtain rfl := sound.linked_unique linked linked'
      have chain : Linked (caller :: rest) (some caller.id) (caller :: around) :=
        .within List.mem_cons_self linked
      refine ⟨(caller :: around).drop level, chain.drop held, ?_, ?_, fun index activation at_index => ?_,
        fun activation occurs => ?_⟩
      · rw [Activation.display, frame, ← List.map_cons, List.map_drop]
      · have within := (List.getElem?_eq_some_iff.mp block_at).1
        simp only [List.length_drop, List.length_cons]
        omega
      · rw [List.getElem?_drop] at at_index
        rw [List.drop_succ_cons, List.drop_drop]
        cases further : level + index with
        | zero =>
            rw [further] at at_index
            obtain rfl := Option.some.inj at_index
            exact List.drop_zero.symm
        | succ further_in =>
            rw [further] at at_index
            exact blocks further_in activation at_index
      · cases level with
        | zero =>
            rcases List.mem_cons.mp occurs with rfl | occurs
            · exact begun rfl
            · exact started activation occurs
        | succ level => exact started activation (List.mem_of_mem_drop occurs)
  | @formal _ holder _ linked' holds given =>
      obtain rfl := sound.linked_unique linked linked'
      have occurs : holder ∈ caller :: rest := by
        rcases List.mem_cons.mp holds with rfl | within
        · exact List.mem_cons_self
        · exact linked.subset _ within
      exact (sound.names_of_mem occurs).2 closure given

theorem Step.sound {stack next : Stack β} (sound : Sound stack)
    (step : Step declares isGlobal stack next) : Sound next := by
  cases step with
  | start =>
      cases sound with
      | cons below fresh callee formals => exact .cons below fresh callee formals
  | call visible given fresh =>
      exact .cons sound fresh (visible.names sound) fun formal listed =>
        (given formal listed).names sound
  | done _ => exact sound.tail
  | jump _ split =>
      rw [split] at sound
      exact sound.suffix

theorem Reached.sound {blocks : List β} {stack : Stack β} (outermost : blocks.length ≤ 1)
    (reached : Reached declares isGlobal blocks stack) : Sound stack := by
  obtain ⟨id, started, steps⟩ := reached
  induction steps with
  | refl =>
      have alone : ([] : Stack β).length = blocks.length - 1 := by
        rw [List.length_nil]
        omega
      exact .cons .nil (by simp) ⟨[], .outermost, rfl, alone, by simp, by simp⟩ (by simp)
  | tail _ step induction => exact step.sound induction

/-- What the frame names at a level is the activation that the links lead to there: one of the block
at that level, which was there before and has begun. -/
theorem Sound.display_names (sound : Sound (caller :: rest)) {level : Nat}
    (within : level + 1 < caller.callee.blocks.length) :
    ∃ around target, Linked (caller :: rest) caller.callee.link around ∧
      around[level]? = some target ∧ caller.display[level + 1]? = some target.id ∧
      target ∈ rest ∧ target.callee.blocks = caller.callee.blocks.drop (level + 1) ∧
      target.started = true := by
  cases sound with
  | cons _ _ named _ =>
      obtain ⟨around, linked, frame, length, blocks, started⟩ := named
      obtain ⟨target, held⟩ : ∃ target, around[level]? = some target :=
        ⟨_, List.getElem?_eq_getElem (by omega)⟩
      refine ⟨around, target, linked.mono caller, held, ?_,
        linked.subset _ (List.mem_of_getElem? held), blocks level target held,
        started target (List.mem_of_getElem? held)⟩
      rw [Activation.display, frame, List.getElem?_cons_succ, List.getElem?_map, held,
        Option.map_some]

end Runs

end Plang.StaticLinks
