import Mathlib.Logic.Function.Basic
import Mathlib.Logic.Relation
import Mathlib.Data.List.Infix

/-!
# Basic blocks

Code is made of blocks, each a run of instructions and the branch that closes it.  A builder adds
instructions to the block that it has gone to; what it has closed stays as it is.
-/

namespace BasicBlocks

variable {σ ν : Type*}

/-! ### Code -/

/-- A block: one of those that are numbered in the order of their creation, or the one of a name. -/
inductive BlockId (ν : Type*) where
  | fresh (number : Nat)
  | named (name : ν)
  deriving DecidableEq

/-- The values of instructions, each assigned in one place. -/
abbrev Temps : Type := Nat → Int

/-- An instruction may end the program. -/
inductive Instruction (σ : Type*) where
  | act (run : Temps → σ → Except σ σ)
  /-- The value of an expression. -/
  | eval (temp : Nat) (value : σ → Except σ (Int × σ))
  /-- A value of others. -/
  | calc (temp : Nat) (value : Temps → Int)

inductive Terminator (ν : Type*) where
  | br (target : BlockId ν)
  | condBr (test : Temps → Bool) (ifTrue ifFalse : BlockId ν)
  | ret
  | unreachable

structure Block (σ ν : Type*) where
  instrs : List (Instruction σ)
  term : Option (Terminator ν)

abbrev Code (σ ν : Type*) : Type _ := BlockId ν → Block σ ν

/-! ### Running code -/

/-- A place in the code. -/
structure Place (ν : Type*) where
  block : BlockId ν
  index : Nat

/-- The beginning of a block. -/
def BlockId.start (block : BlockId ν) : Place ν := ⟨block, 0⟩

def Place.next (place : Place ν) : Place ν := ⟨place.block, place.index + 1⟩

inductive Config (σ ν : Type*) where
  | at (place : Place ν) (temps : Temps) (state : σ)
  | returned (state : σ)
  | stopped (state : σ)

def Instruction.step (place : Place ν) (temps : Temps) (state : σ) : Instruction σ → Config σ ν
  | .act run =>
      match run temps state with
      | .ok state => .at place.next temps state
      | .error state => .stopped state
  | .eval temp value =>
      match value state with
      | .ok (result, state) => .at place.next (Function.update temps temp result) state
      | .error state => .stopped state
  | .calc temp value => .at place.next (Function.update temps temp (value temps)) state

def Terminator.step (temps : Temps) (state : σ) : Terminator ν → Option (Config σ ν)
  | .br target => some (.at target.start temps state)
  | .condBr test ifTrue ifFalse =>
      some (.at (if test temps then ifTrue else ifFalse).start temps state)
  | .ret => some (.returned state)
  | .unreachable => none

/-- One step; nothing where the program has ended, or where there is nothing to run. -/
def step (code : Code σ ν) : Config σ ν → Option (Config σ ν)
  | .at place temps state =>
      match (code place.block).instrs[place.index]? with
      | some instr => some (instr.step place temps state)
      | none => (code place.block).term.bind (·.step temps state)
  | .returned _ => none
  | .stopped _ => none

/-- The code ends here after some number of steps. -/
inductive Ends (code : Code σ ν) : Nat → Config σ ν → Config σ ν → Prop
  | returned (state : σ) : Ends code 0 (.returned state) (.returned state)
  | stopped (state : σ) : Ends code 0 (.stopped state) (.stopped state)
  | step {steps : Nat} {before after final : Config σ ν} (one : step code before = some after)
      (rest : Ends code steps after final) : Ends code (steps + 1) before final

def Reaches (code : Code σ ν) : Config σ ν → Config σ ν → Prop :=
  Relation.ReflTransGen fun before after => step code before = some after

/-- One configuration leads to another in one step or more. -/
def Moves (code : Code σ ν) : Config σ ν → Config σ ν → Prop :=
  Relation.TransGen fun before after => step code before = some after

variable {code : Code σ ν}

theorem Moves.reaches {before after : Config σ ν} (moves : Moves code before after) :
    Reaches code before after :=
  Relation.TransGen.to_reflTransGen moves

theorem Reaches.moves {before middle after : Config σ ν} (reaches : Reaches code before middle)
    (moves : Moves code middle after) : Moves code before after :=
  Relation.TransGen.trans_right reaches moves

theorem Reaches.ends {before after final : Config σ ν} {steps : Nat}
    (reaches : Reaches code before after) (rest : Ends code steps after final) :
    ∃ more, Ends code more before final := by
  induction reaches using Relation.ReflTransGen.head_induction_on with
  | refl => exact ⟨steps, rest⟩
  | head one _ induction =>
      obtain ⟨more, ends⟩ := induction
      exact ⟨more + 1, .step one ends⟩

theorem Ends.after {before middle final : Config σ ν} {steps : Nat}
    (ends : Ends code steps before final) (one : BasicBlocks.step code before = some middle) :
    ∃ fewer, steps = fewer + 1 ∧ Ends code fewer middle final := by
  cases ends with
  | returned state => cases one
  | stopped state => cases one
  | step first rest =>
      rw [one, Option.some.injEq] at first
      exact ⟨_, rfl, first ▸ rest⟩

/-- Code that ends does so from wherever it comes to. -/
theorem Ends.rest {before middle final : Config σ ν} {steps : Nat}
    (ends : Ends code steps before final) (reaches : Reaches code before middle) :
    ∃ fewer ≤ steps, Ends code fewer middle final := by
  induction reaches with
  | refl => exact ⟨steps, Nat.le_refl steps, ends⟩
  | tail _ one induction =>
      obtain ⟨fewer, le, ends⟩ := induction
      obtain ⟨rest, rfl, behind⟩ := ends.after one
      exact ⟨rest, (Nat.le_succ rest).trans le, behind⟩

theorem Ends.restMoves {before middle final : Config σ ν} {steps : Nat}
    (ends : Ends code steps before final) (moves : Moves code before middle) :
    ∃ fewer < steps, Ends code fewer middle final := by
  obtain ⟨next, one, reaches⟩ := Relation.TransGen.head'_iff.mp moves
  obtain ⟨rest, rfl, behind⟩ := ends.after one
  obtain ⟨fewer, le, last⟩ := behind.rest reaches
  exact ⟨fewer, Nat.lt_succ_of_le le, last⟩

/-! ### What stands at a place -/

/-- An instruction stands at the place. -/
def Instruction.At (code : Code σ ν) (place : Place ν) (instr : Instruction σ) : Prop :=
  (code place.block).instrs[place.index]? = some instr

/-- The block is closed at the place. -/
def Terminator.At (code : Code σ ν) (place : Place ν) (term : Terminator ν) : Prop :=
  (code place.block).instrs.length = place.index ∧ (code place.block).term = some term

/-- From where some code is left, if it is left at its end, the block goes on to another one. -/
def Joins (code : Code σ ν) (left : Option (Place ν)) (target : BlockId ν) : Prop :=
  ∀ place, left = some place → (Terminator.br target).At code place

theorem Instruction.At.step {place : Place ν} {instr : Instruction σ} (stands : instr.At code place)
    (temps : Temps) (state : σ) :
    BasicBlocks.step code (.at place temps state) = some (instr.step place temps state) := by
  rw [Instruction.At] at stands
  rw [BasicBlocks.step, stands]

theorem Terminator.At.step {place : Place ν} {term : Terminator ν} (stands : term.At code place)
    (temps : Temps) (state : σ) :
    BasicBlocks.step code (.at place temps state) = term.step temps state := by
  have behind : (code place.block).instrs[place.index]? = none :=
    List.getElem?_eq_none stands.1.le
  rw [BasicBlocks.step, behind, stands.2]
  rfl

/-! ### Single steps -/

variable {place : Place ν} {temps : Temps} {state after : σ}

theorem Instruction.At.acts {run : Temps → σ → Except σ σ}
    (stands : (Instruction.act run).At code place)
    (ok : run temps state = .ok after) :
    BasicBlocks.step code (.at place temps state) = some (.at place.next temps after) := by
  rw [stands.step, Instruction.step, ok]

theorem Instruction.At.stops {run : Temps → σ → Except σ σ}
    (stands : (Instruction.act run).At code place)
    (error : run temps state = .error after) :
    BasicBlocks.step code (.at place temps state) = some (.stopped after) := by
  rw [stands.step, Instruction.step, error]

theorem Instruction.At.evals {temp : Nat} {value : σ → Except σ (Int × σ)} {result : Int}
    (stands : (Instruction.eval temp value).At code place)
    (ok : value state = .ok (result, after)) :
    BasicBlocks.step code (.at place temps state) =
      some (.at place.next (Function.update temps temp result) after) := by
  rw [stands.step, Instruction.step, ok]

theorem Instruction.At.fails {temp : Nat} {value : σ → Except σ (Int × σ)}
    (stands : (Instruction.eval temp value).At code place) (error : value state = .error after) :
    BasicBlocks.step code (.at place temps state) = some (.stopped after) := by
  rw [stands.step, Instruction.step, error]

theorem Instruction.At.calcs {temp : Nat} {value : Temps → Int}
    (stands : (Instruction.calc temp value).At code place) :
    BasicBlocks.step code (.at place temps state) =
      some (.at place.next (Function.update temps temp (value temps)) state) :=
  stands.step temps state

theorem Terminator.At.goes {target : BlockId ν} (stands : (Terminator.br target).At code place) :
    BasicBlocks.step code (.at place temps state) = some (.at target.start temps state) :=
  stands.step temps state

theorem Terminator.At.branches {test : Temps → Bool} {ifTrue ifFalse : BlockId ν}
    (stands : (Terminator.condBr test ifTrue ifFalse).At code place) :
    BasicBlocks.step code (.at place temps state) =
      some (.at (if test temps then ifTrue else ifFalse).start temps state) :=
  stands.step temps state

theorem Reaches.step {before middle last : Config σ ν}
    (one : BasicBlocks.step code before = some middle) (rest : Reaches code middle last) :
    Reaches code before last :=
  .head one rest

/-! ### Code that does not get stuck -/

def Config.IsEnd : Config σ ν → Prop
  | .at _ _ _ => False
  | .returned _ | .stopped _ => True

/-- Code goes on for so many steps, unless it ends. -/
def GoesOn (code : Code σ ν) : Nat → Config σ ν → Prop
  | 0, _ => True
  | steps + 1, before =>
      before.IsEnd ∨ ∃ after, BasicBlocks.step code before = some after ∧ GoesOn code steps after

theorem goesOn_end {last : Config σ ν} (ended : last.IsEnd) (steps : Nat) :
    GoesOn code steps last := by
  cases steps with
  | zero => trivial
  | succ steps => exact .inl ended

theorem goesOn_of_step {before after : Config σ ν} {steps : Nat}
    (one : BasicBlocks.step code before = some after)
    (rest : ∀ fewer < steps, GoesOn code fewer after) : GoesOn code steps before := by
  cases steps with
  | zero => trivial
  | succ steps => exact .inr ⟨after, one, rest steps (Nat.lt_succ_self steps)⟩

theorem goesOn_stops {before : Config σ ν} {state : σ} {steps : Nat}
    (one : BasicBlocks.step code before = some (.stopped state)) : GoesOn code steps before :=
  have ended : (Config.stopped state : Config σ ν).IsEnd := trivial
  goesOn_of_step one fun fewer _ => goesOn_end ended fewer

theorem goesOn_returns {before : Config σ ν} {state : σ} {steps : Nat}
    (one : BasicBlocks.step code before = some (.returned state)) : GoesOn code steps before :=
  have ended : (Config.returned state : Config σ ν).IsEnd := trivial
  goesOn_of_step one fun fewer _ => goesOn_end ended fewer

theorem goesOn_of_moves {before after : Config σ ν} {steps : Nat} (moves : Moves code before after)
    (rest : ∀ fewer < steps, GoesOn code fewer after) : GoesOn code steps before := by
  induction moves using Relation.TransGen.head_induction_on generalizing steps with
  | single one => exact goesOn_of_step one rest
  | head one _ induction =>
      exact goesOn_of_step one fun fewer lt =>
        induction fun fewest lt' => rest fewest (lt'.trans lt)

/-- Code that always goes on does not get stuck. -/
theorem ended_or_steps {before after : Config σ ν} (always : ∀ steps, GoesOn code steps before)
    (reaches : Reaches code before after) :
    after.IsEnd ∨ ∃ next, BasicBlocks.step code after = some next := by
  induction reaches using Relation.ReflTransGen.head_induction_on with
  | refl => exact (always 1).imp_right fun ⟨next, one, _⟩ => ⟨next, one⟩
  | @head before middle one _ induction =>
      refine induction fun steps => ?_
      rcases always (steps + 1) with ended | ⟨next, first, rest⟩
      · cases before with
        | «at» place temps state => exact ended.elim
        | returned state => cases one
        | stopped state => cases one
      · obtain rfl := Option.some.inj (first.symm.trans one)
        exact rest

/-! ### Growing code -/

/-- A block has been added to, unless it was closed. -/
def Block.Grows (before after : Block σ ν) : Prop :=
  before.instrs <+: after.instrs ∧ (before.term ≠ none → after = before)

theorem Block.Grows.refl (block : Block σ ν) : block.Grows block :=
  ⟨List.prefix_rfl, fun _ => rfl⟩

theorem Block.Grows.trans {first second third : Block σ ν} (one : first.Grows second)
    (two : second.Grows third) : first.Grows third := by
  refine ⟨one.1.trans two.1, fun closed => ?_⟩
  obtain rfl := one.2 closed
  exact two.2 closed

/-- All blocks have. -/
def Extends (before after : Code σ ν) : Prop := ∀ block, (before block).Grows (after block)

theorem Extends.refl (code : Code σ ν) : Extends code code := fun block => .refl (code block)

theorem Extends.trans {first second third : Code σ ν} (one : Extends first second)
    (two : Extends second third) : Extends first third :=
  fun block => (one block).trans (two block)

theorem Instruction.At.grow {before after : Code σ ν} {place : Place ν} {instr : Instruction σ}
    (stands : instr.At before place) (grown : Extends before after) : instr.At after place := by
  obtain ⟨more, longer⟩ := (grown place.block).1
  have inside := (List.getElem?_eq_some_iff.mp stands).1
  rw [Instruction.At, ← longer, List.getElem?_append_left inside]
  exact stands

theorem Terminator.At.grow {before after : Code σ ν} {place : Place ν} {term : Terminator ν}
    (stands : term.At before place) (grown : Extends before after) : term.At after place := by
  have same := (grown place.block).2 (by rw [stands.2]; exact Option.some_ne_none term)
  rw [Terminator.At, same]
  exact stands

theorem Joins.grow {before after : Code σ ν} {left : Option (Place ν)} {target : BlockId ν}
    (joins : Joins before left target) (grown : Extends before after) : Joins after left target :=
  fun place at_place => (joins place at_place).grow grown

/-! ### Building code -/

/-- The block is one of the first, or has a name. -/
def BlockId.Old (mark : Nat) : BlockId ν → Prop
  | .fresh number => number < mark
  | .named _ => True

theorem BlockId.Old.mono {mark next : Nat} {block : BlockId ν} (old : block.Old mark)
    (le : mark ≤ next) : block.Old next := by
  cases block with
  | fresh number => exact Nat.lt_of_lt_of_le old le
  | named name => trivial

/-- Code in the making: the block that instructions are added to, and how many blocks and values
there are so far. -/
structure Builder (σ ν : Type*) where
  code : Code σ ν
  cur : BlockId ν
  blocks : Nat
  temps : Nat

namespace Builder

/-- Add this many blocks. -/
def addBlocks (count : Nat) (b : Builder σ ν) : Builder σ ν := { b with blocks := b.blocks + count }

/-- Add this many values. -/
def addTemps (count : Nat) (b : Builder σ ν) : Builder σ ν := { b with temps := b.temps + count }

def goTo (block : BlockId ν) (b : Builder σ ν) : Builder σ ν := { b with cur := block }

def isTerminated (b : Builder σ ν) : Bool := (b.code b.cur).term.isSome

/-- The place of the next instruction. -/
def here (b : Builder σ ν) : Place ν := ⟨b.cur, (b.code b.cur).instrs.length⟩

/-- From where the code so far is left at its end. -/
def left (b : Builder σ ν) : Option (Place ν) := if b.isTerminated then none else some b.here

/-- A block that is empty. -/
def emptyBlock : Block σ ν := ⟨[], none⟩

/-- A block that is kept for later. -/
def Reserved (b : Builder σ ν) (block : BlockId ν) : Prop :=
  b.code block = emptyBlock ∧ block ≠ b.cur

/-- The current block is open. -/
def Ready (b : Builder σ ν) : Prop := (b.code b.cur).term = none

/-- Blocks that are not created yet are empty. -/
structure Clean (b : Builder σ ν) : Prop where
  fresh : ∀ number, b.blocks ≤ number → b.code (.fresh number) = emptyBlock
  cur : b.cur.Old b.blocks

/-- Code has been added that leaves alone all of the blocks of before, except the current one and
some. -/
structure Since (mark : Nat) (own : List (BlockId ν)) (before after : Builder σ ν) : Prop where
  blocks : before.blocks ≤ after.blocks
  temps : before.temps ≤ after.temps
  grown : Extends before.code after.code
  keeps : ∀ block, block.Old mark → block ∉ own → block ≠ before.cur →
    after.code block = before.code block
  cur : after.cur = before.cur ∨ ¬after.cur.Old mark ∨ after.cur ∈ own
  clean : after.Clean

variable {mark : Nat} {own : List (BlockId ν)} {b before after : Builder σ ν}

theorem Since.refl (clean : b.Clean) : b.Since mark own b where
  blocks := Nat.le_refl b.blocks
  temps := Nat.le_refl b.temps
  grown := .refl b.code
  keeps _ _ _ _ := rfl
  cur := .inl rfl
  clean := clean

theorem Since.trans {first second third : Builder σ ν} {more : List (BlockId ν)}
    (one : first.Since mark own second) (two : second.Since mark more third) :
    first.Since mark (own ++ more) third where
  blocks := one.blocks.trans two.blocks
  temps := one.temps.trans two.temps
  grown := one.grown.trans two.grown
  keeps block old other apart := by
    rw [List.mem_append, not_or] at other
    rw [two.keeps block old other.2, one.keeps block old other.1 apart]
    rintro rfl
    rcases one.cur with same | young | among
    · exact apart same
    · exact young old
    · exact other.1 among
  cur := by
    rcases two.cur with same | young | among
    · rw [same]
      exact one.cur.imp_right (Or.imp_right (List.mem_append_left more))
    · exact .inr (.inl young)
    · exact .inr (.inr (List.mem_append_right own among))
  clean := two.clean

/-- From further on, fewer blocks are those of before. -/
theorem Since.mono {next : Nat} {others : List (BlockId ν)} (since : before.Since next own after)
    (le : mark ≤ next) (among : ∀ block ∈ own, block.Old mark → block ∈ others) :
    before.Since mark others after where
  blocks := since.blocks
  temps := since.temps
  grown := since.grown
  keeps block old other :=
    since.keeps block (old.mono le) fun mem => other (among block mem old)
  cur := by
    by_cases old : after.cur.Old mark
    · rcases since.cur with same | young | mem
      · exact .inl same
      · exact absurd (old.mono le) young
      · exact .inr (.inr (among _ mem old))
    · exact .inr (.inl old)
  clean := since.clean

/-- A block that was kept for later still is. -/
theorem Since.reserved (since : before.Since mark own after) {block : BlockId ν}
    (reserved : before.Reserved block) (old : block.Old mark) (other : block ∉ own) :
    after.Reserved block := by
  refine ⟨(since.keeps block old other reserved.2).trans reserved.1, ?_⟩
  rintro rfl
  rcases since.cur with same | young | among
  · exact reserved.2 same
  · exact young old
  · exact other among

/-! ### The builder's steps -/

theorem since_addBlocks (clean : b.Clean) (count : Nat) : b.Since mark own (b.addBlocks count) where
  blocks := Nat.le_add_right ..
  temps := Nat.le_refl b.temps
  grown := .refl b.code
  keeps _ _ _ _ := rfl
  cur := .inl rfl
  clean := ⟨fun number beyond => clean.fresh number (Nat.le_trans (Nat.le_add_right ..) beyond),
    clean.cur.mono (Nat.le_add_right ..)⟩

theorem since_addTemps (clean : b.Clean) (count : Nat) : b.Since mark own (b.addTemps count) where
  blocks := Nat.le_refl b.blocks
  temps := Nat.le_add_right ..
  grown := .refl b.code
  keeps _ _ _ _ := rfl
  cur := .inl rfl
  clean := ⟨clean.fresh, clean.cur⟩

theorem since_goTo (clean : b.Clean) {block : BlockId ν} (created : block.Old b.blocks) :
    b.Since mark [block] (b.goTo block) where
  blocks := Nat.le_refl b.blocks
  temps := Nat.le_refl b.temps
  grown := .refl b.code
  keeps _ _ _ _ := rfl
  cur := .inr (.inr (List.mem_singleton_self block))
  clean := ⟨clean.fresh, created⟩

theorem goTo_here {block : BlockId ν} (reserved : b.Reserved block) :
    (b.goTo block).here = block.start := by
  rw [here, goTo, BlockId.start]
  simp only [reserved.1]
  rfl

theorem goTo_ready {block : BlockId ν} (reserved : b.Reserved block) : (b.goTo block).Ready := by
  rw [Ready, goTo]
  simp only [reserved.1]
  rfl

theorem left_of_ready (ready : b.Ready) : b.left = some b.here := by
  rw [left, isTerminated, ready]
  rfl

/-- A block that has just been added is kept for later. -/
theorem reserved_addBlocks (clean : b.Clean) {count number : Nat} (new : b.blocks ≤ number) :
    (b.addBlocks count).Reserved (.fresh number) := by
  refine ⟨clean.fresh number new, ?_⟩
  rintro here
  have old : b.cur.Old b.blocks := clean.cur
  rw [← show _ = b.cur from here] at old
  exact absurd new (Nat.not_le.mpr old)

/-- The builder has gone on to a block that was kept for later. -/
structure Enters (b : Builder σ ν) (block : BlockId ν) (after : Builder σ ν) : Prop where
  since : ∀ mark, b.Since mark [block] after
  ready : after.Ready
  here : after.here = block.start

theorem enters_goTo {block : BlockId ν} (clean : b.Clean) (reserved : b.Reserved block)
    (created : block.Old b.blocks) :
    b.Enters block (b.goTo block) where
  since _ := since_goTo clean created
  ready := goTo_ready reserved
  here := goTo_here reserved

theorem Enters.clean {block : BlockId ν} (enters : b.Enters block after) : after.Clean :=
  (enters.since 0).clean

theorem Enters.left {block : BlockId ν} (enters : b.Enters block after) :
    after.left = some block.start := by
  rw [left_of_ready enters.ready, enters.here]

theorem Enters.behind {middle : Builder σ ν} {block : BlockId ν}
    (enters : middle.Enters block after)
    (since : ∀ mark, b.Since mark [] middle) : b.Enters block after where
  since mark := (since mark).trans (enters.since mark)
  ready := enters.ready
  here := enters.here

/-! ### Its instructions -/

variable [DecidableEq ν]

def change (b : Builder σ ν) (block : Block σ ν) : Builder σ ν :=
  { b with code := Function.update b.code b.cur block }

def insert (instr : Instruction σ) (b : Builder σ ν) : Builder σ ν :=
  b.change { b.code b.cur with instrs := (b.code b.cur).instrs ++ [instr] }

def close (term : Terminator ν) (b : Builder σ ν) : Builder σ ν :=
  b.change { b.code b.cur with term := some term }

def brIfNeeded (target : BlockId ν) (b : Builder σ ν) : Builder σ ν :=
  if b.isTerminated then b else b.close (.br target)

theorem change_code (block : Block σ ν) : (b.change block).code b.cur = block :=
  Function.update_self ..

theorem change_other {block : Block σ ν} {id : BlockId ν} (apart : id ≠ b.cur) :
    (b.change block).code id = b.code id :=
  Function.update_of_ne apart ..

theorem since_change (clean : b.Clean) {block : Block σ ν} (grows : (b.code b.cur).Grows block) :
    b.Since mark own (b.change block) where
  blocks := Nat.le_refl b.blocks
  temps := Nat.le_refl b.temps
  grown id := by
    by_cases here : id = b.cur
    · rw [here, change_code]
      exact grows
    · rw [change_other here]
      exact .refl _
  keeps _ _ _ apart := change_other apart
  cur := .inl rfl
  clean := by
    refine ⟨fun number beyond => ?_, clean.cur⟩
    rw [change_other, clean.fresh number beyond]
    intro here
    have old := clean.cur
    rw [← here] at old
    exact absurd beyond (Nat.not_le.mpr old)

theorem since_insert (clean : b.Clean) (ready : b.Ready) (instr : Instruction σ) :
    b.Since mark own (b.insert instr) :=
  since_change clean ⟨List.prefix_append .., fun closed => absurd ready closed⟩

theorem since_close (clean : b.Clean) (ready : b.Ready) (term : Terminator ν) :
    b.Since mark own (b.close term) :=
  since_change clean ⟨List.prefix_rfl, fun closed => absurd ready closed⟩

theorem since_brIfNeeded (clean : b.Clean) (target : BlockId ν) :
    b.Since mark own (b.brIfNeeded target) := by
  rw [brIfNeeded]
  split
  · exact .refl clean
  · rename_i ready
    exact since_close clean (Option.not_isSome_iff_eq_none.mp ready) _

/-- The instruction that was inserted. -/
theorem at_insert (instr : Instruction σ) : instr.At (b.insert instr).code b.here := by
  have inserted : (b.insert instr).code b.cur = _ := change_code ..
  rw [Instruction.At, here, inserted]
  exact List.getElem?_concat_length

theorem here_insert (instr : Instruction σ) : (b.insert instr).here = b.here.next := by
  have inserted : (b.insert instr).code b.cur = _ := change_code ..
  rw [here, Place.next, here]
  simp only [insert, change, Function.update_self, List.length_append, List.length_singleton]

theorem ready_insert (ready : b.Ready) (instr : Instruction σ) : (b.insert instr).Ready := by
  have inserted : (b.insert instr).code b.cur = _ := change_code ..
  exact (congrArg Block.term inserted).trans ready

theorem at_close (term : Terminator ν) : term.At (b.close term).code b.here := by
  have closed : (b.close term).code b.cur = _ := change_code ..
  rw [Terminator.At, here, closed]
  exact ⟨rfl, rfl⟩

theorem left_close (term : Terminator ν) : (b.close term).left = none := by
  have closed : (b.close term).code b.cur = _ := change_code ..
  have terminated : (b.close term).isTerminated = true :=
    congrArg (fun block => block.term.isSome) closed
  rw [left, terminated, if_pos rfl]

/-- Wherever the code was left, it now goes on to the target. -/
theorem joins_brIfNeeded (target : BlockId ν) :
    Joins (b.brIfNeeded target).code b.left target := by
  intro place at_place
  rw [left] at at_place
  rw [brIfNeeded]
  split at at_place
  · cases at_place
  · rename_i open_
    cases at_place
    rw [if_neg open_]
    exact at_close _

/-- The builder has gone on in its block. -/
structure Continues (b after : Builder σ ν) : Prop where
  since : ∀ mark, b.Since mark [] after
  ready : after.Ready

namespace Continues

variable {block : BlockId ν}

omit [DecidableEq ν] in
theorem clean (on : b.Continues after) : after.Clean := (on.since 0).clean

omit [DecidableEq ν] in
theorem refl (clean : b.Clean) (ready : b.Ready) : b.Continues b := ⟨fun _ => .refl clean, ready⟩

omit [DecidableEq ν] in
theorem addBlocks (on : b.Continues after) (count : Nat) : b.Continues (after.addBlocks count) :=
  ⟨fun mark => (on.since mark).trans (since_addBlocks on.clean count), on.ready⟩

omit [DecidableEq ν] in
theorem addTemps (on : b.Continues after) (count : Nat) : b.Continues (after.addTemps count) :=
  ⟨fun mark => (on.since mark).trans (since_addTemps on.clean count), on.ready⟩

theorem insert (on : b.Continues after) (instr : Instruction σ) :
    b.Continues (after.insert instr) :=
  ⟨fun mark => (on.since mark).trans (since_insert on.clean on.ready instr),
    ready_insert on.ready instr⟩

omit [DecidableEq ν] in
theorem reserved (on : b.Continues after) (kept : b.Reserved block) (created : block.Old b.blocks) :
    after.Reserved block :=
  (on.since b.blocks).reserved kept created List.not_mem_nil

end Continues

variable {block : BlockId ν}

theorem enters_close (clean : b.Clean) (ready : b.Ready) (reserved : b.Reserved block)
    (created : block.Old b.blocks) (term : Terminator ν) :
    b.Enters block ((b.close term).goTo block) := by
  have closes : ∀ mark, b.Since mark [] (b.close term) := fun _ => since_close clean ready term
  have kept := (closes b.blocks).reserved reserved created List.not_mem_nil
  exact (enters_goTo (closes 0).clean kept created).behind closes

theorem brIfNeeded_blocks (b : Builder σ ν) (target : BlockId ν) :
    (b.brIfNeeded target).blocks = b.blocks := by
  rw [brIfNeeded]
  split <;> rfl

theorem brIfNeeded_temps (b : Builder σ ν) (target : BlockId ν) :
    (b.brIfNeeded target).temps = b.temps := by
  rw [brIfNeeded]
  split <;> rfl

theorem enters_br (clean : b.Clean) (reserved : b.Reserved block) (created : block.Old b.blocks)
    (target : BlockId ν) : b.Enters block ((b.brIfNeeded target).goTo block) := by
  have closes : ∀ mark, b.Since mark [] (b.brIfNeeded target) :=
    fun _ => since_brIfNeeded clean target
  have kept := (closes b.blocks).reserved reserved created List.not_mem_nil
  refine (enters_goTo (closes 0).clean kept ?_).behind closes
  rwa [brIfNeeded_blocks]

end Builder

end BasicBlocks
