import Plang.CodeGen.LegalGotos

/-!
# Copies of value conformant arrays

A conformant array that is passed by value, and modified, is copied to the heap.  A shadow stack
holds the copies of all activations; an activation marks it before its own copies are made, and where
a goto can land in it, behind them.  Copies are given back down to a mark.
-/

namespace Plang.ConformantCopies

open Labels StaticLinks

/-! ### The runtime -/

/-- A heap block, known by the allocation that made it. -/
abbrev Block := Nat

/-- Which requests for memory are granted: by the blocks given out before, and by the size of the
shadow stack. -/
structure Memory where
  calloc : Nat → Bool
  realloc : Nat → Bool

/-- The heap and the shadow stack of copies, the oldest first. -/
structure Runtime where
  ConfArrStack : List Block := []
  ConfArrCap : Nat := 0
  blocks : Nat := 0
  freed : List Block := []

namespace Runtime

/-- A fresh block; without memory the program ends. -/
def plang_new (memory : Memory) (rt : Runtime) : Option (Block × Runtime) :=
  if memory.calloc rt.blocks then some (rt.blocks, { rt with blocks := rt.blocks + 1 }) else none

/-- The depth of the stack. -/
def plang_confarr_mark (rt : Runtime) : Nat := rt.ConfArrStack.length

/-- Record a copy; without memory for a larger stack the program ends. -/
def plang_confarr_push (memory : Memory) (P : Block) (rt : Runtime) : Option Runtime :=
  if rt.ConfArrStack.length = rt.ConfArrCap then
    let NewCap := if rt.ConfArrCap ≠ 0 then rt.ConfArrCap * 2 else 16
    if memory.realloc NewCap then
      some { rt with ConfArrStack := rt.ConfArrStack ++ [P], ConfArrCap := NewCap }
    else none
  else some { rt with ConfArrStack := rt.ConfArrStack ++ [P] }

/-- Free the copies above a mark, the last one first. -/
def plang_confarr_unwind (mark : Nat) (rt : Runtime) : Runtime :=
  if above : mark < rt.ConfArrStack.length then
    plang_confarr_unwind mark
      { rt with
        ConfArrStack := rt.ConfArrStack.dropLast
        freed := rt.freed ++ [rt.ConfArrStack.getLast
          (List.ne_nil_of_length_pos (Nat.zero_lt_of_lt above))] }
  else rt
termination_by rt.ConfArrStack.length
decreasing_by
  simp only [List.length_dropLast]
  omega

end Runtime

/-! ### Entry and exit of a procedure -/

/-- A formal parameter: the names of its bounds when it is a conformant or an open array, and
whether it is passed by reference. -/
structure ParamMeta where
  name : Text
  conformantDims : List (Text × Text)
  byRef : Bool

/-- The formal parameters of a procedure, and those that its body modifies. -/
structure Heading where
  paramMeta : List ParamMeta
  ModifiedParams : Text → Bool

/-- Whether the prologue may copy a parameter. -/
def hasValueConformantParam (heading : Heading) : Bool :=
  heading.paramMeta.any fun param => !param.conformantDims.isEmpty && !param.byRef

/-- Whether it does copy one. -/
def copied (heading : Heading) (param : ParamMeta) : Bool :=
  !param.conformantDims.isEmpty && !param.byRef && heading.ModifiedParams (toLower param.name)

/-- Copy the parameters that are to be copied, in order. -/
def copyParams (memory : Memory) (heading : Heading) :
    List ParamMeta → Runtime → Option (List Block × Runtime)
  | [], rt => some ([], rt)
  | param :: params, rt =>
      if copied heading param then do
        let (copy, rt) ← rt.plang_new memory
        let rt ← rt.plang_confarr_push memory copy
        let (copies, rt) ← copyParams memory heading params rt
        return (copy :: copies, rt)
      else copyParams memory heading params rt

/-- An activation of a block with its marks and its copies. -/
structure Frame where
  activation : Activation BlockNode
  /-- Where the copies of the activation begin. -/
  confArrEntryMark : Option Nat := none
  /-- Where they end, once a goto can land in the activation. -/
  ConfArrMark : Option Nat := none
  copies : List Block := []

/-- The activations there are, the last one called first, and the runtime. -/
structure Machine where
  frames : List Frame
  rt : Runtime

/-- The activations as the links know them. -/
def stackOf (frames : List Frame) : Stack BlockNode := frames.map Frame.activation

/-- The beginning of an activation. -/
def enter (memory : Memory) (heading : Heading) (activation : Activation BlockNode) (rt : Runtime) :
    Option (Frame × Runtime) := do
  let mark := if hasValueConformantParam heading then some rt.plang_confarr_mark else none
  let (copies, rt) ← copyParams memory heading heading.paramMeta rt
  return ({ activation, confArrEntryMark := mark, copies }, rt)

/-- The block of an activation has a jump buffer. -/
def planted (activation : Activation BlockNode) : Bool :=
  (activation.callee.blocks.head?.map hasBuffer).getD false

/-- The statement part begins: a landing pad is armed when gotos can land. -/
def emitLabelLanding (frame : Frame) (rt : Runtime) : Frame :=
  { frame with
    activation := { frame.activation with started := true }
    ConfArrMark := if planted frame.activation then some rt.plang_confarr_mark else none }

/-- The end of an activation. -/
def leave (frame : Frame) (rt : Runtime) : Runtime :=
  match frame.confArrEntryMark with
  | none => rt
  | some mark => rt.plang_confarr_unwind mark

/-- What is done where a jump lands: the copies above the mark are given back on the way to a label;
a value that belongs to no label begins the body again. -/
def land (frame : Frame) (value mark : Nat) (rt : Runtime) : Runtime :=
  match frame.activation.callee.blocks.head?.bind (dispatch · value) with
  | none => rt
  | some _ => rt.plang_confarr_unwind mark

section Machine

variable (program : Program) (memory : Memory)

/-- A goto of the block that an activation executes, and the jump it is emitted as. -/
def Jumps (caller : Activation BlockNode) (label : Label) (level value : Nat) : Prop :=
  ∃ here outer, Chain program (here :: outer) ∧ caller.callee.blocks = labelOwners (here :: outer) ∧
    (∃ jump ∈ here.sites, jump.role = .jump ∧ jump.label = label) ∧
    emitGoto caller.callee.blocks label = .longjmp level value

/-- One step of a run. -/
inductive Step : Machine → Machine → Prop
  /-- The statement part of a block begins. -/
  | start {caller rest rt} : caller.activation.started = false →
      Step ⟨caller :: rest, rt⟩ ⟨emitLabelLanding caller rt :: rest, rt⟩
  /-- A call, of a procedure or through a procedural parameter; `heading` is the called procedure's. -/
  | call {caller rest rt closure formals id heading frame after} :
      Visible (fun block proc => proc ∈ block.procs) (isGlobal program) (stackOf (caller :: rest))
        caller.activation closure →
      (∀ formal ∈ formals, Visible (fun block proc => proc ∈ block.procs) (isGlobal program)
        (stackOf (caller :: rest)) caller.activation formal) →
      (∀ other ∈ stackOf (caller :: rest), other.id ≠ id) →
      enter memory heading ⟨id, closure, formals, false⟩ rt = some (frame, after) →
      Step ⟨caller :: rest, rt⟩ ⟨frame :: caller :: rest, after⟩
  /-- A return, at the end of the body or by Exit. -/
  | done {caller rest rt} : rest ≠ [] → Step ⟨caller :: rest, rt⟩ ⟨rest, leave caller rt⟩
  /-- The outermost activation ends, an initialiser's or the program's, and another begins. -/
  | next {caller rt id blocks} : blocks = [] ∨ blocks = [program.main] →
      Step ⟨[caller], rt⟩ ⟨[{ activation := ⟨id, ⟨blocks, [], none⟩, [], false⟩ }], leave caller rt⟩
  /-- A goto that leaves the block lands in the activation that the frame names. -/
  | goto {caller rest rt label level value target above below mark} :
      Jumps program caller.activation label level value →
      caller.activation.display[level]? = some target.activation.id →
      caller :: rest = above ++ target :: below → target.ConfArrMark = some mark →
      Step ⟨caller :: rest, rt⟩ ⟨target :: below, land target value mark rt⟩

/-- The states of runs. -/
inductive Runs : Machine → Prop
  | first {id blocks} : blocks = [] ∨ blocks = [program.main] →
      Runs ⟨[{ activation := ⟨id, ⟨blocks, [], none⟩, [], false⟩ }], {}⟩
  | step {before after} : Runs before → Step program memory before after → Runs after

end Machine

/-! ### What is live -/

/-- The copies of the activations there are, the oldest first. -/
def live : List Frame → List Block
  | [] => []
  | frame :: rest => live rest ++ frame.copies

theorem live_append (above below : List Frame) :
    live (above ++ below) = live below ++ live above := by
  induction above with
  | nil => simp [live]
  | cons frame above induction => rw [List.cons_append, live, induction, live, List.append_assoc]

namespace Runtime

/-- Unwinding gives back what lies above the mark, and nothing else. -/
theorem unwind_eq (mark : Nat) (rt : Runtime) :
    rt.plang_confarr_unwind mark =
      { rt with
        ConfArrStack := rt.ConfArrStack.take mark
        freed := rt.freed ++ (rt.ConfArrStack.drop mark).reverse } := by
  induction depth : rt.ConfArrStack.length - mark generalizing rt with
  | zero =>
      rw [plang_confarr_unwind, dif_neg (by omega), List.take_of_length_le (by omega),
        List.drop_of_length_le (by omega)]
      simp
  | succ depth induction =>
      obtain ⟨init, last, stack_eq⟩ : ∃ init last, rt.ConfArrStack = init ++ [last] :=
        ⟨_, _, (List.dropLast_append_getLast
          (List.ne_nil_of_length_pos (show 0 < rt.ConfArrStack.length by omega))).symm⟩
      have length_eq : rt.ConfArrStack.length = init.length + 1 := by rw [stack_eq]; simp
      rw [plang_confarr_unwind, dif_pos (by omega), induction _ (by simp; omega)]
      simp only [stack_eq, List.dropLast_concat, List.getLast_append_singleton]
      rw [List.take_append_of_le_length (by omega), List.drop_append_of_le_length (by omega)]
      simp

/-- Unwinding to where some copies begin gives back these. -/
theorem unwind_append {rt : Runtime} {below above : List Block}
    (stack : rt.ConfArrStack = below ++ above) :
    rt.plang_confarr_unwind below.length =
      { rt with ConfArrStack := below, freed := rt.freed ++ above.reverse } := by
  rw [unwind_eq, stack, List.take_left, List.drop_left]

end Runtime

/-- The effect of the prologue's copies. -/
structure Copied (before after : Runtime) (copies : List Block) : Prop where
  stack : after.ConfArrStack = before.ConfArrStack ++ copies
  fresh : List.range after.blocks = List.range before.blocks ++ copies
  freed : after.freed = before.freed

theorem Copied.one {memory : Memory} {rt allocated pushed : Runtime} {copy : Block}
    (new : rt.plang_new memory = some (copy, allocated))
    (push : allocated.plang_confarr_push memory copy = some pushed) : Copied rt pushed [copy] := by
  rw [Runtime.plang_new] at new
  split at new
  · obtain ⟨rfl, rfl⟩ := Prod.mk.inj (Option.some.inj new)
    rw [Runtime.plang_confarr_push] at push
    split at push
    · dsimp only at push
      generalize (if rt.ConfArrCap ≠ 0 then rt.ConfArrCap * 2 else 16) = NewCap at push
      split at push
      · obtain rfl := Option.some.inj push
        exact ⟨rfl, List.range_succ, rfl⟩
      · cases push
    · obtain rfl := Option.some.inj push
      exact ⟨rfl, List.range_succ, rfl⟩
  · cases new

theorem Copied.trans {before between after : Runtime} {copies more : List Block}
    (first : Copied before between copies) (second : Copied between after more) :
    Copied before after (copies ++ more) :=
  ⟨by rw [second.stack, first.stack, List.append_assoc],
    by rw [second.fresh, first.fresh, List.append_assoc], second.freed.trans first.freed⟩

theorem copied_of_copyParams {memory : Memory} {heading : Heading} {params : List ParamMeta}
    {rt after : Runtime} {copies : List Block}
    (made : copyParams memory heading params rt = some (copies, after)) :
    Copied rt after copies := by
  induction params generalizing rt copies with
  | nil =>
      obtain ⟨rfl, rfl⟩ := Prod.mk.inj (Option.some.inj made)
      exact ⟨by simp, by simp, rfl⟩
  | cons param params induction =>
      rw [copyParams] at made
      split at made
      · obtain ⟨⟨copy, allocated⟩, new, made⟩ := Option.bind_eq_some_iff.mp made
        obtain ⟨pushed, push, made⟩ := Option.bind_eq_some_iff.mp made
        obtain ⟨⟨rest, last⟩, more, made⟩ := Option.bind_eq_some_iff.mp made
        obtain ⟨rfl, rfl⟩ := Prod.mk.inj (Option.some.inj made)
        exact (Copied.one new push).trans (induction more)
      · exact induction made

/-- Without a value conformant parameter nothing is copied. -/
theorem copies_eq_nil {memory : Memory} {heading : Heading} {params : List ParamMeta}
    {rt after : Runtime} {copies : List Block}
    (none : ∀ param ∈ params, (!param.conformantDims.isEmpty && !param.byRef) = false)
    (made : copyParams memory heading params rt = some (copies, after)) : copies = [] := by
  induction params generalizing rt copies with
  | nil => exact (Prod.mk.inj (Option.some.inj made)).1.symm
  | cons param params induction =>
      have not_copied : ¬copied heading param = true := by
        rw [copied, none param List.mem_cons_self]
        simp
      rw [copyParams, if_neg not_copied] at made
      exact induction (fun other mem => none other (List.mem_cons_of_mem _ mem)) made

/-! ### What holds in every state -/

/-- The marks of an activation: where its copies begin, and where they end. -/
structure Marked (frame : Frame) (rest : List Frame) : Prop where
  entry : ∀ mark, frame.confArrEntryMark = some mark → mark = (live rest).length
  none : frame.confArrEntryMark = none → frame.copies = []
  landing : ∀ mark, frame.ConfArrMark = some mark → mark = (live (frame :: rest)).length
  armed : frame.activation.started = true → planted frame.activation = true →
    frame.ConfArrMark.isSome = true

/-- Every activation is marked. -/
def AllMarked : List Frame → Prop
  | [] => True
  | frame :: rest => Marked frame rest ∧ AllMarked rest

/-- The shadow stack holds the live copies, and every copy made is either on it or freed. -/
structure Kept (m : Machine) : Prop where
  sound : Sound (stackOf m.frames)
  marked : AllMarked m.frames
  stack : m.rt.ConfArrStack = live m.frames
  accounted : (m.rt.freed ++ m.rt.ConfArrStack).Perm (List.range m.rt.blocks)

theorem AllMarked.suffix {above below : List Frame} (marked : AllMarked (above ++ below)) :
    AllMarked below := by
  induction above with
  | nil => exact marked
  | cons frame above induction => exact induction marked.2

/-- Giving back the copies above some activations. -/
theorem Kept.unwind {m : Machine} {above below : List Frame} (kept : Kept m)
    (split : m.frames = above ++ below) :
    Kept ⟨below, m.rt.plang_confarr_unwind (live below).length⟩ := by
  have stack := kept.stack
  rw [split, live_append] at stack
  have sound := kept.sound
  rw [split, stackOf, List.map_append] at sound
  refine ⟨sound.suffix, (split ▸ kept.marked).suffix, ?_, ?_⟩
  · rw [Runtime.unwind_append stack]
  · rw [Runtime.unwind_append stack]
    have accounted := kept.accounted
    rw [stack] at accounted
    refine List.Perm.trans ?_ accounted
    rw [List.append_assoc]
    exact (List.perm_append_comm.trans ((List.reverse_perm _).append_left _)).append_left _

theorem Kept.leave {caller : Frame} {rest : List Frame} {rt : Runtime}
    (kept : Kept ⟨caller :: rest, rt⟩) : Kept ⟨rest, leave caller rt⟩ := by
  have marked := kept.marked.1
  cases entry : caller.confArrEntryMark with
  | none =>
      have stack := kept.stack
      rw [live, marked.none entry, List.append_nil] at stack
      rw [ConformantCopies.leave, entry]
      exact ⟨kept.sound.tail, kept.marked.2, stack, kept.accounted⟩
  | some mark =>
      rw [ConformantCopies.leave, entry, marked.entry mark entry]
      exact kept.unwind (show caller :: rest = [caller] ++ rest from rfl)

theorem Kept.enter {memory : Memory} {heading : Heading} {activation : Activation BlockNode}
    {frames : List Frame} {rt after : Runtime} {frame : Frame} (kept : Kept ⟨frames, rt⟩)
    (sound : Sound (activation :: stackOf frames)) (fresh : activation.started = false)
    (entered : enter memory heading activation rt = some (frame, after)) :
    Kept ⟨frame :: frames, after⟩ := by
  obtain ⟨⟨copies, copied_rt⟩, made, entered⟩ := Option.bind_eq_some_iff.mp entered
  obtain ⟨rfl, rfl⟩ := Prod.mk.inj (Option.some.inj entered)
  have copied := copied_of_copyParams made
  refine ⟨sound, ⟨⟨?_, ?_, ?_, ?_⟩, kept.marked⟩, ?_, ?_⟩
  · intro mark marked
    dsimp only at marked
    split at marked
    · rw [← Option.some.inj marked, Runtime.plang_confarr_mark, kept.stack]
    · cases marked
  · intro unmarked
    dsimp only at unmarked
    split at unmarked
    · cases unmarked
    · rename_i no_param
      refine copies_eq_nil (fun param mem => ?_) made
      rw [hasValueConformantParam, Bool.not_eq_true, List.any_eq_false] at no_param
      simpa using no_param param mem
  · intro mark impossible
    cases impossible
  · intro started
    dsimp only at started
    rw [fresh] at started
    cases started
  · rw [copied.stack, kept.stack, live]
  · rw [copied.freed, copied.stack, copied.fresh, ← List.append_assoc]
    exact kept.accounted.append_right _

section Runs

variable {program : Program} {memory : Memory}

/-- A jump of an accepted program leads to a block with a jump buffer, which dispatches it to its
label. -/
theorem leads_of_jumps (accepted : program.accepted = true) {caller : Activation BlockNode}
    {label : Label} {level value : Nat} (jumps : Jumps program caller label level value) :
    ∃ index block, level = index + 1 ∧ caller.callee.blocks[index + 1]? = some block ∧
      hasBuffer block = true ∧ dispatch block value = some label := by
  obtain ⟨here, outer, chain, blocks, ⟨jump, occurs, is_jump, rfl⟩, emitted⟩ := jumps
  obtain ⟨level', outer', same, checked⟩ := chain.checked accepted
  obtain ⟨rfl, rfl⟩ := List.cons.inj same
  obtain ⟨symbol, accepts⟩ := checked.sites jump occurs
  obtain ⟨index, target, innermost, rfl⟩ := innermost_of_lookup accepts.found
  rw [blocks] at emitted
  cases index with
  | zero =>
      obtain rfl := Option.some.inj innermost.at_index
      rw [chain.emitGoto_own innermost.declared] at emitted
      cases emitted
  | succ index =>
      have other : jump.label ∉ here.block.labels :=
        innermost.nearest 0 here (Nat.succ_pos index) rfl
      obtain ⟨no_module, -, iso⟩ := accepts.outward is_jump other
      have transfers :=
        transfers_of_accepts accepted chain is_jump occurs innermost no_module iso
      rw [transfers.emitted] at emitted
      obtain ⟨rfl, rfl⟩ := Transfer.longjmp.inj emitted
      refine ⟨index, target.block, rfl, ?_, transfers.planted, transfers.dispatched⟩
      rw [blocks]
      exact (chain.owner_at accepted innermost.at_index no_module iso).1

/-- A jump finds the activation it leads to, with its pad armed. -/
theorem target_of_jumps (accepted : program.accepted = true) {caller : Frame} {rest : List Frame}
    {rt : Runtime} (kept : Kept ⟨caller :: rest, rt⟩) {label : Label} {level value : Nat}
    (jumps : Jumps program caller.activation label level value) :
    ∃ target above below mark, caller.activation.display[level]? = some target.activation.id ∧
      caller :: rest = above ++ target :: below ∧ target.ConfArrMark = some mark ∧
      ∀ other ∈ caller :: rest, other.activation.id = target.activation.id →
        other.activation.callee.blocks.head?.bind (dispatch · value) = some label := by
  obtain ⟨index, block, rfl, at_level, has_buffer, dispatched⟩ := leads_of_jumps accepted jumps
  have within : index + 1 < caller.activation.callee.blocks.length :=
    (List.getElem?_eq_some_iff.mp at_level).1
  have sound : Sound (caller.activation :: stackOf rest) := kept.sound
  obtain ⟨around, activation, -, -, named, before, blocks_eq, started⟩ := sound.display_names within
  obtain ⟨target, listed, rfl⟩ := List.mem_map.mp before
  have head : target.activation.callee.blocks.head? = some block := by
    rw [blocks_eq, List.head?_drop, at_level]
  obtain ⟨above, below, split⟩ := List.append_of_mem (List.mem_cons_of_mem caller listed)
  have marked := (split ▸ kept.marked : AllMarked (above ++ target :: below)).suffix.1
  obtain ⟨mark, armed⟩ := Option.isSome_iff_exists.mp
    (marked.armed started (by simp [planted, head, has_buffer]))
  refine ⟨target, above, below, mark, named, split, armed, fun other mem same => ?_⟩
  have one : other.activation = target.activation :=
    kept.sound.id_injective (List.mem_map_of_mem mem)
      (List.mem_map_of_mem (List.mem_cons_of_mem caller listed)) same
  rw [one, head]
  exact dispatched

/-- The outermost activation by itself. -/
theorem kept_outermost {rt : Runtime} (empty : rt.ConfArrStack = [])
    (accounted : (rt.freed ++ rt.ConfArrStack).Perm (List.range rt.blocks)) (id : Nat)
    {blocks : List BlockNode} (outermost : blocks = [] ∨ blocks = [program.main]) :
    Kept ⟨[{ activation := ⟨id, ⟨blocks, [], none⟩, [], false⟩ }], rt⟩ := by
  refine ⟨?_, ⟨⟨?_, fun _ => rfl, ?_, ?_⟩, trivial⟩, empty, accounted⟩
  · have alone : ([] : Stack BlockNode).length = blocks.length - 1 := by
      obtain rfl | rfl := outermost <;> rfl
    exact .cons .nil (by simp) ⟨[], .outermost, rfl, alone, by simp, by simp⟩ (by simp)
  · intro mark impossible
    cases impossible
  · intro mark impossible
    cases impossible
  · intro started
    cases started

theorem kept_step (accepted : program.accepted = true) {m after : Machine} (kept : Kept m)
    (step : Step program memory m after) : Kept after := by
  cases step with
  | @start caller rest rt fresh =>
      have sound : Sound (caller.activation :: stackOf rest) := kept.sound
      have begun : StaticLinks.Step (fun block proc => proc ∈ block.procs) (isGlobal program)
          (caller.activation :: stackOf rest)
          ({ caller.activation with started := true } :: stackOf rest) := .start
      have marked := kept.marked.1
      refine ⟨begun.sound sound, ⟨⟨marked.entry, marked.none, ?_, ?_⟩, kept.marked.2⟩, kept.stack,
        kept.accounted⟩
      · intro mark armed
        dsimp only [emitLabelLanding] at armed
        split at armed
        · rw [← Option.some.inj armed, Runtime.plang_confarr_mark, kept.stack]
          rfl
        · cases armed
      · intro _ planted
        have planted : ConformantCopies.planted caller.activation = true := planted
        rw [emitLabelLanding, if_pos planted]
        rfl
  | @call caller rest rt closure formals id heading frame after visible given fresh entered =>
      have sound : Sound (stackOf (caller :: rest)) := kept.sound
      have called : StaticLinks.Step (fun block proc => proc ∈ block.procs) (isGlobal program)
          (stackOf (caller :: rest)) (⟨id, closure, formals, false⟩ :: stackOf (caller :: rest)) :=
        .call visible given fresh
      exact kept.enter (called.sound sound) rfl entered
  | done more => exact kept.leave
  | @next caller rt id blocks outermost =>
      have left := kept.leave
      exact kept_outermost left.stack left.accounted id outermost
  | @goto caller rest rt label level value target above below mark jumps named split armed =>
      obtain ⟨other, _, _, _, other_named, other_split, -, leads⟩ :=
        target_of_jumps accepted kept jumps
      have listed : target ∈ caller :: rest := by
        rw [split]
        exact List.mem_append_right _ List.mem_cons_self
      have same : target.activation.id = other.activation.id :=
        Option.some.inj (named.symm.trans other_named)
      have mark_eq : mark = (live (target :: below)).length :=
        (split ▸ kept.marked : AllMarked (above ++ target :: below)).suffix.1.landing mark armed
      rw [land, leads target listed same, mark_eq]
      exact kept.unwind split

theorem kept_of_runs (accepted : program.accepted = true) {m : Machine}
    (runs : Runs program memory m) : Kept m := by
  induction runs with
  | @first id blocks outermost => exact kept_outermost rfl (List.Perm.refl _) id outermost
  | step _ step induction => exact kept_step accepted induction step

/-- In every state of a run of an accepted program the shadow stack holds the copies of the live
activations, the oldest first, and every copy ever made is freed once when its activation has ended
and not before; a goto that leaves its block finds the activation it leads to. -/
theorem copies_freed_once (accepted : program.accepted = true) {m : Machine}
    (runs : Runs program memory m) :
    m.rt.ConfArrStack = live m.frames ∧
      (∀ copy < m.rt.blocks, m.rt.freed.count copy = if copy ∈ live m.frames then 0 else 1) ∧
      (∀ copy, m.rt.blocks ≤ copy → copy ∉ live m.frames ∧ copy ∉ m.rt.freed) ∧
      ∀ caller rest label level value, m.frames = caller :: rest →
        Jumps program caller.activation label level value →
          ∃ target above below, caller.activation.display[level]? = some target.activation.id ∧
            caller :: rest = above ++ target :: below ∧
            Step program memory m
              ⟨target :: below, m.rt.plang_confarr_unwind (live (target :: below)).length⟩ := by
  have kept := kept_of_runs accepted runs
  have accounted := kept.accounted
  rw [kept.stack] at accounted
  refine ⟨kept.stack, ?_, ?_, ?_⟩
  · intro copy made
    have once := accounted.count_eq copy
    rw [List.count_append, List.count_eq_one_of_mem List.nodup_range (List.mem_range.mpr made)]
      at once
    have distinct : (m.rt.freed ++ live m.frames).Nodup := accounted.nodup_iff.mpr List.nodup_range
    split
    · rename_i on_stack
      have := List.count_pos_iff.mpr on_stack
      omega
    · rename_i off_stack
      rw [List.count_eq_zero_of_not_mem off_stack] at once
      exact once
  · intro copy unmade
    have nowhere : copy ∉ m.rt.freed ++ live m.frames := by
      rw [accounted.mem_iff, List.mem_range]
      omega
    rw [List.mem_append, not_or] at nowhere
    exact ⟨nowhere.2, nowhere.1⟩
  · intro caller rest label level value frames_eq jumps
    obtain ⟨frames, rt⟩ := m
    obtain rfl : frames = caller :: rest := frames_eq
    obtain ⟨target, above, below, mark, named, split, armed, leads⟩ :=
      target_of_jumps accepted kept jumps
    refine ⟨target, above, below, named, split, ?_⟩
    have listed : target ∈ caller :: rest := by
      rw [split]
      exact List.mem_append_right _ List.mem_cons_self
    have mark_eq : mark = (live (target :: below)).length :=
      (split ▸ kept.marked : AllMarked (above ++ target :: below)).suffix.1.landing mark armed
    have landed : Step program memory ⟨caller :: rest, rt⟩ _ :=
      .goto jumps named split armed
    rwa [land, leads target listed rfl, mark_eq] at landed

end Runs

/-- A procedure with one copy leaves for a label of the program. -/
def leaving : Program :=
  ⟨false, [], [], .mk [.number 1] [] [] [.mk [] [] [] [] (.gotoStmt (.number 1))]
    (.labeledStmt (.number 1) .simple)⟩

def oneCopy : Heading where
  paramMeta := [⟨['a'], [(['l'], ['h'])], false⟩]
  ModifiedParams := fun _ => true

def called : Activation BlockNode :=
  ⟨1, ⟨leaving.main.procs ++ [leaving.main], [0], some 0⟩, [], false⟩

/-- The copy of the procedure that leaves has been freed where the goto lands. -/
theorem copies_freed_once_leaving :
    ∃ m, Runs leaving ⟨fun _ => true, fun _ => true⟩ m ∧ m.frames.length = 1 ∧
      m.rt.blocks = 1 ∧ m.rt.freed.count 0 = 1 := by
  have first : Runs leaving ⟨fun _ => true, fun _ => true⟩
      ⟨[{ activation := ⟨0, ⟨[leaving.main], [], none⟩, [], false⟩ }], {}⟩ := .first (.inr rfl)
  have begun := Runs.step first (.start rfl)
  have visible : Visible (fun block proc => proc ∈ block.procs) (isGlobal leaving)
      [⟨0, ⟨[leaving.main], [], none⟩, [], true⟩] ⟨0, ⟨[leaving.main], [], none⟩, [], true⟩
      called.callee :=
    .declared .outermost (show [_][0]? = some _ from rfl)
      (show [leaving.main][0]? = some _ from rfl) List.mem_cons_self fun _ => rfl
  have entered : Runs leaving _
      ⟨[⟨called, some 0, none, [0]⟩, ⟨⟨0, ⟨[leaving.main], [], none⟩, [], true⟩, none, some 0, []⟩],
        ⟨[0], 16, 1, []⟩⟩ :=
    .step begun (.call visible (fun _ impossible => absurd impossible List.not_mem_nil) (by decide)
      (show enter _ oneCopy called _ = some _ from rfl))
  have jumps : Jumps leaving called (.number 1) 1 2 :=
    ⟨⟨.mk [] [] [] [] (.gotoStmt (.number 1)), [], false, true⟩, [⟨leaving.main, [], false, true⟩],
      .proc .main List.mem_cons_self, rfl, ⟨⟨.jump, .number 1, [0], []⟩, by decide, rfl, rfl⟩, rfl⟩
  have landed := Runs.step entered
    (.goto jumps rfl (show _ = [_] ++ _ :: [] from rfl) rfl)
  have made : (land ⟨⟨0, ⟨[leaving.main], [], none⟩, [], true⟩, none, some 0, []⟩ 2 0
      ⟨[0], 16, 1, []⟩).blocks = 1 := by
    change (Runtime.plang_confarr_unwind 0 ⟨[0], 16, 1, []⟩).blocks = 1
    rw [Runtime.unwind_eq]
  have freed := (copies_freed_once (by decide) landed).2.1 0
    (Nat.lt_of_lt_of_eq Nat.one_pos made.symm)
  exact ⟨_, landed, rfl, made, freed⟩

end Plang.ConformantCopies
