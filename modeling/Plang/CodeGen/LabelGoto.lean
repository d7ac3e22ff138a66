import Plang.Sema.Labels

/-!
# Code for labels and gotos

Blocks are emitted inside of each other.  A block that a goto of a procedure in it may leave for has
a jump buffer, and a switch over what comes back from it.
-/

namespace Plang.Labels

def declaresLabel (block : BlockNode) (label : Label) : Bool := block.labels.contains label

mutual

/-- The labels that gotos name. -/
def gotosIn : StmtNode → List Label
  | .simple => []
  | .gotoStmt label => [label]
  | .labeledStmt _ stmt => gotosIn stmt
  | .compoundStmt stmts => gotosInAll stmts
  | .structured _ _ stmts => gotosInAll stmts

def gotosInAll : List StmtNode → List Label
  | [] => []
  | stmt :: stmts => gotosIn stmt ++ gotosInAll stmts

end

mutual

/-- The labels of a block that gotos in the procedures of another name. -/
def scanNonLocalTargets (block : BlockNode) : BlockNode → List Label
  | .mk _ _ _ procs _ => scanProcs block procs

def scanProcs (block : BlockNode) : List BlockNode → List Label
  | [] => []
  | proc :: procs =>
      (gotosIn proc.body).filter (fun label =>
          declaresLabel block label && !declaresLabel proc label) ++
        scanNonLocalTargets block proc ++ scanProcs block procs

end

def nonLocalTargets (block : BlockNode) : List Label := scanNonLocalTargets block block

/-- `strtoll` of a label, and one more: nothing that is not a digit counts. -/
def gotoDispatchValue : Label → Nat
  | .number value => value + 1
  | .ident _ => 1

/-- Whether a block has a jump buffer. -/
def hasBuffer (block : BlockNode) : Bool := !(nonLocalTargets block).isEmpty

/-- The switch of a block over what comes back from its buffer. -/
def dispatch (block : BlockNode) (value : Nat) : Option Label :=
  (nonLocalTargets block).find? fun label => gotoDispatchValue label = value

/-- The transfers of control that a goto is emitted as. -/
inductive Transfer where
  | branch
  /-- A jump to the buffer of a block further out, by its level. -/
  | longjmp (level value : Nat)
  | ice
  deriving DecidableEq, Repr

/-- The code of a goto inside of some blocks, the innermost first. -/
def emitGoto (labelOwners : List BlockNode) (label : Label) : Transfer :=
  match labelOwners with
  | [] => .branch
  | block :: _ =>
      if declaresLabel block label then .branch
      else
        match labelOwners.findIdx? fun owner => declaresLabel owner label with
        | none => .ice
        | some level =>
            if (labelOwners[level]?.map hasBuffer).getD false then
              .longjmp level (gotoDispatchValue label)
            else .ice

/-! ### The labels that are left for -/

/-- Induction over blocks, with the procedures of a block taken one by one. -/
@[elab_as_elim, induction_eliminator]
theorem BlockNode.induction {motive : BlockNode → Prop}
    (mk : ∀ labels params names procs body, (∀ proc ∈ procs, motive proc) →
      motive (.mk labels params names procs body))
    (block : BlockNode) : motive block :=
  @BlockNode.rec motive (fun procs => ∀ proc ∈ procs, motive proc) mk
    (fun _ mem => absurd mem List.not_mem_nil)
    (fun _ _ head tail _ mem => (List.mem_cons.mp mem).elim (fun same => same ▸ head) (tail _))
    block

variable {block inner proc : BlockNode} {label : Label}

theorem declaresLabel_iff : declaresLabel block label = true ↔ label ∈ block.labels :=
  List.contains_iff_mem

theorem mem_scanProcs {procs : List BlockNode} : label ∈ scanProcs block procs ↔
    ∃ proc ∈ procs, (label ∈ gotosIn proc.body ∧ label ∈ block.labels ∧ label ∉ proc.labels) ∨
      label ∈ scanNonLocalTargets block proc := by
  induction procs with
  | nil => simp [scanProcs]
  | cons first rest induction =>
      simp [scanProcs, induction, declaresLabel, or_assoc]

theorem mem_scanNonLocalTargets : label ∈ scanNonLocalTargets block inner ↔
    ∃ proc ∈ inner.procs, (label ∈ gotosIn proc.body ∧ label ∈ block.labels ∧ label ∉ proc.labels) ∨
      label ∈ scanNonLocalTargets block proc := by
  obtain ⟨labels, params, names, procs, body⟩ := inner
  rw [scanNonLocalTargets, mem_scanProcs]
  rfl

/-- What is looked for are labels of the block. -/
theorem declared_of_scanNonLocalTargets (found : label ∈ scanNonLocalTargets block inner) :
    label ∈ block.labels := by
  induction inner with
  | mk labels params names procs body induction =>
      obtain ⟨proc, listed, ⟨_, declared, _⟩ | below⟩ := mem_scanNonLocalTargets.mp found
      · exact declared
      · exact induction proc listed below

/-- What comes back from a buffer for a label leads to that label. -/
theorem dispatch_eq (numbers : ∀ label ∈ block.labels, ∃ value, label = .number value)
    (listed : label ∈ nonLocalTargets block) :
    dispatch block (gotoDispatchValue label) = some label := by
  have found : (dispatch block (gotoDispatchValue label)).isSome = true :=
    List.find?_isSome.mpr ⟨label, listed, by simp⟩
  obtain ⟨other, found⟩ := Option.isSome_iff_exists.mp found
  have same : gotoDispatchValue other = gotoDispatchValue label := by
    simpa using List.find?_some found
  obtain ⟨value, rfl⟩ := numbers label (declared_of_scanNonLocalTargets listed)
  obtain ⟨value', rfl⟩ :=
    numbers other (declared_of_scanNonLocalTargets (List.mem_of_find?_eq_some found))
  rw [found, Nat.succ.inj same]

end Plang.Labels
