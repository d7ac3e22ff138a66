import Plang.CodeGen.LabelGoto
import Plang.Library.StaticLinks
import Plang.Sema.LabelSites

/-!
# Gotos land where they say

What a goto has to keep to, and what the checker and the generator make of it.  The body of a for-in
statement and what modules and units do to begin and to end are not looked at for labels; apart from
that, and from labels that mark two statements, every accepted goto lands where it says.
-/

namespace Plang.Labels

open StaticLinks

/-! ### Blocks inside of each other -/

/-- A block of a program as one of those around a place: the statements checked before its scope is
left, whether it is a module's, and whether it is emitted with labels of its own. -/
structure Level where
  block : BlockNode
  ends : List StmtNode
  isModuleBlock : Bool
  isOwner : Bool

/-- The blocks around a place, the innermost first. -/
inductive Chain (program : Program) : List Level → Prop
  | main : Chain program [⟨program.main, [], false, true⟩]
  | module {mod} : mod ∈ program.modules → Chain program [⟨mod.block, mod.ends, true, false⟩]
  | unit {unit} : unit ∈ program.units → Chain program [⟨unit.block, unit.ends, false, false⟩]
  | proc {level outer proc} : Chain program (level :: outer) → proc ∈ level.block.procs →
      Chain program (⟨proc, [], false, true⟩ :: level :: outer)

namespace Level

variable (level : Level)

def entries : List (Label × Node) := scanLabelNesting [] [0] level.block.body

def sites : List Site := sitesAll [] [] 0 (level.block.body :: level.ends)

/-- The statements that a label marks. -/
def marksOf (label : Label) : List Site :=
  level.sites.filter fun site => site.role = .mark ∧ site.label = label

def scopes : List Scope :=
  match level.block with
  | .mk labels params names _ _ =>
      [ownScope labels names level.entries level.isModuleBlock, nameScope params]

def context (turbo : Bool) : Context := ⟨turbo, level.block.labels, level.entries⟩

end Level

def scopesOf (levels : List Level) : List Scope := levels.flatMap Level.scopes

/-- The blocks that labels are looked for in when a goto is emitted. -/
def labelOwners (levels : List Level) : List BlockNode :=
  (levels.filter Level.isOwner).map Level.block

variable {program : Program} {level : Level} {outer levels : List Level} {site : Site}

/-- The facts that the checker establishes about an accepted block. -/
structure Checked (turbo : Bool) (level : Level) (outer : List Level) : Prop where
  allowed : ∀ label ∈ level.block.labels, labelAllowed turbo label = true
  procs : checkProcs turbo (scopesOf (level :: outer)) level.block.procs = true
  sites : ∀ site ∈ level.sites,
    ∃ symbol, Accepts (level.context turbo) (scopesOf (level :: outer)) site symbol
  placed : ∀ label ∈ level.block.labels, label ∈ placedAll (level.block.body :: level.ends)

theorem checked_of_checkBlock {turbo : Bool}
    (accepted : checkBlock turbo (scopesOf outer) level.isModuleBlock level.ends level.block = true) :
    Checked turbo level outer := by
  obtain ⟨⟨labels, params, names, procs, body⟩, ends, isModuleBlock, isOwner⟩ := level
  simp only [checkBlock, Bool.and_eq_true] at accepted
  obtain ⟨⟨⟨⟨⟨allowed, _⟩, procs_checked⟩, body_checked⟩, ends_checked⟩, placed⟩ := accepted
  refine ⟨List.all_eq_true.mp allowed, procs_checked, fun site occurs => ?_, fun label declared => ?_⟩
  · rcases List.mem_append.mp occurs with in_body | in_ends
    · exact accepts_of_outermost body_checked in_body
    · obtain ⟨offset, stmt, listed, occurs⟩ := mem_sitesAll.mp in_ends
      exact accepts_of_outermost (checkAll_iff.mp ends_checked offset stmt listed) occurs
  · exact List.contains_iff_mem.mp (List.all_eq_true.mp placed label declared)

theorem checkProcs_iff {turbo : Bool} {scopes : List Scope} {procs : List BlockNode} :
    checkProcs turbo scopes procs = true ↔
      ∀ proc ∈ procs, checkBlock turbo scopes false [] proc = true := by
  induction procs with
  | nil => simp [checkProcs]
  | cons first rest induction => simp [checkProcs, induction]

/-- Every block of an accepted program is accepted. -/
theorem Chain.checked (accepted : program.accepted = true) (chain : Chain program levels) :
    ∃ level outer, levels = level :: outer ∧ Checked program.turbo level outer := by
  simp only [Program.accepted, Bool.and_eq_true, List.all_eq_true] at accepted
  obtain ⟨⟨modules, units⟩, main⟩ := accepted
  induction chain with
  | main => exact ⟨_, _, rfl, checked_of_checkBlock main⟩
  | module listed => exact ⟨_, _, rfl, checked_of_checkBlock (modules _ listed)⟩
  | unit listed =>
      obtain ⟨turbo, checked⟩ := units _ listed
      refine ⟨_, _, rfl, ?_⟩
      rw [turbo] at checked ⊢
      exact checked_of_checkBlock checked
  | proc _ listed induction =>
      obtain ⟨level, outer, same, checked⟩ := induction
      obtain ⟨rfl, rfl⟩ := List.cons.inj same
      exact ⟨_, _, rfl, checked_of_checkBlock (checkProcs_iff.mp checked.procs _ listed)⟩

/-! ### The block that declares a label -/

/-- The innermost of some blocks that declares a label. -/
structure Innermost (levels : List Level) (label : Label) (index : Nat) (target : Level) : Prop where
  at_index : levels[index]? = some target
  declared : label ∈ target.block.labels
  nearest : ∀ (nearer : Nat) (other : Level), nearer < index → levels[nearer]? = some other →
    label ∉ other.block.labels

theorem Innermost.unique {label : Label} {index index' : Nat} {target target' : Level}
    (innermost : Innermost levels label index target)
    (innermost' : Innermost levels label index' target') : index = index' ∧ target = target' := by
  have same : index = index' := by
    rcases Nat.lt_trichotomy index index' with before | same | after
    · exact absurd innermost.declared (innermost'.nearest _ _ before innermost.at_index)
    · exact same
    · exact absurd innermost'.declared (innermost.nearest _ _ after innermost'.at_index)
  subst same
  exact ⟨rfl, Option.some.inj (innermost.at_index.symm.trans innermost'.at_index)⟩

theorem Innermost.outside {label : Label} {index : Nat} {target : Level}
    (other : label ∉ level.block.labels) (innermost : Innermost outer label index target) :
    Innermost (level :: outer) label (index + 1) target where
  at_index := innermost.at_index
  declared := innermost.declared
  nearest := by
    rintro (_ | nearer) block before listed
    · obtain rfl := Option.some.inj listed
      exact other
    · exact innermost.nearest nearer block (by omega) listed

theorem lookup_declared {labels : List Label} {symbols : Label → Symbol} {others : Scope}
    {label : Label} : (labels.map (fun label => (label, symbols label)) ++ others).lookup label =
      if label ∈ labels then some (symbols label) else others.lookup label := by
  induction labels with
  | nil => rfl
  | cons first rest induction =>
      rw [List.map_cons, List.cons_append, List.lookup_cons, induction]
      by_cases same : label = first
      · simp [same]
      · simp [same, beq_eq_false_iff_ne.mpr same]

/-- A label that is found is declared by the innermost block that declares it. -/
theorem innermost_of_lookup {label : Label} {symbol : LabelSymbol}
    (found : lookup (scopesOf levels) label = some (.label symbol)) :
    ∃ index target, Innermost levels label index target ∧
      symbol = ⟨(target.entries.map Prod.fst).contains label, target.isModuleBlock⟩ := by
  induction levels with
  | nil => cases found
  | cons level outer induction =>
      obtain ⟨⟨labels, params, names, procs, body⟩, ends, isModuleBlock, isOwner⟩ := level
      rw [scopesOf, List.flatMap_cons, Level.scopes, List.cons_append, lookup,
        List.findSome?_cons, ownScope, lookup_declared] at found
      by_cases own : label ∈ labels
      · rw [if_pos own] at found
        refine ⟨0, _, ⟨rfl, own, fun nearer _ impossible => absurd impossible (by omega)⟩, ?_⟩
        exact (Symbol.label.inj (Option.some.inj found)).symm
      · rw [if_neg own] at found
        have fields : lookup (nameScope names :: nameScope params :: scopesOf outer) label =
            some (.label symbol) := by
          rw [lookup, List.findSome?_cons]
          exact found
        obtain ⟨index, target, innermost, symbol_eq⟩ :=
          induction (lookup_nameScope (lookup_nameScope fields))
        exact ⟨index + 1, target, innermost.outside own, symbol_eq⟩

/-! ### The blocks that a goto may leave for -/

theorem Chain.listed {index : Nat} {inner proc : Level} (chain : Chain program levels)
    (at_index : levels[index]? = some proc) (at_outer : levels[index + 1]? = some inner) :
    proc.block ∈ inner.block.procs := by
  induction chain generalizing index with
  | main => simp at at_outer
  | module _ => simp at at_outer
  | unit _ => simp at at_outer
  | proc _ listed induction =>
      cases index with
      | zero =>
          obtain rfl := Option.some.inj at_index
          obtain rfl := Option.some.inj at_outer
          exact listed
      | succ index => exact induction at_index at_outer

/-- Inside of another block there is a procedure, and only its statement part. -/
theorem Chain.proc_of_inside (chain : Chain program (level :: outer)) (inside : outer ≠ []) :
    level.ends = [] ∧ level.isOwner = true := by
  cases chain with
  | main => exact absurd rfl inside
  | module _ => exact absurd rfl inside
  | unit _ => exact absurd rfl inside
  | proc _ _ => exact ⟨rfl, rfl⟩

/-- A label that a goto leaves for is a target of its block. -/
theorem Chain.nonLocalTarget (chain : Chain program (level :: outer)) {label : Label} {index : Nat}
    {target : Level} (innermost : Innermost (level :: outer) label (index + 1) target)
    (named : label ∈ gotosIn level.block.body) : label ∈ nonLocalTargets target.block := by
  have other : label ∉ level.block.labels :=
    innermost.nearest 0 level (Nat.succ_pos index) rfl
  have found (nearer : Nat) : nearer ≤ index → ∀ inner, (level :: outer)[nearer + 1]? = some inner →
      label ∈ scanNonLocalTargets target.block inner.block := by
    induction nearer with
    | zero =>
        intro _ inner at_inner
        exact mem_scanNonLocalTargets.mpr ⟨level.block, chain.listed rfl at_inner,
          .inl ⟨named, innermost.declared, other⟩⟩
    | succ nearer induction =>
        intro within inner at_inner
        have before := (List.getElem?_eq_some_iff.mp at_inner).1
        have at_proc : (level :: outer)[nearer + 1]? = some (level :: outer)[nearer + 1] :=
          List.getElem?_eq_getElem (by omega)
        exact mem_scanNonLocalTargets.mpr ⟨_, chain.listed at_proc at_inner,
          .inr (induction (by omega) _ at_proc)⟩
  exact found index (Nat.le_refl index) target innermost.at_index

/-- The outermost of some blocks is a module's, or a unit's, or all of them own their labels. -/
theorem Chain.owners (accepted : program.accepted = true) (chain : Chain program levels) :
    labelOwners levels = levels.map Level.block ∨ ∃ owners root, levels = owners ++ [root] ∧
      labelOwners levels = owners.map Level.block ∧
      (root.isModuleBlock = true ∨ program.turbo = true) := by
  induction chain with
  | main => exact .inl rfl
  | module _ => exact .inr ⟨[], _, rfl, rfl, .inl rfl⟩
  | @unit unit listed =>
      simp only [Program.accepted, Bool.and_eq_true, List.all_eq_true] at accepted
      exact .inr ⟨[], _, rfl, rfl, .inr (accepted.1.2 unit listed).1⟩
  | @proc level outer proc _ _ induction =>
      have own : labelOwners (⟨proc, [], false, true⟩ :: level :: outer) =
          proc :: labelOwners (level :: outer) := rfl
      rcases induction with all | ⟨owners, root, split, owned, rooted⟩
      · refine .inl ?_
        rw [own, all]
        rfl
      · exact .inr ⟨_ :: owners, root, by rw [split, List.cons_append], by rw [own, owned]; rfl,
          rooted⟩

/-- A block that a goto may leave for is among those that labels are looked for in. -/
theorem Chain.owner_at (accepted : program.accepted = true) (chain : Chain program levels)
    {index : Nat} {target : Level} (at_index : levels[index]? = some target)
    (no_module : target.isModuleBlock = false) (iso : program.turbo = false) :
    (labelOwners levels)[index]? = some target.block ∧
      ∀ nearer < index, (labelOwners levels)[nearer]? = levels[nearer]?.map Level.block := by
  rcases chain.owners accepted with all | ⟨owners, root, rfl, owned, rooted⟩
  · rw [all]
    exact ⟨by rw [List.getElem?_map, at_index, Option.map_some], fun _ _ => List.getElem?_map⟩
  · have within : index < owners.length := by
      by_contra further
      have last := (List.getElem?_eq_some_iff.mp at_index).1
      rw [List.length_append, List.length_singleton] at last
      obtain rfl : index = owners.length := by omega
      rw [List.getElem?_concat_length] at at_index
      obtain rfl := Option.some.inj at_index
      rcases rooted with module | turbo
      · rw [module] at no_module
        cases no_module
      · rw [turbo] at iso
        cases iso
    rw [owned]
    rw [List.getElem?_append_left within] at at_index
    refine ⟨by rw [List.getElem?_map, at_index, Option.map_some], fun nearer before => ?_⟩
    rw [List.getElem?_map, List.getElem?_append_left (by omega)]

/-! ### What a goto has to keep to -/

section Legal

variable (program : Program) (levels : List Level)

/-- The procedures of modules and units can be called from anywhere. -/
def isGlobal (proc : BlockNode) : Prop :=
  ∃ mod ∈ program.modules ++ program.units, proc ∈ mod.procs

/-- The stacks of activations of a program, of its modules and of its units. -/
def Running (stack : Stack BlockNode) : Prop :=
  ∃ blocks, (blocks = [] ∨ blocks = [program.main]) ∧
    Reached (fun block proc => proc ∈ block.procs) (isGlobal program) blocks stack

/-- A goto that leaves for a block further out: what it is emitted as, the buffer that is there for
it and where that leads to, and in every run the activation whose buffer it is. -/
structure Transfers (index : Nat) (target : Level) (label : Label) : Prop where
  emitted : emitGoto (labelOwners levels) label = .longjmp index (gotoDispatchValue label)
  planted : hasBuffer target.block = true
  dispatched : dispatch target.block (gotoDispatchValue label) = some label
  unwinds : ∀ caller rest, Running program (caller :: rest) →
    caller.callee.blocks = labelOwners levels → ∃ around activation,
      Linked (caller :: rest) caller.callee.link around ∧
        (caller :: around)[index]? = some activation ∧
        caller.display[index]? = some activation.id ∧ activation ∈ rest ∧
        activation.callee.blocks.head? = some target.block ∧ activation.started = true

/-- The rules for the label of a goto. -/
inductive Legal (jump : Site) : Prop
  /-- The label marks one statement of the goto's own block, in the same part of it, and every
  structured statement around that one has the goto in it. -/
  | within {target mark} : Innermost levels jump.label 0 target →
      target.marksOf jump.label = [mark] → mark.node.getLast? = jump.node.getLast? →
      (∀ statement ∈ mark.around, statement.2 <:+ jump.node) →
      emitGoto (labelOwners levels) jump.label = .branch → Legal jump
  /-- The label marks one statement of a block further out, at its outermost level, and the jump
  goes to the activation of that block. -/
  | outward {index target mark} : Innermost levels jump.label (index + 1) target →
      target.marksOf jump.label = [mark] → mark.node.getLast? = some 0 → mark.around = [] →
      Transfers program levels (index + 1) target jump.label → Legal jump

/-- Whether the first walk passes by a labelled statement: it stands inside of a for-in statement, or
in what a module or a unit does to begin and to end. -/
def PassedBy (mark : Site) : Prop := ¬NoForIn mark.around ∨ mark.node.getLast? ≠ some 0

/-- The label of a goto marks no two statements, and where the walk passes by the one that it marks,
the goto stands in the same part and inside of the same structured statements. -/
def Clear (jump : Site) : Prop :=
  ∀ index target, Innermost levels jump.label index target →
    (target.marksOf jump.label).length ≤ 1 ∧
      ∀ mark ∈ target.marksOf jump.label, PassedBy mark →
        index = 0 ∧ mark.node.getLast? = jump.node.getLast? ∧
          ∀ statement ∈ mark.around, statement.2 <:+ jump.node

end Legal

theorem Level.mem_marksOf {label : Label} {mark : Site} : mark ∈ level.marksOf label ↔
    mark ∈ level.sites ∧ mark.role = .mark ∧ mark.label = label := by
  simp [Level.marksOf]

/-- What the walk does not pass by, it notes. -/
theorem Level.mem_entries {mark : Site} (occurs : mark ∈ level.sites) (marks : mark.role = .mark)
    (looked_at : ¬PassedBy mark) {kind : StructKind} {enclosing : Node}
    {further : List (StructKind × Node)} (inside : mark.around = (kind, enclosing) :: further) :
    (mark.label, enclosing) ∈ level.entries := by
  obtain ⟨no_forIn, body⟩ : NoForIn mark.around ∧ mark.node.getLast? = some 0 := by
    rw [PassedBy, not_or, not_not, not_not] at looked_at
    exact looked_at
  obtain ⟨offset, stmt, listed, occurs, part⟩ := part_of_sitesAll occurs
  rw [body] at part
  obtain rfl : offset = 0 := by
    have := Option.some.inj part
    omega
  obtain rfl := Option.some.inj listed
  refine mem_scan_outermost.mpr ⟨mark, occurs, marks, rfl, ?_, no_forIn⟩
  rw [inside]
  rfl

theorem Level.mark_of_entry {label : Label} {enclosing : Node}
    (noted : (label, enclosing) ∈ level.entries) : ∃ mark ∈ level.marksOf label,
      (mark.around.map Prod.snd).head? = some enclosing := by
  obtain ⟨mark, occurs, marks, named, innermost, _⟩ := mem_scan_outermost.mp noted
  exact ⟨mark, mem_marksOf.mpr ⟨List.mem_append_left _ occurs, marks, named⟩, innermost⟩

theorem mem_gotosInAll {label : Label} {stmts : List StmtNode} :
    label ∈ gotosInAll stmts ↔ ∃ stmt ∈ stmts, label ∈ gotosIn stmt := by
  induction stmts with
  | nil => simp [gotosInAll]
  | cons first rest induction => simp [gotosInAll, induction]

theorem mem_gotosIn {around : List (StructKind × Node)} {node : Node} {stmt : StmtNode}
    (occurs : site ∈ sites around node stmt) (jumps : site.role = .jump) :
    site.label ∈ gotosIn stmt := by
  induction stmt generalizing around node with
  | simple => cases occurs
  | gotoStmt label =>
      rw [List.mem_singleton.mp occurs]
      exact List.mem_singleton_self label
  | labeledStmt label stmt induction =>
      rcases List.mem_cons.mp occurs with rfl | occurs
      · cases jumps
      · exact induction occurs
  | compoundStmt stmts induction =>
      obtain ⟨offset, stmt, listed, occurs⟩ := mem_sitesAll.mp occurs
      have within := List.mem_of_getElem? listed
      exact mem_gotosInAll.mpr ⟨stmt, within, induction stmt within occurs⟩
  | structured kind fields stmts induction =>
      obtain ⟨offset, stmt, listed, occurs⟩ := mem_sitesAll.mp occurs
      have within := List.mem_of_getElem? listed
      exact mem_gotosInAll.mpr ⟨stmt, within, induction stmt within occurs⟩

/-! ### Runs -/

/-- The activation that a goto unwinds to. -/
theorem unwinds_of_owner {index : Nat} {target : Level}
    (owner : (labelOwners levels)[index + 1]? = some target.block) {caller : Activation BlockNode}
    {rest : Stack BlockNode} (running : Running program (caller :: rest))
    (same : caller.callee.blocks = labelOwners levels) : ∃ around activation,
      Linked (caller :: rest) caller.callee.link around ∧
        (caller :: around)[index + 1]? = some activation ∧
        caller.display[index + 1]? = some activation.id ∧ activation ∈ rest ∧
        activation.callee.blocks.head? = some target.block ∧ activation.started = true := by
  obtain ⟨blocks, first, reached⟩ := running
  have outermost : blocks.length ≤ 1 := by
    rcases first with rfl | rfl <;> simp
  have within : index + 1 < caller.callee.blocks.length := by
    rw [same]
    exact (List.getElem?_eq_some_iff.mp owner).1
  obtain ⟨around, activation, linked, held, named, before, blocks_eq, started⟩ :=
    (reached.sound outermost).display_names within
  refine ⟨around, activation, linked, held, named, before, ?_, started⟩
  rw [blocks_eq, same, List.head?_drop, owner]

/-! ### Accepted gotos -/

section Accepted

variable {jump : Site} {symbol : LabelSymbol} {index : Nat} {target : Level}

theorem Chain.drop (chain : Chain program levels) (at_index : levels[index]? = some target) :
    ∃ further, Chain program (target :: further) := by
  induction chain generalizing index with
  | main =>
      obtain rfl := List.mem_singleton.mp (List.mem_of_getElem? at_index)
      exact ⟨[], .main⟩
  | module listed =>
      obtain rfl := List.mem_singleton.mp (List.mem_of_getElem? at_index)
      exact ⟨[], .module listed⟩
  | unit listed =>
      obtain rfl := List.mem_singleton.mp (List.mem_of_getElem? at_index)
      exact ⟨[], .unit listed⟩
  | proc chain listed induction =>
      cases index with
      | zero =>
          obtain rfl := Option.some.inj at_index
          exact ⟨_, .proc chain listed⟩
      | succ index => exact induction at_index

/-- In an accepted program a label marks a statement of the block that declares it. -/
theorem Chain.marked (accepted : program.accepted = true) (chain : Chain program levels)
    {label : Label} (innermost : Innermost levels label index target) :
    ∃ mark, mark ∈ target.marksOf label := by
  obtain ⟨further, inner⟩ := chain.drop innermost.at_index
  obtain ⟨level, outer, same, checked⟩ := inner.checked accepted
  obtain ⟨rfl, rfl⟩ := List.cons.inj same
  obtain ⟨mark, occurs, marks, named⟩ :=
    mark_of_placedAll (checked.placed label innermost.declared)
  exact ⟨mark, Level.mem_marksOf.mpr ⟨occurs, marks, named⟩⟩

/-- A goto of the block itself is a branch. -/
theorem Chain.emitGoto_own (chain : Chain program (level :: outer)) {label : Label}
    (own : label ∈ level.block.labels) : emitGoto (labelOwners (level :: outer)) label = .branch := by
  cases owner : level.isOwner with
  | true =>
      rw [labelOwners, List.filter_cons_of_pos owner, List.map_cons, emitGoto,
        if_pos (declaresLabel_iff.mpr own)]
  | false =>
      have alone : outer = [] := by
        by_contra inside
        rw [(chain.proc_of_inside inside).2] at owner
        cases owner
      rw [labelOwners, alone, List.filter_cons_of_neg (by simp [owner])]
      rfl

/-- Where the statement is looked at, the goto is inside of what is around it. -/
theorem encloses (accepts : Accepts (level.context program.turbo) (scopesOf (level :: outer)) jump symbol)
    (jumps : jump.role = .jump) (occurs : jump ∈ level.sites) (own : jump.label ∈ level.block.labels)
    {mark : Site} (marked : level.marksOf jump.label = [mark]) (looked_at : ¬PassedBy mark) :
    ∀ statement ∈ mark.around, statement.2 <:+ jump.node := by
  cases inside : mark.around with
  | nil => simp
  | cons innermost further =>
      obtain ⟨kind, enclosing⟩ := innermost
      have mark_mem : mark ∈ level.marksOf jump.label := marked ▸ List.mem_singleton_self mark
      obtain ⟨mark_occurs, marks, named⟩ := Level.mem_marksOf.mp mark_mem
      have noted := Level.mem_entries mark_occurs marks looked_at inside
      obtain ⟨enclosing', found⟩ := labelEnclosingStmt_exists noted
      rw [named] at found
      have same : enclosing' = enclosing := by
        obtain ⟨other, other_mem, innermost⟩ :=
          Level.mark_of_entry (labelEnclosingStmt_mem found)
        rw [marked, List.mem_singleton] at other_mem
        rw [other_mem, inside] at innermost
        exact (Option.some.inj innermost).symm
      obtain ⟨statement, around_jump, rfl⟩ :=
        List.mem_map.mp (accepts.enclosed jumps own enclosing' found)
      have jump_nested := nested_of_sites occurs
      have mark_nested := nested_of_sites mark_occurs
      have innermost_in : enclosing <:+ jump.node := same ▸ jump_nested.1 statement around_jump
      rw [inside] at mark_nested
      refine List.forall_mem_cons.mpr ⟨innermost_in, fun outer_statement outer_mem => ?_⟩
      exact ((List.pairwise_cons.mp mark_nested.2).1 outer_statement outer_mem).trans innermost_in

/-- What a goto that leaves its block is emitted as. -/
theorem Chain.emitGoto_outward (accepted : program.accepted = true)
    (chain : Chain program (level :: outer)) {label : Label}
    (innermost : Innermost (level :: outer) label (index + 1) target)
    (no_module : target.isModuleBlock = false) (iso : program.turbo = false)
    (planted : hasBuffer target.block = true) :
    emitGoto (labelOwners (level :: outer)) label =
      .longjmp (index + 1) (gotoDispatchValue label) := by
  obtain ⟨owner, nearer_owners⟩ := chain.owner_at accepted innermost.at_index no_module iso
  have inside : outer ≠ [] := by
    rintro rfl
    have at_index := innermost.at_index
    simp at at_index
  have head : labelOwners (level :: outer) = level.block :: labelOwners outer := by
    rw [labelOwners, List.filter_cons_of_pos (chain.proc_of_inside inside).2, List.map_cons]
    rfl
  have other : ¬declaresLabel level.block label = true := by
    rw [declaresLabel_iff]
    exact innermost.nearest 0 level (Nat.succ_pos index) rfl
  have found : (labelOwners (level :: outer)).findIdx? (fun block => declaresLabel block label) =
      some (index + 1) := by
    obtain ⟨within, at_owner⟩ := List.getElem?_eq_some_iff.mp owner
    refine List.findIdx?_eq_some_iff_getElem.mpr ⟨within, ?_, fun nearer before => ?_⟩
    · rw [at_owner]
      exact declaresLabel_iff.mpr innermost.declared
    · have listed := nearer_owners nearer before
      rw [List.getElem?_eq_getElem (by omega)] at listed
      obtain ⟨block, at_nearer, same⟩ := Option.map_eq_some_iff.mp listed.symm
      rw [← same, declaresLabel_iff]
      exact innermost.nearest nearer block before at_nearer
  rw [head, emitGoto, if_neg other, ← head, found]
  simp only [owner, Option.map_some, planted, Option.getD_some, if_true]

/-- A goto that leaves its block. -/
theorem transfers_of_accepts (accepted : program.accepted = true)
    (chain : Chain program (level :: outer)) (jumps : jump.role = .jump)
    (occurs : jump ∈ level.sites)
    (innermost : Innermost (level :: outer) jump.label (index + 1) target)
    (no_module : target.isModuleBlock = false) (iso : program.turbo = false) :
    Transfers program (level :: outer) (index + 1) target jump.label := by
  have inside : outer ≠ [] := by
    rintro rfl
    have at_index := innermost.at_index
    simp at at_index
  have named : jump.label ∈ gotosIn level.block.body := by
    rw [Level.sites, (chain.proc_of_inside inside).1] at occurs
    rcases List.mem_append.mp occurs with in_body | impossible
    · exact mem_gotosIn in_body jumps
    · cases impossible
  have listed := chain.nonLocalTarget innermost named
  have planted : hasBuffer target.block = true := by
    rw [hasBuffer, Bool.not_eq_true', List.isEmpty_eq_false_iff]
    exact List.ne_nil_of_mem listed
  have numbers : ∀ label ∈ target.block.labels, ∃ value, label = .number value := by
    intro label declared
    obtain ⟨further, inner⟩ := chain.drop innermost.at_index
    obtain ⟨level', outer', same, checked⟩ := inner.checked accepted
    obtain ⟨rfl, rfl⟩ := List.cons.inj same
    have allowed := checked.allowed label declared
    cases label with
    | number value => exact ⟨value, rfl⟩
    | ident name =>
        rw [labelAllowed, iso] at allowed
        cases allowed
  refine ⟨chain.emitGoto_outward accepted innermost no_module iso planted, planted,
    dispatch_eq numbers listed, fun caller rest running same => ?_⟩
  exact unwinds_of_owner (chain.owner_at accepted innermost.at_index no_module iso).1 running same

/-- A block has its statement part, or what is done to begin and to end it. -/
theorem Chain.one_part (chain : Chain program (level :: outer)) :
    level.ends = [] ∨ level.block.body = .simple := by
  cases chain with
  | main => exact .inl rfl
  | module _ => exact .inr rfl
  | unit _ => exact .inr rfl
  | proc _ _ => exact .inl rfl

/-- A goto stands in the same part as a label of the statement part. -/
theorem Chain.part_eq (chain : Chain program (level :: outer)) {mark : Site}
    (mark_occurs : mark ∈ level.sites) (occurs : jump ∈ level.sites)
    (body : mark.node.getLast? = some 0) : mark.node.getLast? = jump.node.getLast? := by
  obtain ⟨offset, stmt, listed, within, part⟩ := part_of_sitesAll mark_occurs
  rw [body] at part
  obtain rfl : offset = 0 := by
    have := Option.some.inj part
    omega
  obtain rfl := Option.some.inj listed
  rcases chain.one_part with one | empty
  · obtain ⟨offset', stmt', listed', _, part'⟩ := part_of_sitesAll occurs
    rw [one] at listed'
    obtain rfl : offset' = 0 := by
      have within_one := (List.getElem?_eq_some_iff.mp listed').1
      rw [List.length_singleton] at within_one
      omega
    rw [body, part']
  · rw [empty] at within
    cases within

theorem legal_of_clear (accepted : program.accepted = true)
    (chain : Chain program (level :: outer)) (jumps : jump.role = .jump)
    (occurs : jump ∈ level.sites) (clear : Clear (level :: outer) jump) :
    Legal program (level :: outer) jump := by
  obtain ⟨level', outer', same, checked⟩ := chain.checked accepted
  obtain ⟨rfl, rfl⟩ := List.cons.inj same
  obtain ⟨symbol, accepts⟩ := checked.sites jump occurs
  obtain ⟨index, target, innermost, rfl⟩ := innermost_of_lookup accepts.found
  obtain ⟨alone, unseen⟩ := clear index target innermost
  obtain ⟨mark, mark_mem⟩ := chain.marked accepted innermost
  have marked : target.marksOf jump.label = [mark] := by
    obtain ⟨first, same⟩ := List.length_eq_one_iff.mp
      (Nat.le_antisymm alone (List.length_pos_of_mem mark_mem))
    rw [same, List.mem_singleton] at mark_mem
    rw [same, mark_mem]
  obtain ⟨mark_occurs, marks, mark_label⟩ := Level.mem_marksOf.mp mark_mem
  cases index with
  | zero =>
      obtain rfl := Option.some.inj innermost.at_index
      have own := innermost.declared
      obtain ⟨part, enclosed⟩ : mark.node.getLast? = jump.node.getLast? ∧
          ∀ statement ∈ mark.around, statement.2 <:+ jump.node := by
        by_cases passed : PassedBy mark
        · exact (unseen mark mark_mem passed).2
        · have body : mark.node.getLast? = some 0 := by
            rw [PassedBy, not_or, not_not, not_not] at passed
            exact passed.2
          exact ⟨chain.part_eq mark_occurs occurs body,
            encloses accepts jumps occurs own marked passed⟩
      exact .within innermost marked part enclosed (chain.emitGoto_own own)
  | succ index =>
      have other : jump.label ∉ level.block.labels :=
        innermost.nearest 0 level (Nat.succ_pos index) rfl
      obtain ⟨no_module, not_nested, iso⟩ := accepts.outward jumps other
      have looked_at : ¬PassedBy mark := fun passed =>
        absurd (unseen mark mark_mem passed).1 (Nat.succ_ne_zero index)
      have outermost : mark.around = [] := by
        cases inside : mark.around with
        | nil => rfl
        | cons innermost further =>
            obtain ⟨kind, enclosing⟩ := innermost
            have noted := Level.mem_entries mark_occurs marks looked_at inside
            rw [mark_label] at noted
            have contained : (target.entries.map Prod.fst).contains jump.label = true :=
              List.contains_iff_mem.mpr (List.mem_map_of_mem noted)
            rw [contained] at not_nested
            cases not_nested
      have body : mark.node.getLast? = some 0 := by
        rw [PassedBy, not_or, not_not, not_not] at looked_at
        exact looked_at.2
      exact .outward innermost marked body outermost
        (transfers_of_accepts accepted chain jumps occurs innermost no_module iso)

theorem clear_of_legal (legal : Legal program levels jump) : Clear levels jump := by
  intro index target innermost
  cases legal with
  | within innermost' marked part enclosed _ =>
      obtain ⟨rfl, rfl⟩ := innermost.unique innermost'
      refine ⟨by rw [marked]; exact Nat.le_refl 1, fun mark mark_mem _ => ?_⟩
      rw [marked, List.mem_singleton] at mark_mem
      subst mark_mem
      exact ⟨rfl, part, enclosed⟩
  | outward innermost' marked body outermost _ =>
      obtain ⟨rfl, rfl⟩ := innermost.unique innermost'
      refine ⟨by rw [marked]; exact Nat.le_refl 1, fun mark mark_mem passed => ?_⟩
      rw [marked, List.mem_singleton] at mark_mem
      subst mark_mem
      rcases passed with inside | elsewhere
      · exact absurd (by simp [NoForIn, outermost]) inside
      · exact absurd body elsewhere

end Accepted

/-- Every goto of a program is as it should be. -/
def GotosLegal (program : Program) : Prop :=
  ∀ level outer, Chain program (level :: outer) → ∀ jump ∈ level.sites, jump.role = .jump →
    Legal program (level :: outer) jump

def GotosClear (program : Program) : Prop :=
  ∀ level outer, Chain program (level :: outer) → ∀ jump ∈ level.sites, jump.role = .jump →
    Clear (level :: outer) jump

/-- The gotos of an accepted program land where they say exactly when no label that they name marks
two statements, and none is passed by by the first walk unless the goto is inside of the same
statements. -/
theorem gotosLegal_iff_clear (accepted : program.accepted = true) :
    GotosLegal program ↔ GotosClear program := by
  constructor
  · intro legal level outer chain jump occurs jumps
    exact clear_of_legal (legal level outer chain jump occurs jumps)
  · intro clear level outer chain jump occurs jumps
    exact legal_of_clear accepted chain jumps occurs (clear level outer chain jump occurs jumps)

/-- A goto of the program's block, and one of a procedure that leaves for it. -/
theorem gotosLegal_iff_clear_outward :
    let program : Program := ⟨false, [], [], .mk [.number 1] [] []
      [.mk [] [] [] [] (.gotoStmt (.number 1))]
      (.compoundStmt [.gotoStmt (.number 1), .labeledStmt (.number 1) .simple])⟩
    GotosLegal program ↔ GotosClear program := by
  exact gotosLegal_iff_clear (by decide)

/-- A program that goes to a label in the body of a for-in statement. -/
def intoForIn : Program :=
  ⟨false, [], [], .mk [.number 1] [] [] [] (.compoundStmt
    [.gotoStmt (.number 1), .structured .forInStmt [] [.labeledStmt (.number 1) .simple]])⟩

/-- The goto is accepted, and it is not inside of the for-in statement. -/
theorem intoForIn_not_legal : intoForIn.accepted = true ∧ ¬GotosLegal intoForIn := by
  refine ⟨by decide, fun legal => ?_⟩
  have clear := clear_of_legal (legal ⟨intoForIn.main, [], false, true⟩ [] .main
    ⟨.jump, .number 1, [0, 0], []⟩ (by decide) rfl)
  have innermost : Innermost [⟨intoForIn.main, [], false, true⟩] (.number 1) 0
      ⟨intoForIn.main, [], false, true⟩ :=
    ⟨rfl, by decide, fun nearer _ before => absurd before (Nat.not_lt_zero nearer)⟩
  obtain ⟨_, _, enclosed⟩ := (clear 0 _ innermost).2
    ⟨.mark, .number 1, [0, 1, 0], [(.forInStmt, [1, 0])]⟩ (by decide)
    (.inl fun none_inside => none_inside (.forInStmt, [1, 0]) List.mem_cons_self rfl)
  exact absurd (enclosed (.forInStmt, [1, 0]) List.mem_cons_self) (by decide)

end Plang.Labels
