import Plang.CodeGen.InitialisationOrder
import Mathlib.Data.List.Flatten
import Mathlib.Data.List.Induction
import Mathlib.Data.List.Nodup

/-!
# The work of an initialiser

What one initialiser performs: the structured constants that are left over from the modules before
it, and each declaration of its own once.
-/

namespace Plang.CodeGen

open GuardedCalls

/-! ### Tables -/

namespace Emission

/-- The constants of a form that are still to be laid. -/
def table (e : Emission) : ConstForm → List (Owner × ConstDef)
  | .folded => []
  | .structured => e.structuredConsts
  | .computed => e.runtimeConsts

end Emission

/-- The entries of constants in the table of a form. -/
def entriesOf (owner : Owner) (form : ConstForm) (consts : List ConstDef) :
    List (Owner × ConstDef) :=
  if form = .folded then [] else (consts.filter fun cd => cd.form = form).map fun cd => (owner, cd)

theorem entriesOf_cons (owner : Owner) (form : ConstForm) (cd : ConstDef) (rest : List ConstDef) :
    entriesOf owner form (cd :: rest) =
      entriesOf owner form [cd] ++ entriesOf owner form rest := by
  rw [entriesOf, entriesOf, entriesOf]
  split
  · rfl
  · rw [← List.map_append, ← List.filter_append, List.singleton_append]

theorem entriesOf_append (owner : Owner) (form : ConstForm) (former latter : List ConstDef) :
    entriesOf owner form (former ++ latter) =
      entriesOf owner form former ++ entriesOf owner form latter := by
  rw [entriesOf, entriesOf, entriesOf]
  split
  · rfl
  · rw [List.filter_append, List.map_append]

theorem mem_structured_entries {owner : Owner} {consts : List ConstDef}
    {entry : Owner × ConstDef} :
    entry ∈ entriesOf owner .structured consts ↔
      ∃ cd ∈ consts, cd.form = .structured ∧ entry = (owner, cd) := by
  rw [entriesOf, if_neg (by decide), List.mem_map]
  constructor
  · rintro ⟨cd, occurs, rfl⟩
    obtain ⟨occurs, structured⟩ := List.mem_filter.mp occurs
    exact ⟨cd, occurs, by simpa using structured, rfl⟩
  · rintro ⟨cd, occurs, structured, rfl⟩
    exact ⟨cd, List.mem_filter.mpr ⟨occurs, by simpa using structured⟩, rfl⟩

theorem table_emitGlobalConst (owner : Owner) (e : Emission) (cd : ConstDef) (form : ConstForm) :
    (emitGlobalConst owner e cd).table form = e.table form ++ entriesOf owner form [cd] := by
  cases cd_form : cd.form <;> cases form <;>
    simp [emitGlobalConst, cd_form, entriesOf, Emission.table, Emission.defineConst,
      Emission.emitStructuredConst, Emission.emitRuntimeConst]

theorem mem_consts_emitGlobalConst {owner : Owner} {e : Emission} {cd : ConstDef} {name : String} :
    name ∈ (emitGlobalConst owner e cd).consts ↔
      cd.form = .folded ∧ cd.name = name ∨ name ∈ e.consts := by
  cases cd_form : cd.form <;>
    simp [emitGlobalConst, cd_form, Emission.defineConst, Emission.emitStructuredConst,
      Emission.emitRuntimeConst, eq_comm]

theorem table_emitGlobals (owner : Owner) (block : BlockNode) (e : Emission) (form : ConstForm) :
    (emitGlobals owner block e).table form =
      e.table form ++ entriesOf owner form block.consts := by
  rw [emitGlobals]
  induction block.consts generalizing e with
  | nil =>
      cases form <;> simp [entriesOf]
  | cons cd rest induction =>
      rw [List.foldl_cons, induction, table_emitGlobalConst, entriesOf_cons owner form cd rest,
        List.append_assoc]

theorem mem_consts_emitGlobals {owner : Owner} {block : BlockNode} {e : Emission} {name : String} :
    name ∈ (emitGlobals owner block e).consts ↔ name ∈ block.folded ∨ name ∈ e.consts := by
  rw [emitGlobals, BlockNode.folded]
  induction block.consts generalizing e with
  | nil => simp
  | cons cd rest induction =>
      rw [List.foldl_cons, induction, mem_consts_emitGlobalConst]
      by_cases cd_form : cd.form = .folded
      · rw [List.filter_cons_of_pos (by simpa using cd_form), List.map_cons, List.mem_cons]
        tauto
      · rw [List.filter_cons_of_neg (by simpa using cd_form)]
        tauto

/-! ### Inherited constants -/

theorem mem_consts_emitInheritedConst {owner : Owner} {own : BlockNode} {e : Emission}
    {cd : ConstDef} {name : String} :
    name ∈ (emitInheritedConst owner own e cd).consts ↔
      cd.form = .folded ∧ cd.name = name ∨ name ∈ e.consts := by
  rw [emitInheritedConst]
  split
  · rename_i known
    constructor
    · exact .inr
    · rintro (⟨_, rfl⟩ | old)
      · exact known
      · exact old
  · split
    · simp [Emission.defineConst, *, eq_comm]
    · split <;> simp [Emission.emitStructuredConst, *]
    · split <;> simp [Emission.emitRuntimeConst, *]

theorem mem_consts_emitInheritedGlobals {owner : Owner} {iface own : BlockNode} {e : Emission}
    {name : String} :
    name ∈ (emitInheritedGlobals owner iface own e).consts ↔
      name ∈ iface.folded ∨ name ∈ e.consts := by
  rw [emitInheritedGlobals, BlockNode.folded]
  induction iface.consts generalizing e with
  | nil => simp
  | cons cd rest induction =>
      rw [List.foldl_cons, induction, mem_consts_emitInheritedConst]
      by_cases cd_form : cd.form = .folded
      · rw [List.filter_cons_of_pos (by simpa using cd_form), List.map_cons, List.mem_cons]
        tauto
      · rw [List.filter_cons_of_neg (by simpa using cd_form)]
        tauto

theorem table_emitInheritedConst (owner : Owner) (own : BlockNode) (e : Emission) (cd : ConstDef)
    (form : ConstForm) :
    (emitInheritedConst owner own e cd).table form = e.table form ++
      entriesOf owner form ([cd].filter fun cd => cd.name ∉ e.consts ∧ cd.name ∉ own.storage) := by
  rw [emitInheritedConst]
  split
  · rename_i known
    rw [List.filter_cons_of_neg (by simp [known])]
    simp [entriesOf]
  · rename_i new
    by_cases stored : cd.name ∈ own.storage
    · rw [List.filter_cons_of_neg (by simp [stored])]
      cases cd_form : cd.form <;> cases form <;>
        simp [entriesOf, stored, Emission.table, Emission.defineConst]
    · rw [List.filter_cons_of_pos (by simp [stored, new])]
      cases cd_form : cd.form <;> cases form <;>
        simp [entriesOf, cd_form, stored, Emission.table, Emission.defineConst,
          Emission.emitStructuredConst, Emission.emitRuntimeConst]

theorem table_foldl_emitInheritedConst {owner : Owner} {own : BlockNode} {consts : List ConstDef}
    {e : Emission} (distinct : (consts.map ConstDef.name).Nodup) (form : ConstForm) :
    (consts.foldl (emitInheritedConst owner own) e).table form = e.table form ++
      entriesOf owner form
        (consts.filter fun cd => cd.name ∉ e.consts ∧ cd.name ∉ own.storage) := by
  induction consts generalizing e with
  | nil => cases form <;> simp [entriesOf]
  | cons cd rest induction =>
      rw [List.map_cons, List.nodup_cons] at distinct
      have later : ∀ other ∈ rest,
          decide (other.name ∉ (emitInheritedConst owner own e cd).consts ∧
              other.name ∉ own.storage) =
            decide (other.name ∉ e.consts ∧ other.name ∉ own.storage) := by
        intro other occurs
        have ne : cd.name ≠ other.name :=
          fun same => distinct.1 (same ▸ List.mem_map_of_mem occurs)
        simp [mem_consts_emitInheritedConst, ne]
      have split : cd :: rest = [cd] ++ rest := rfl
      rw [List.foldl_cons, induction distinct.2, table_emitInheritedConst,
        List.filter_congr later, split, List.filter_append, entriesOf_append, List.append_assoc]

theorem table_emitInheritedGlobals {owner : Owner} {iface own : BlockNode} {e : Emission}
    (distinct : (iface.consts.map ConstDef.name).Nodup) (form : ConstForm) :
    (emitInheritedGlobals owner iface own e).table form = e.table form ++
      entriesOf owner form
        (iface.consts.filter fun cd => cd.name ∉ e.consts ∧ cd.name ∉ own.storage) :=
  table_foldl_emitInheritedConst distinct form

theorem BlockNode.mem_names {block : BlockNode} {name : String} :
    name ∈ block.names ↔ name ∈ block.folded ∨ name ∈ block.storage := by
  rw [BlockNode.names, BlockNode.folded, BlockNode.storage, List.mem_append, List.mem_append,
    ← or_assoc]
  apply or_congr_left
  simp only [List.mem_map, List.mem_filter, decide_eq_true_eq]
  constructor
  · rintro ⟨cd, occurs, same⟩
    by_cases cd_form : cd.form = .folded
    · exact .inl ⟨cd, ⟨occurs, cd_form⟩, same⟩
    · exact .inr ⟨cd, ⟨occurs, cd_form⟩, same⟩
  · rintro (⟨cd, ⟨occurs, _⟩, same⟩ | ⟨cd, ⟨occurs, _⟩, same⟩)
    · exact ⟨cd, occurs, same⟩
    · exact ⟨cd, occurs, same⟩

/-- The constants of a module that are emitted when some names have been folded before. -/
def Source.emitted (s : Source) (consts : List String) : List ConstDef :=
  s.own.consts ++ s.inheritedConsts.filter fun cd => cd.name ∉ consts

/-- The tables after the globals of a module. -/
theorem table_moduleGlobals {prog : ProgramNode} {mod : ModuleNode} {e : Emission}
    (distinct : (prog.source mod).iface.names.Nodup) (form : ConstForm) :
    (moduleGlobals mod (prog.ifaceOf mod.name) e).table form = e.table form ++
      entriesOf (.unit mod.name) form ((prog.source mod).emitted e.consts) := by
  rw [Source.emitted, entriesOf_append, Source.inheritedConsts, ← List.append_assoc,
    List.filter_filter]
  rw [ProgramNode.source] at *
  simp only [moduleGlobals]
  cases found : prog.ifaceOf mod.name with
  | none => simp [table_emitGlobals, entriesOf]
  | some iface =>
      have same : ∀ cd ∈ iface.body.consts,
          decide (cd.name ∉ (emitGlobals (.unit mod.name) mod.body e).consts ∧
              cd.name ∉ mod.body.storage) =
            (decide (cd.name ∉ e.consts) && decide (cd.name ∉ mod.body.names)) := by
        intro cd _
        rw [Bool.eq_iff_iff, Bool.and_eq_true, decide_eq_true_eq, decide_eq_true_eq,
          decide_eq_true_eq, mem_consts_emitGlobals, BlockNode.mem_names]
        tauto
      simp only [found, Option.map_some, Option.getD_some] at distinct
      have const_names : (iface.body.consts.map ConstDef.name).Nodup :=
        (List.nodup_append.mp distinct).1
      simp only [table_emitInheritedGlobals const_names, table_emitGlobals, List.filter_congr same,
        Option.map_some, Option.getD_some]

/-! ### Work -/

def constWork (entry : Owner × ConstDef) : Work := ⟨entry.1, .constant entry.2.name, entry.2.reads⟩

def groupWork (owner : Owner) (vg : VarGroup) : List Work :=
  vg.names.map fun name => ⟨owner, .variable name, vg.reads⟩

theorem works_layConst (entries : List (Owner × ConstDef)) :
    works (entries.map layConst) = entries.map constWork := works_map_work entries constWork

theorem works_groups (owner : Owner) (groups : List VarGroup) :
    works (groups.flatMap (emitGlobalVarInit owner)) = groups.flatMap (groupWork owner) := by
  induction groups with
  | nil => rfl
  | cons vg rest induction =>
      have head : works (emitGlobalVarInit owner vg) = groupWork owner vg := works_map_work _ _
      rw [List.flatMap_cons, works_append, head, induction, List.flatMap_cons]

theorem works_emitStmt (owner : Owner) (stmts : List StmtReads) :
    works (stmts.map (emitStmt owner)) = stmts.map fun stmt => ⟨owner, .statement, stmt⟩ :=
  works_map_work stmts _

theorem works_emitModuleGlobalInits (owner : Owner) (own : BlockNode) (iface : Option BlockNode)
    (e : Emission) :
    works (emitModuleGlobalInits owner own iface e) =
      e.runtimeConsts.map constWork ++
        (e.structuredConsts.map constWork ++ own.vars.flatMap (groupWork owner)) ++
        (inheritedGroups own (iface.getD ⟨[], []⟩)).flatMap (groupWork owner) := by
  cases iface with
  | none =>
      simp only [emitModuleGlobalInits, emitRuntimeConstInits, emitGlobalVarInits, works_append,
        works_layConst, works_groups]
      rfl
  | some iface =>
      simp only [emitModuleGlobalInits, emitRuntimeConstInits, emitGlobalVarInits, works_append,
        works_layConst, works_groups, Option.getD_some]

/-- The run-time constants and the structured ones of a list, together. -/
theorem entriesOf_perm (owner : Owner) (consts : List ConstDef) :
    (entriesOf owner .computed consts ++ entriesOf owner .structured consts).Perm
      ((consts.filter fun cd => cd.form ≠ .folded).map fun cd => (owner, cd)) := by
  have parts := List.filter_append_perm (fun cd : ConstDef => decide (cd.form = .computed))
    (consts.filter fun cd => cd.form ≠ .folded)
  rw [List.filter_filter, List.filter_filter] at parts
  have computed : ∀ cd ∈ consts, (decide (cd.form = .computed) && decide (cd.form ≠ .folded)) =
      decide (cd.form = .computed) := by
    intro cd _
    cases cd.form <;> rfl
  have structured : ∀ cd ∈ consts,
      (!decide (cd.form = .computed) && decide (cd.form ≠ .folded)) =
        decide (cd.form = .structured) := by
    intro cd _
    cases cd.form <;> rfl
  rw [List.filter_congr computed, List.filter_congr structured] at parts
  rw [entriesOf, entriesOf, if_neg (by decide), if_neg (by decide), ← List.map_append]
  exact parts.map _

theorem lay_perm {runtime left structured both own inherited statement : List Work}
    (parts : (runtime ++ structured).Perm both) :
    (runtime ++ (left ++ structured ++ own) ++ inherited ++ statement).Perm
      (left ++ (both ++ (own ++ inherited) ++ statement)) := by
  simp only [List.append_assoc]
  apply List.perm_append_comm_assoc runtime left _ |>.trans
  apply List.Perm.append_left
  rw [← List.append_assoc]
  exact parts.append_right _

/-- The initial values of some constants and groups of variables. -/
def laidWork (owner : Owner) (consts : List ConstDef) (groups : List VarGroup) : List Work :=
  (consts.filter fun cd => cd.form ≠ .folded).map (fun cd => constWork (owner, cd)) ++
    groups.flatMap (groupWork owner)

/-- The work that a module does itself for these constants and these groups of variables. -/
def ownWork (s : Source) (consts : List ConstDef) (groups : List VarGroup) : List Work :=
  laidWork (.unit s.name) consts groups ++
    s.statement.toList.map fun stmt => ⟨.unit s.name, .statement, stmt⟩

theorem mem_laidWork {owner : Owner} {consts : List ConstDef} {groups : List VarGroup}
    {work : Work} :
    work ∈ laidWork owner consts groups ↔
      (∃ cd ∈ consts, cd.form ≠ .folded ∧ work = ⟨owner, .constant cd.name, cd.reads⟩) ∨
        ∃ vg ∈ groups, ∃ name ∈ vg.names, work = ⟨owner, .variable name, vg.reads⟩ := by
  rw [laidWork, List.mem_append]
  apply or_congr
  · rw [List.mem_map]
    constructor
    · rintro ⟨cd, occurs, rfl⟩
      obtain ⟨occurs, stored⟩ := List.mem_filter.mp occurs
      exact ⟨cd, occurs, by simpa using stored, rfl⟩
    · rintro ⟨cd, occurs, stored, rfl⟩
      exact ⟨cd, List.mem_filter.mpr ⟨occurs, by simpa using stored⟩, rfl⟩
  · rw [List.mem_flatMap]
    constructor
    · rintro ⟨vg, occurs, laid⟩
      obtain ⟨name, named, rfl⟩ := List.mem_map.mp laid
      exact ⟨vg, occurs, name, named, rfl⟩
    · rintro ⟨vg, occurs, name, named, rfl⟩
      exact ⟨vg, occurs, List.mem_map_of_mem named⟩

/-! ### Initialisers -/

/-- The tables before a module of a compilation. -/
def ProgramNode.before (prog : ProgramNode) (former : List ModuleNode) : Emission :=
  (emitModules prog former).1

/-- The initialiser of a module that stands after others. -/
def ProgramNode.initFn (prog : ProgramNode) (former : List ModuleNode) (mod : ModuleNode) :
    List Instr :=
  emitModuleInitFn mod (prog.ifaceOf mod.name)
    (moduleGlobals mod (prog.ifaceOf mod.name) (prog.before former))

theorem emitModules_snoc (prog : ProgramNode) (former : List ModuleNode) (mod : ModuleNode) :
    emitModules prog (former ++ [mod]) = emitModule prog (emitModules prog former) mod :=
  List.foldl_concat _ _ _ _

theorem runtimeConsts_before (prog : ProgramNode) (former : List ModuleNode) :
    (prog.before former).runtimeConsts = [] := by
  induction former using List.reverseRecOn with
  | nil => rfl
  | append_singleton former mod induction =>
      rw [ProgramNode.before, emitModules_snoc, emitModule]
      split
      · exact induction
      · rfl

/-- A place in a list with one element more. -/
theorem snoc_eq_split {α : Type*} {whole former latter : List α} {last mid : α} :
    whole ++ [last] = former ++ mid :: latter ↔
      (former = whole ∧ mid = last ∧ latter = []) ∨
        ∃ inner, latter = inner ++ [last] ∧ whole = former ++ mid :: inner := by
  constructor
  · intro split
    rcases List.eq_nil_or_concat latter with rfl | ⟨inner, other, rfl⟩
    · obtain ⟨rfl, same⟩ := List.append_inj' split rfl
      exact .inl ⟨rfl, (List.cons.inj same).1.symm, rfl⟩
    · have split : whole ++ [last] = (former ++ mid :: inner) ++ [other] := by simpa using split
      obtain ⟨rfl, same⟩ := List.append_inj' split rfl
      obtain rfl := (List.cons.inj same).1
      exact .inr ⟨inner, List.concat_eq_append, rfl⟩
  · rintro (⟨rfl, rfl, rfl⟩ | ⟨inner, rfl, rfl⟩)
    · rfl
    · simp

theorem exists_split_snoc {α : Type*} {whole : List α} {last : α} {property : List α → α → Prop} :
    (∃ former mid latter, whole ++ [last] = former ++ mid :: latter ∧ property former mid) ↔
      (∃ former mid latter, whole = former ++ mid :: latter ∧ property former mid) ∨
        property whole last := by
  constructor
  · rintro ⟨former, mid, latter, split, holds⟩
    rcases snoc_eq_split.mp split with ⟨rfl, rfl, rfl⟩ | ⟨inner, _, split⟩
    · exact .inr holds
    · exact .inl ⟨former, mid, inner, split, holds⟩
  · rintro (⟨former, mid, inner, split, holds⟩ | holds)
    · exact ⟨former, mid, _, snoc_eq_split.mpr (.inr ⟨inner, rfl, split⟩), holds⟩
    · exact ⟨whole, last, [], rfl, holds⟩

/-- The initialisers of a compilation, each with the modules before it. -/
theorem mem_functions {prog : ProgramNode} {modules : List ModuleNode}
    {entry : String × List Instr} :
    entry ∈ (emitModules prog modules).2 ↔
      ∃ former mod latter, modules = former ++ mod :: latter ∧ mod.isInterface = false ∧
        entry = (mod.name, prog.initFn former mod) := by
  induction modules using List.reverseRecOn with
  | nil => simp [emitModules]
  | append_singleton modules last induction =>
      rw [exists_split_snoc, ← induction, emitModules_snoc, emitModule]
      split
      · rename_i interface
        simp [interface]
      · rename_i implementation
        simp only [List.mem_append, List.mem_singleton, implementation]
        exact or_congr_right (iff_of_eq (true_and _)).symm

/-- The work of the initialiser of a module: what is left over, and its own. -/
theorem works_initFn {prog : ProgramNode} {former : List ModuleNode} {mod : ModuleNode}
    (distinct : (prog.source mod).iface.names.Nodup) :
    (works (prog.initFn former mod)).Perm
      ((prog.before former).structuredConsts.map constWork ++
        ownWork (prog.source mod) ((prog.source mod).emitted (prog.before former).consts)
          (mod.body.vars ++ inheritedGroups mod.body (prog.source mod).iface)) := by
  let e := moduleGlobals mod (prog.ifaceOf mod.name) (prog.before former)
  have runtime : e.runtimeConsts = _ := table_moduleGlobals distinct .computed
  have structured : e.structuredConsts = _ := table_moduleGlobals distinct .structured
  have iface : ((prog.ifaceOf mod.name).map ModuleNode.body).getD ⟨[], []⟩ =
      (prog.source mod).iface := rfl
  rw [Emission.table, runtimeConsts_before, List.nil_append] at runtime
  rw [Emission.table] at structured
  rw [ProgramNode.initFn, emitModuleInitFn, works_append, works_append, callUnits, works_map_call,
    works_emitStmt, works_emitModuleGlobalInits, runtime, structured, iface, List.nil_append,
    List.map_append, ownWork, laidWork, List.flatMap_append]
  apply lay_perm
  rw [← List.map_append]
  have parts := (entriesOf_perm (.unit mod.name)
    ((prog.source mod).emitted (prog.before former).consts)).map constWork
  rw [List.map_map] at parts
  exact parts

/-- The work of the initialiser of a unit. -/
theorem works_emitUnitInitFn (u : UnitNode) :
    (works u.emitUnitInitFn).Perm
      (ownWork u.source (u.interfaceBlock.consts ++ u.implementationBlock.consts)
        (u.implementationBlock.vars ++ inheritedGroups u.implementationBlock u.interfaceBlock)) := by
  have table : ∀ form, u.globals.table form = entriesOf (.unit u.name) form
      (u.interfaceBlock.consts ++ u.implementationBlock.consts) := by
    intro form
    rw [UnitNode.globals, table_emitGlobals, table_emitGlobals, entriesOf_append]
    cases form <;> rfl
  have runtime : u.globals.runtimeConsts = _ := table .computed
  have structured : u.globals.structuredConsts = _ := table .structured
  rw [UnitNode.emitUnitInitFn, works_append, works_append, callUnits, works_map_call,
    works_emitStmt, works_emitModuleGlobalInits, runtime, structured, Option.getD_some,
    List.nil_append, ownWork, laidWork, List.flatMap_append]
  have parts := (entriesOf_perm (.unit u.name)
    (u.interfaceBlock.consts ++ u.implementationBlock.consts)).map constWork
  rw [List.map_append, List.map_map] at parts
  exact @lay_perm _ [] _ _ _ _ _ parts

/-! ### Tables between modules -/

theorem before_snoc (prog : ProgramNode) (former : List ModuleNode) (mod : ModuleNode) :
    prog.before (former ++ [mod]) =
      if mod.isInterface then prog.before former
      else { moduleGlobals mod (prog.ifaceOf mod.name) (prog.before former) with
        runtimeConsts := [] } := by
  rw [ProgramNode.before, emitModules_snoc, emitModule]
  split <;> rfl

theorem mem_consts_moduleGlobals {prog : ProgramNode} {mod : ModuleNode} {e : Emission}
    {name : String} :
    name ∈ (moduleGlobals mod (prog.ifaceOf mod.name) e).consts ↔
      (name ∈ mod.body.folded ∨ name ∈ (prog.source mod).iface.folded) ∨ name ∈ e.consts := by
  simp only [moduleGlobals, ProgramNode.source]
  cases prog.ifaceOf mod.name with
  | none => simp [mem_consts_emitGlobals, BlockNode.folded]
  | some iface =>
      simp only [mem_consts_emitInheritedGlobals, mem_consts_emitGlobals, Option.map_some,
        Option.getD_some]
      tauto

/-- The names that have been folded before a module. -/
theorem mem_consts_before {prog : ProgramNode} {former : List ModuleNode} {name : String} :
    name ∈ (prog.before former).consts ↔
      name ∈ prog.interfaceConsts ∨ ∃ mod ∈ former, mod.isInterface = false ∧
        (name ∈ mod.body.folded ∨ name ∈ (prog.source mod).iface.folded) := by
  induction former using List.reverseRecOn with
  | nil => simp [ProgramNode.before, emitModules]
  | append_singleton former last induction =>
      simp only [before_snoc, List.mem_append, List.mem_singleton, or_and_right, exists_or,
        exists_eq_left]
      split
      · rename_i interface
        simp [induction, interface]
      · rename_i implementation
        have implementation : last.isInterface = false := by simpa using implementation
        simp only [mem_consts_moduleGlobals, induction, implementation, true_and]
        rw [or_comm, or_assoc]

/-- The structured constants of the modules before one are left over. -/
theorem mem_structuredConsts_before {prog : ProgramNode} {former : List ModuleNode}
    (distinct : ∀ mod ∈ former, mod.isInterface = false → (prog.source mod).iface.names.Nodup)
    {entry : Owner × ConstDef} :
    entry ∈ (prog.before former).structuredConsts ↔
      ∃ first mod latter, former = first ++ mod :: latter ∧ mod.isInterface = false ∧
        ∃ cd ∈ (prog.source mod).emitted (prog.before first).consts,
          cd.form = .structured ∧ entry = (.unit mod.name, cd) := by
  induction former using List.reverseRecOn with
  | nil => simp [ProgramNode.before, emitModules]
  | append_singleton former last induction =>
      have inner := induction fun mod occurs => distinct mod (List.mem_append_left _ occurs)
      rw [exists_split_snoc, ← inner, before_snoc]
      split
      · rename_i interface
        simp [interface]
      · rename_i implementation
        have implementation : last.isInterface = false := by simpa using implementation
        have whole := @table_moduleGlobals prog last (prog.before former)
          (distinct last (List.mem_append_right _ List.mem_cons_self) implementation) .structured
        have table : (moduleGlobals last (prog.ifaceOf last.name)
            (prog.before former)).structuredConsts = _ := whole
        simp only [table, Emission.table, List.mem_append, implementation, true_and]
        exact or_congr_right mem_structured_entries

/-! ### One initialiser -/

theorem items_ownWork (s : Source) (consts : List ConstDef) (groups : List VarGroup) :
    (ownWork s consts groups).map Work.item =
      (consts.filter fun cd => cd.form ≠ .folded).map (fun cd => .constant cd.name) ++
        (groups.flatMap VarGroup.names).map .variable ++
        s.statement.toList.map fun _ => .statement := by
  have named : (groups.flatMap (groupWork (.unit s.name))).map Work.item =
      (groups.flatMap VarGroup.names).map .variable := by
    rw [List.map_flatMap, List.map_flatMap]
    simp only [groupWork, List.map_map]
    rfl
  rw [ownWork, laidWork, List.map_append, List.map_append, List.map_map, List.map_map, named]
  rfl

theorem nodup_items {consts : List ConstDef} {vars : List String} {stmts : List StmtReads}
    (const_names : (consts.map ConstDef.name).Nodup) (var_names : vars.Nodup)
    (one : stmts.length ≤ 1) :
    ((consts.filter fun cd => cd.form ≠ .folded).map (fun cd => Item.constant cd.name) ++
      vars.map Item.variable ++ stmts.map fun _ => Item.statement).Nodup := by
  have const_items : ((consts.filter fun cd => cd.form ≠ .folded).map
      (Item.constant ∘ ConstDef.name)).Nodup := by
    rw [← List.map_map]
    apply List.Nodup.map (fun _ _ => Item.constant.inj)
    exact const_names.sublist (List.filter_sublist.map _)
  have var_items := List.Nodup.map (fun _ _ => Item.variable.inj) var_names
  have stmt_items : (stmts.map fun _ => Item.statement).Nodup := by
    cases stmts with
    | nil => exact List.nodup_nil
    | cons stmt rest =>
        cases rest with
        | nil => exact List.nodup_singleton _
        | cons _ _ => simp at one
  refine List.nodup_append.mpr ⟨List.nodup_append.mpr ⟨const_items, var_items, ?_⟩, stmt_items, ?_⟩
  · intro item const_item other var_item same
    obtain ⟨cd, _, rfl⟩ := List.mem_map.mp const_item
    obtain ⟨name, _, rfl⟩ := List.mem_map.mp var_item
    cases same
  · intro item declared other stmt same
    obtain ⟨_, _, rfl⟩ := List.mem_map.mp stmt
    rcases List.mem_append.mp declared with const_item | var_item
    · obtain ⟨cd, _, rfl⟩ := List.mem_map.mp const_item
      cases same
    · obtain ⟨name, _, rfl⟩ := List.mem_map.mp var_item
      cases same

/-- The actions that the initialiser of a module performs, and its own work among them. -/
structure Brings (s : Source) (actions : List Instr) (left own : List Work) : Prop where
  perm : (works actions).Perm (left ++ own)
  foreign : ∀ work ∈ left, work.owner ≠ .unit s.name
  owner : ∀ work ∈ own, work.owner = .unit s.name
  nodup : (own.map Work.item).Nodup
  within : own.map Work.item ⊆ s.declared
  reads : ∀ work ∈ own, work.reads ⊆ s.reads
  first : CallsFirst actions
  imports : ∀ callee ∈ callees actions, ∃ name ∈ s.imports, callee = .unit name

/-- The kinds of items that some constants, variables and a statement make. -/
def IsItemOf (consts : List ConstDef) (vars : List String) (stmt : Option StmtReads) (item : Item) :
    Prop :=
  (∃ cd ∈ consts, cd.form ≠ .folded ∧ item = .constant cd.name) ∨
    (∃ name ∈ vars, item = .variable name) ∨ stmt.isSome = true ∧ item = .statement

theorem mem_const_items {consts : List ConstDef} {item : Item} :
    item ∈ (consts.filter fun cd => cd.form ≠ .folded).map (fun cd => Item.constant cd.name) ↔
      ∃ cd ∈ consts, cd.form ≠ .folded ∧ item = .constant cd.name := by
  rw [List.mem_map]
  constructor
  · rintro ⟨cd, occurs, rfl⟩
    obtain ⟨occurs, stored⟩ := List.mem_filter.mp occurs
    exact ⟨cd, occurs, by simpa using stored, rfl⟩
  · rintro ⟨cd, occurs, stored, rfl⟩
    exact ⟨cd, List.mem_filter.mpr ⟨occurs, by simpa using stored⟩, rfl⟩

theorem mem_var_items {vars : List String} {item : Item} :
    item ∈ vars.map Item.variable ↔ ∃ name ∈ vars, item = .variable name := by
  rw [List.mem_map]
  exact exists_congr fun _ => and_congr_right' eq_comm

theorem mem_stmt_items {stmt : Option StmtReads} {item : Item} :
    item ∈ stmt.toList.map (fun _ => Item.statement) ↔
      stmt.isSome = true ∧ item = .statement := by
  cases stmt <;> simp

theorem mem_items_ownWork {s : Source} {consts : List ConstDef} {groups : List VarGroup}
    {item : Item} :
    item ∈ (ownWork s consts groups).map Work.item ↔
      IsItemOf consts (groups.flatMap VarGroup.names) s.statement item := by
  rw [items_ownWork, List.mem_append, List.mem_append, or_assoc, mem_const_items, mem_var_items,
    mem_stmt_items]
  rfl

theorem Source.mem_declared {s : Source} {item : Item} :
    item ∈ s.declared ↔
      IsItemOf (s.own.consts ++ s.inheritedConsts) (s.own.varNames ++ s.inheritedVars) s.statement
        item := by
  rw [Source.declared, BlockNode.items, List.mem_append, List.mem_append, List.mem_append,
    List.mem_append, mem_const_items, mem_var_items, mem_const_items, mem_var_items,
    mem_stmt_items, IsItemOf]
  simp only [List.mem_append, or_and_right, exists_or, or_assoc, or_left_comm]

theorem mem_ownWork {s : Source} {consts : List ConstDef} {groups : List VarGroup} {work : Work}
    (occurs : work ∈ ownWork s consts groups) :
    (∃ cd ∈ consts, cd.form ≠ .folded ∧ work = ⟨.unit s.name, .constant cd.name, cd.reads⟩) ∨
      (∃ vg ∈ groups, ∃ name ∈ vg.names, work = ⟨.unit s.name, .variable name, vg.reads⟩) ∨
      ∃ stmt, s.statement = some stmt ∧ work = ⟨.unit s.name, .statement, stmt⟩ := by
  rw [ownWork, List.mem_append, mem_laidWork, or_assoc] at occurs
  rcases occurs with laid | laid | run
  · exact .inl laid
  · exact .inr (.inl laid)
  · obtain ⟨stmt, written, rfl⟩ := List.mem_map.mp run
    exact .inr (.inr ⟨stmt, Option.mem_toList.mp written, rfl⟩)

/-- What a constant of the block or of the interface reads. -/
theorem BlockNode.reads_of_const {block : BlockNode} {cd : ConstDef} (occurs : cd ∈ block.consts)
    (stored : cd.form ≠ .folded) : cd.reads ⊆ block.reads := by
  intro name read
  rw [BlockNode.reads, List.mem_append]
  exact .inl (List.mem_flatMap.mpr ⟨cd, List.mem_filter.mpr ⟨occurs, by simpa using stored⟩, read⟩)

theorem BlockNode.reads_of_group {block : BlockNode} {vg : VarGroup} (occurs : vg ∈ block.vars) :
    vg.reads ⊆ block.reads := by
  intro name read
  rw [BlockNode.reads, List.mem_append]
  exact .inr (List.mem_flatMap.mpr ⟨vg, occurs, read⟩)

/-- A module whose initialiser lays constants and variables of its own, each of them once. -/
theorem brings_of_names {s : Source} {actions : List Instr} {left : List Work}
    {consts : List ConstDef} {groups : List VarGroup}
    (perm : (works actions).Perm (left ++ ownWork s consts groups))
    (foreign : ∀ work ∈ left, work.owner ≠ .unit s.name)
    (const_names : (consts.map ConstDef.name).Nodup)
    (var_names : (groups.flatMap VarGroup.names).Nodup)
    (consts_within : consts ⊆ s.own.consts ++ s.inheritedConsts)
    (vars_within : groups.flatMap VarGroup.names ⊆ s.own.varNames ++ s.inheritedVars)
    (groups_within : groups ⊆ s.own.vars ++ s.iface.vars) (first : CallsFirst actions)
    (imports : ∀ callee ∈ callees actions, ∃ name ∈ s.imports, callee = .unit name) :
    Brings s actions left (ownWork s consts groups) where
  perm := perm
  foreign := foreign
  owner := by
    intro work occurs
    rcases mem_ownWork occurs with ⟨cd, _, _, rfl⟩ | ⟨vg, _, name, _, rfl⟩ | ⟨stmt, _, rfl⟩
    · rfl
    · rfl
    · rfl
  nodup := by
    rw [items_ownWork]
    apply nodup_items const_names var_names
    cases s.statement <;> simp
  within := by
    intro item occurs
    rw [Source.mem_declared]
    rcases mem_items_ownWork.mp occurs with ⟨cd, occurs, stored⟩ | ⟨name, occurs, same⟩ | stmt
    · exact .inl ⟨cd, consts_within occurs, stored⟩
    · exact .inr (.inl ⟨name, vars_within occurs, same⟩)
    · exact .inr (.inr stmt)
  reads := by
    intro work occurs name read
    rw [Source.reads, List.mem_append, List.mem_append]
    rcases mem_ownWork occurs with
      ⟨cd, cd_occurs, stored, rfl⟩ | ⟨vg, vg_occurs, _, _, rfl⟩ | ⟨stmt, written, rfl⟩
    · rcases List.mem_append.mp (consts_within cd_occurs) with own | inherited
      · exact .inl (.inl (BlockNode.reads_of_const own stored read))
      · exact .inl (.inr (BlockNode.reads_of_const (List.mem_filter.mp inherited).1 stored read))
    · rcases List.mem_append.mp (groups_within vg_occurs) with own | inherited
      · exact .inl (.inl (BlockNode.reads_of_group own read))
      · exact .inl (.inr (BlockNode.reads_of_group inherited read))
    · right
      rw [written]
      exact read
  first := first
  imports := imports

/-! ### Modules and units -/

theorem mem_inheritedGroups {own iface : BlockNode} {vg : VarGroup} :
    vg ∈ inheritedGroups own iface ↔
      vg ∈ iface.vars ∧ ∀ name ∈ vg.names, name ∉ own.varNames := by
  rw [inheritedGroups, List.mem_filter]
  simp

/-- The variables that are laid: those of the block, and the groups of the interface that it declares
no name of. -/
theorem nodup_groups {s : Source} (own_names : s.own.names.Nodup)
    (iface_names : s.iface.names.Nodup) :
    ((s.own.vars ++ inheritedGroups s.own s.iface).flatMap VarGroup.names).Nodup := by
  rw [List.flatMap_append]
  refine List.nodup_append.mpr ⟨(List.nodup_append.mp own_names).2.1, ?_, ?_⟩
  · exact List.Nodup.sublist (List.Sublist.flatMap List.filter_sublist _)
      (List.nodup_append.mp iface_names).2.1
  · rintro name own other inherited rfl
    obtain ⟨vg, occurs, named⟩ := List.mem_flatMap.mp inherited
    exact (mem_inheritedGroups.mp occurs).2 name named own

theorem groups_within (s : Source) :
    (s.own.vars ++ inheritedGroups s.own s.iface).flatMap VarGroup.names ⊆
      s.own.varNames ++ s.inheritedVars := by
  rw [List.flatMap_append]
  apply List.append_subset.mpr ⟨List.subset_append_left _ _, ?_⟩
  intro name inherited
  apply List.mem_append_right
  obtain ⟨vg, occurs, named⟩ := List.mem_flatMap.mp inherited
  obtain ⟨occurs, apart⟩ := mem_inheritedGroups.mp occurs
  rw [Source.inheritedVars, List.mem_filter]
  exact ⟨List.mem_flatMap.mpr ⟨vg, occurs, named⟩, by simpa using apart name named⟩

theorem nodup_emitted {s : Source} (own_names : s.own.names.Nodup)
    (iface_names : s.iface.names.Nodup) (consts : List String) :
    ((s.emitted consts).map ConstDef.name).Nodup := by
  rw [Source.emitted, List.map_append]
  refine List.nodup_append.mpr ⟨(List.nodup_append.mp own_names).1, ?_, ?_⟩
  · exact List.Nodup.sublist ((List.filter_sublist.trans List.filter_sublist).map _)
      (List.nodup_append.mp iface_names).1
  · rintro name own other inherited rfl
    obtain ⟨cd, occurs, rfl⟩ := List.mem_map.mp inherited
    have apart := (List.mem_filter.mp (List.mem_filter.mp occurs).1).2
    rw [decide_eq_true_eq] at apart
    exact apart (List.mem_append_left _ own)

/-- The initial values make no calls. -/
theorem callees_emitModuleGlobalInits (owner : Owner) (own : BlockNode)
    (iface : Option BlockNode) (e : Emission) :
    callees (emitModuleGlobalInits owner own iface e) = [] := by
  have consts : ∀ entries : List (Owner × ConstDef), callees (entries.map layConst) = [] :=
    fun entries => callees_map_work entries constWork
  have groups : ∀ groups : List VarGroup,
      callees (groups.flatMap (emitGlobalVarInit owner)) = [] := by
    intro groups
    induction groups with
    | nil => rfl
    | cons vg rest induction =>
        have head : callees (emitGlobalVarInit owner vg) = [] := callees_map_work _ _
        rw [List.flatMap_cons, callees_append, head, induction, List.append_nil]
  cases iface with
  | none =>
      simp only [emitModuleGlobalInits, emitRuntimeConstInits, emitGlobalVarInits, callees_append,
        consts, groups, List.append_nil]
  | some iface =>
      simp only [emitModuleGlobalInits, emitRuntimeConstInits, emitGlobalVarInits, callees_append,
        consts, groups, List.append_nil]

/-- Calls, and then initial values and a statement. -/
theorem initialiser_shape (names : List String) (owner : Owner) (own : BlockNode)
    (iface : Option BlockNode) (e : Emission) (stmts : List StmtReads) :
    CallsFirst (callUnits names ++ emitModuleGlobalInits owner own iface e ++
        stmts.map (emitStmt owner)) ∧
      callees (callUnits names ++ emitModuleGlobalInits owner own iface e ++
        stmts.map (emitStmt owner)) = names.map .unit := by
  have stmt : callees (stmts.map (emitStmt owner)) = [] :=
    callees_map_work stmts (Work.mk owner .statement)
  have rest : callees (emitModuleGlobalInits owner own iface e ++
      stmts.map (emitStmt owner)) = [] := by
    rw [callees_append, callees_emitModuleGlobalInits, stmt, List.append_nil]
  rw [List.append_assoc]
  constructor
  · refine ⟨names.map .unit, _, congrArg₂ _ ?_ (eq_map_works rest)⟩
    rw [List.map_map]
    rfl
  · rw [callees_append, rest, List.append_nil]
    exact callees_map_call names Owner.unit

/-- The initialiser of a module. -/
theorem brings_initFn {prog : ProgramNode} {former : List ModuleNode} {mod : ModuleNode}
    (own_names : (prog.source mod).own.names.Nodup)
    (iface_names : (prog.source mod).iface.names.Nodup)
    (foreign : ∀ entry ∈ (prog.before former).structuredConsts, entry.1 ≠ .unit mod.name) :
    Brings (prog.source mod) (prog.initFn former mod)
      ((prog.before former).structuredConsts.map constWork)
      (ownWork (prog.source mod) ((prog.source mod).emitted (prog.before former).consts)
        (mod.body.vars ++ inheritedGroups mod.body (prog.source mod).iface)) := by
  have shape := initialiser_shape
    ((mod.allImports (prog.ifaceOf mod.name)).filter fun name => ¬isBuiltinModule name)
    (.unit mod.name) mod.body ((prog.ifaceOf mod.name).map ModuleNode.body)
    (moduleGlobals mod (prog.ifaceOf mod.name) (prog.before former)) mod.initStmt.toList
  apply brings_of_names (works_initFn iface_names)
  · intro work left
    obtain ⟨entry, occurs, rfl⟩ := List.mem_map.mp left
    exact foreign entry occurs
  · exact nodup_emitted own_names iface_names _
  · exact nodup_groups own_names iface_names
  · exact List.append_subset.mpr ⟨List.subset_append_left _ _,
      fun _ occurs => List.mem_append_right _ (List.mem_filter.mp occurs).1⟩
  · exact groups_within (prog.source mod)
  · exact List.append_subset.mpr ⟨List.subset_append_left _ _,
      fun _ occurs => List.mem_append_right _ (List.mem_filter.mp occurs).1⟩
  · exact shape.1
  · intro callee called
    rw [ProgramNode.initFn, emitModuleInitFn, shape.2] at called
    obtain ⟨name, occurs, rfl⟩ := List.mem_map.mp called
    exact ⟨name, (List.mem_filter.mp occurs).1, rfl⟩

theorem unitInitCallNames_subset (fromTUI uses seen : List String) :
    unitInitCallNames fromTUI uses seen ⊆ uses := by
  induction uses generalizing seen with
  | nil => exact List.Subset.refl _
  | cons name rest induction =>
      rw [unitInitCallNames]
      split
      · exact List.Subset.trans (induction seen) (List.subset_cons_self _ _)
      · split
        · exact List.cons_subset_cons _ (induction _)
        · exact List.Subset.trans (induction _) (List.subset_cons_self _ _)

/-- Every unit of a uses clause that was found published is called. -/
theorem mem_unitInitCallNames {fromTUI uses seen : List String} {name : String}
    (used : name ∈ uses) (unit : name ≠ "system") (new : name ∉ seen) (found : name ∈ fromTUI) :
    name ∈ unitInitCallNames fromTUI uses seen := by
  induction uses generalizing seen with
  | nil => cases used
  | cons head rest induction =>
      rw [unitInitCallNames]
      by_cases same : head = name
      · subst same
        rw [if_neg (by simp [unit, new]), if_pos found]
        exact List.mem_cons_self
      · have later : name ∈ rest := (List.mem_cons.mp used).resolve_left (Ne.symm same)
        have unseen : name ∉ head :: seen := by
          rw [List.mem_cons]
          rintro (rfl | old)
          · exact same rfl
          · exact new old
        split
        · exact induction later new
        · split
          · exact List.mem_cons_of_mem _ (induction later unseen)
          · exact induction later unseen

/-- The initialiser of a unit. -/
theorem brings_emitUnitInitFn {u : UnitNode} (own_names : u.source.own.names.Nodup)
    (iface_names : u.source.iface.names.Nodup)
    (apart : ∀ name ∈ u.interfaceBlock.names, name ∉ u.implementationBlock.names) :
    Brings u.source u.emitUnitInitFn []
      (ownWork u.source (u.interfaceBlock.consts ++ u.implementationBlock.consts)
        (u.implementationBlock.vars ++
          inheritedGroups u.implementationBlock u.interfaceBlock)) := by
  have shape := initialiser_shape (unitInitCallNames u.fromTUI u.uses []) (.unit u.name)
    u.implementationBlock (some u.interfaceBlock) u.globals u.initBody.toList
  have const_apart : ∀ cd ∈ u.interfaceBlock.consts, cd.name ∉ u.implementationBlock.names :=
    fun cd occurs => apart _ (List.mem_append_left _ (List.mem_map_of_mem occurs))
  apply brings_of_names (works_emitUnitInitFn u)
  · intro work left
    cases left
  · rw [List.map_append]
    refine List.nodup_append.mpr ⟨(List.nodup_append.mp iface_names).1,
      (List.nodup_append.mp own_names).1, ?_⟩
    rintro name inherited other own rfl
    obtain ⟨cd, occurs, rfl⟩ := List.mem_map.mp inherited
    exact const_apart cd occurs (List.mem_append_left _ own)
  · exact nodup_groups own_names iface_names
  · refine List.append_subset.mpr ⟨?_, List.subset_append_left _ _⟩
    intro cd occurs
    exact List.mem_append_right _ (List.mem_filter.mpr ⟨occurs, decide_eq_true (const_apart cd occurs)⟩)
  · exact groups_within u.source
  · exact List.append_subset.mpr ⟨List.subset_append_left _ _,
      fun _ occurs => List.mem_append_right _ (List.mem_filter.mp occurs).1⟩
  · exact shape.1
  · intro callee called
    rw [UnitNode.emitUnitInitFn, shape.2] at called
    obtain ⟨name, occurs, rfl⟩ := List.mem_map.mp called
    exact ⟨name, unitInitCallNames_subset _ _ _ occurs, rfl⟩

end Plang.CodeGen
