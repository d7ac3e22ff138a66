import Plang.CodeGen.InitialiserWork
import Mathlib.Data.List.Pairwise

/-!
# Everything is brought up once, in order

The run of a linked program, in terms of the initialisers that are reached; and the condition on the
source under which the run brings everything up as it should.
-/

namespace Plang.CodeGen

open GuardedCalls Relation

/-! ### Initialisers by their source -/

/-- The initialiser of a linked module or unit: what it performs that is left over from modules
before it, and its own work. -/
inductive IsInitialiser (linked : Linked) :
    Source → List Instr → List Work → List Work → Prop where
  | module {prog former mod latter} : prog ∈ linked.compilations →
      prog.modules = former ++ mod :: latter → mod.isInterface = false →
      IsInitialiser linked (prog.source mod) (prog.initFn former mod)
        ((prog.before former).structuredConsts.map constWork)
        (ownWork (prog.source mod) ((prog.source mod).emitted (prog.before former).consts)
          (mod.body.vars ++ inheritedGroups mod.body (prog.source mod).iface))
  | unit {u} : u ∈ linked.units →
      IsInitialiser linked u.source u.emitUnitInitFn []
        (ownWork u.source (u.interfaceBlock.consts ++ u.implementationBlock.consts)
          (u.implementationBlock.vars ++ inheritedGroups u.implementationBlock u.interfaceBlock))

theorem mem_sources_of_mod {linked : Linked} {prog : ProgramNode} {mod : ModuleNode}
    (compiled : prog ∈ linked.compilations) (occurs : mod ∈ prog.modules)
    (implementation : mod.isInterface = false) : prog.source mod ∈ linked.sources := by
  apply List.mem_append_left
  refine List.mem_flatMap.mpr ⟨prog, compiled, List.mem_map_of_mem ?_⟩
  exact List.mem_filter.mpr ⟨occurs, by simp [implementation]⟩

theorem mem_sources_of_unit {linked : Linked} {u : UnitNode} (occurs : u ∈ linked.units) :
    u.source ∈ linked.sources := List.mem_append_right _ (List.mem_map_of_mem occurs)

theorem IsInitialiser.mem_sources {linked : Linked} {s : Source} {actions : List Instr}
    {left own : List Work} (initialiser : IsInitialiser linked s actions left own) :
    s ∈ linked.sources := by
  cases initialiser with
  | module compiled split implementation =>
      exact mem_sources_of_mod compiled (split ▸ List.mem_append_right _ List.mem_cons_self)
        implementation
  | unit occurs => exact mem_sources_of_unit occurs

/-- An entry of the functions is the initialiser of a source. -/
theorem mem_linked_functions {linked : Linked} {entry : String × List Instr} :
    entry ∈ linked.functions ↔
      ∃ s actions left own, IsInitialiser linked s actions left own ∧ entry = (s.name, actions) := by
  rw [Linked.functions, List.mem_append, List.mem_flatMap, List.mem_map]
  constructor
  · rintro (⟨prog, compiled, occurs⟩ | ⟨u, occurs, rfl⟩)
    · obtain ⟨former, mod, latter, split, implementation, rfl⟩ := mem_functions.mp occurs
      exact ⟨_, _, _, _, .module compiled split implementation, rfl⟩
    · exact ⟨_, _, _, _, .unit occurs, rfl⟩
  · rintro ⟨s, actions, left, own, initialiser, rfl⟩
    cases initialiser with
    | module compiled split implementation =>
        exact .inl ⟨_, compiled, mem_functions.mpr ⟨_, _, _, split, implementation, rfl⟩⟩
    | unit occurs => exact .inr ⟨_, occurs, rfl⟩

theorem exists_initialiser {linked : Linked} {s : Source} (occurs : s ∈ linked.sources) :
    ∃ actions left own, IsInitialiser linked s actions left own := by
  rcases List.mem_append.mp occurs with module | unit
  · obtain ⟨prog, compiled, module⟩ := List.mem_flatMap.mp module
    obtain ⟨mod, kept, rfl⟩ := List.mem_map.mp module
    obtain ⟨written, implementation⟩ := List.mem_filter.mp kept
    obtain ⟨former, latter, split⟩ := List.append_of_mem written
    exact ⟨_, _, _, .module compiled split (by simpa using implementation)⟩
  · obtain ⟨u, used, rfl⟩ := List.mem_map.mp unit
    exact ⟨_, _, _, .unit used⟩

/-! ### Names -/

theorem functions_names (prog : ProgramNode) (modules : List ModuleNode) :
    (emitModules prog modules).2.map Prod.fst =
      (modules.filter fun mod => ¬mod.isInterface).map ModuleNode.name := by
  induction modules using List.reverseRecOn with
  | nil => rfl
  | append_singleton modules last induction =>
      rw [emitModules_snoc, emitModule, List.filter_append, List.map_append, ← induction]
      split
      · rename_i interface
        simp [interface]
      · rename_i implementation
        simp [implementation]

theorem linked_names (linked : Linked) :
    linked.functions.map Prod.fst = linked.sources.map Source.name := by
  rw [Linked.functions, Linked.sources, List.map_append, List.map_append, List.map_flatMap,
    List.map_flatMap, List.map_map, List.map_map]
  refine congrArg₂ _ ?_ rfl
  apply congrArg (fun names => linked.compilations.flatMap names)
  funext prog
  rw [ProgramNode.functions, functions_names, ProgramNode.sources, List.map_map]
  rfl

theorem lookup_of_mem {entries : List (String × List Instr)} {name : String}
    {actions : List Instr} (distinct : (entries.map Prod.fst).Nodup)
    (occurs : (name, actions) ∈ entries) : entries.lookup name = some actions := by
  obtain ⟨former, latter, rfl⟩ := List.append_of_mem occurs
  refine List.lookup_eq_some_iff.mpr ⟨former, latter, rfl, ?_⟩
  intro entry earlier
  rw [List.map_append, List.map_cons, List.nodup_append] at distinct
  rw [bne_iff_ne]
  rintro rfl
  exact distinct.2.2 _ (List.mem_map_of_mem earlier) _ List.mem_cons_self rfl

theorem mem_of_lookup {entries : List (String × List Instr)} {name : String}
    {actions : List Instr} (found : entries.lookup name = some actions) :
    (name, actions) ∈ entries := by
  obtain ⟨former, latter, rfl, _⟩ := List.lookup_eq_some_iff.mp found
  exact List.mem_append_right _ List.mem_cons_self

namespace Executable

variable {x : Executable} {s : Source} {actions : List Instr} {left own : List Work}

theorem body_eq (initialiser : IsInitialiser x.toLinked s actions left own) :
    x.body (.unit s.name) = some actions := by
  apply lookup_of_mem
  · rw [linked_names]
    exact x.distinct
  · exact mem_linked_functions.mpr ⟨s, actions, left, own, initialiser, rfl⟩

theorem initialiser_of_body {name : String} (found : x.body (.unit name) = some actions) :
    ∃ s left own, IsInitialiser x.toLinked s actions left own ∧ s.name = name := by
  obtain ⟨s, _, left, own, initialiser, same⟩ :=
    mem_linked_functions.mp (mem_of_lookup found)
  obtain ⟨rfl, rfl⟩ := Prod.mk.inj same
  exact ⟨s, left, own, initialiser, rfl⟩

/-- Two modules of one compilation have different names. -/
theorem name_ne {prog : ProgramNode} {former latter : List ModuleNode} {earlier mod : ModuleNode}
    (compiled : prog ∈ x.compilations) (split : prog.modules = former ++ mod :: latter)
    (implementation : mod.isInterface = false) (occurs : earlier ∈ former)
    (earlier_implementation : earlier.isInterface = false) : earlier.name ≠ mod.name := by
  have distinct := x.distinct
  rw [Linked.sources, List.map_append, List.map_flatMap] at distinct
  have within := (List.nodup_flatMap.mp (List.nodup_append.mp distinct).1).1 prog compiled
  rw [ProgramNode.sources, split, List.filter_append, List.filter_cons_of_pos
    (by simp [implementation]), List.map_append, List.map_append, List.nodup_append] at within
  have kept : earlier ∈ former.filter fun mod => ¬mod.isInterface :=
    List.mem_filter.mpr ⟨occurs, by simp [earlier_implementation]⟩
  exact within.2.2 (prog.source earlier).name
    (List.mem_map_of_mem (List.mem_map_of_mem kept)) (prog.source mod).name List.mem_cons_self

theorem iface_names {prog : ProgramNode} (compiled : prog ∈ x.compilations) {mod : ModuleNode}
    (occurs : mod ∈ prog.modules) (implementation : mod.isInterface = false) :
    (prog.source mod).iface.names.Nodup :=
  (x.names _ (mem_sources_of_mod compiled occurs implementation)).2

/-- The constants that are left over before a module. -/
theorem left_over {prog : ProgramNode} {former latter : List ModuleNode}
    (compiled : prog ∈ x.compilations) (split : prog.modules = former ++ latter)
    {entry : Owner × ConstDef} :
    entry ∈ (prog.before former).structuredConsts ↔
      ∃ first mod latter, former = first ++ mod :: latter ∧ mod.isInterface = false ∧
        ∃ cd ∈ (prog.source mod).emitted (prog.before first).consts,
          cd.form = .structured ∧ entry = (.unit mod.name, cd) := by
  apply mem_structuredConsts_before
  intro mod occurs implementation
  exact iface_names compiled (split ▸ List.mem_append_left _ occurs) implementation

theorem brings (initialiser : IsInitialiser x.toLinked s actions left own) :
    Brings s actions left own := by
  obtain ⟨own_names, iface_names⟩ := x.names s initialiser.mem_sources
  cases initialiser with
  | module compiled split implementation =>
      apply brings_initFn own_names iface_names
      intro entry occurs
      obtain ⟨first, mod, _, inner, earlier_implementation, cd, _, _, rfl⟩ :=
        (left_over compiled split).mp occurs
      have ne := name_ne compiled split implementation
        (inner ▸ List.mem_append_right _ List.mem_cons_self) earlier_implementation
      exact fun same => ne (Owner.unit.inj same)
  | unit occurs => exact brings_emitUnitInitFn own_names iface_names (x.apart _ occurs)

/-! ### The condition on one module -/

/-- Every declaration of a module is laid, as long as the names of its interface are apart. -/
def NamesApart (x : Executable) : Prop :=
  (∀ s ∈ x.sources, ∀ vg ∈ s.iface.vars,
    (∃ name ∈ vg.names, name ∈ s.own.varNames) → ∀ name ∈ vg.names, name ∈ s.own.varNames) ∧
  ∀ prog ∈ x.compilations, ∀ former mod latter,
    prog.modules = former ++ mod :: latter → mod.isInterface = false →
    ∀ cd ∈ (prog.source mod).inheritedConsts, cd.form ≠ .folded →
      cd.name ∉ prog.interfaceConsts ∧
        ∀ earlier ∈ former, earlier.isInterface = false →
          cd.name ∉ earlier.body.folded ∧ cd.name ∉ (prog.source earlier).iface.folded

/-- A variable of the interface is laid unless its group is left out. -/
theorem var_laid (groups : ∀ vg ∈ s.iface.vars, (∃ name ∈ vg.names, name ∈ s.own.varNames) →
    ∀ name ∈ vg.names, name ∈ s.own.varNames) :
    s.own.varNames ++ s.inheritedVars ⊆
      (s.own.vars ++ inheritedGroups s.own s.iface).flatMap VarGroup.names := by
  rw [List.flatMap_append]
  intro name occurs
  rcases List.mem_append.mp occurs with own | inherited
  · exact List.mem_append_left _ own
  · apply List.mem_append_right
    obtain ⟨declared, apart⟩ := List.mem_filter.mp inherited
    obtain ⟨vg, vg_occurs, named⟩ := List.mem_flatMap.mp declared
    have apart : name ∉ s.own.varNames := by simpa using apart
    refine List.mem_flatMap.mpr ⟨vg, mem_inheritedGroups.mpr ⟨vg_occurs, ?_⟩, named⟩
    intro other other_named other_own
    exact apart (groups vg vg_occurs ⟨other, other_named, other_own⟩ name named)

theorem emitted_of_apart (apart : x.NamesApart) {prog : ProgramNode}
    {former latter : List ModuleNode} {mod : ModuleNode} (compiled : prog ∈ x.compilations)
    (split : prog.modules = former ++ mod :: latter) (implementation : mod.isInterface = false)
    {cd : ConstDef} (occurs : cd ∈ (prog.source mod).own.consts ++ (prog.source mod).inheritedConsts)
    (stored : cd.form ≠ .folded) : cd ∈ (prog.source mod).emitted (prog.before former).consts := by
  rcases List.mem_append.mp occurs with own | inherited
  · exact List.mem_append_left _ own
  · apply List.mem_append_right
    refine List.mem_filter.mpr ⟨inherited, decide_eq_true ?_⟩
    obtain ⟨interface, earlier⟩ :=
      apart.2 prog compiled former mod latter split implementation cd inherited stored
    rw [mem_consts_before]
    rintro (folded | ⟨other, other_occurs, other_implementation, folded⟩)
    · exact interface folded
    · exact not_or.mpr (earlier other other_occurs other_implementation) folded

/-- What a module declares is laid when the names are apart. -/
theorem declared_subset (apart : x.NamesApart)
    (initialiser : IsInitialiser x.toLinked s actions left own) :
    s.declared ⊆ own.map Work.item := by
  have groups := apart.1 s initialiser.mem_sources
  cases initialiser with
  | @module prog former mod latter compiled split implementation =>
      intro item declared
      rw [mem_items_ownWork]
      rcases Source.mem_declared.mp declared with
        ⟨cd, occurs, stored, same⟩ | ⟨name, occurs, same⟩ | stmt
      · exact .inl ⟨cd, emitted_of_apart apart compiled split implementation occurs stored, stored,
          same⟩
      · exact .inr (.inl ⟨name, var_laid groups occurs, same⟩)
      · exact .inr (.inr stmt)
  | @unit u occurs =>
      intro item declared
      rw [mem_items_ownWork]
      rcases Source.mem_declared.mp declared with
        ⟨cd, occurs, stored, same⟩ | ⟨name, occurs, same⟩ | stmt
      · refine .inl ⟨cd, ?_, stored, same⟩
        rcases List.mem_append.mp occurs with own | inherited
        · exact List.mem_append_right _ own
        · exact List.mem_append_left _ (List.mem_filter.mp inherited).1
      · exact .inr (.inl ⟨name, var_laid groups occurs, same⟩)
      · exact .inr (.inr stmt)

/-- A name stands in one group. -/
theorem group_unique {block : BlockNode} (distinct : block.names.Nodup) {vg other : VarGroup}
    (occurs : vg ∈ block.vars) (other_occurs : other ∈ block.vars) {name : String}
    (named : name ∈ vg.names) (other_named : name ∈ other.names) : vg = other := by
  by_contra ne
  have apart := (List.nodup_flatMap.mp (List.nodup_append.mp distinct).2.1).2
  have symm : Std.Symm (Function.onFun List.Disjoint VarGroup.names) :=
    ⟨fun _ _ disjoint _ left right => disjoint right left⟩
  exact apart.forall occurs other_occurs ne named other_named

theorem vars_of_laid (initialiser : IsInitialiser x.toLinked s actions left own) {name : String}
    (laid : .variable name ∈ own.map Work.item) :
    name ∈ (s.own.vars ++ inheritedGroups s.own s.iface).flatMap VarGroup.names := by
  cases initialiser with
  | module =>
      rcases mem_items_ownWork.mp laid with ⟨cd, _, _, same⟩ | ⟨other, occurs, same⟩ | ⟨_, same⟩
      · cases same
      · exact Item.variable.inj same ▸ occurs
      · cases same
  | unit =>
      rcases mem_items_ownWork.mp laid with ⟨cd, _, _, same⟩ | ⟨other, occurs, same⟩ | ⟨_, same⟩
      · cases same
      · exact Item.variable.inj same ▸ occurs
      · cases same

/-- If the initialisers cover what the sources declare, names are kept apart. -/
theorem namesApart_of_declared
    (laid : ∀ {s actions left own}, IsInitialiser x.toLinked s actions left own →
      s.declared ⊆ own.map Work.item) : x.NamesApart := by
  constructor
  · rintro s occurs vg vg_occurs ⟨other, other_named, other_own⟩ name named
    by_contra apart
    obtain ⟨actions, left, own, initialiser⟩ := exists_initialiser occurs
    have inherited : name ∈ s.inheritedVars :=
      List.mem_filter.mpr ⟨List.mem_flatMap.mpr ⟨vg, vg_occurs, named⟩, decide_eq_true apart⟩
    have declared : .variable name ∈ s.declared :=
      Source.mem_declared.mpr (.inr (.inl ⟨name, List.mem_append_right _ inherited, rfl⟩))
    have group := vars_of_laid initialiser (laid initialiser declared)
    rw [List.flatMap_append] at group
    rcases List.mem_append.mp group with own | group
    · exact apart own
    · obtain ⟨vg', group_occurs, group_named⟩ := List.mem_flatMap.mp group
      obtain ⟨iface_occurs, untouched⟩ := mem_inheritedGroups.mp group_occurs
      obtain rfl := group_unique (x.names s occurs).2 vg_occurs iface_occurs named group_named
      exact untouched other other_named other_own
  · intro prog compiled former mod latter split implementation cd inherited stored
    have initialiser : IsInitialiser x.toLinked _ _ _ _ := .module compiled split implementation
    have declared : .constant cd.name ∈ (prog.source mod).declared :=
      Source.mem_declared.mpr (.inl ⟨cd, List.mem_append_right _ inherited, stored, rfl⟩)
    have apart : cd.name ∉ (prog.source mod).own.names := by
      simpa using (List.mem_filter.mp inherited).2
    rcases mem_items_ownWork.mp (laid initialiser declared) with
      ⟨other, occurs, _, same⟩ | ⟨_, _, same⟩ | ⟨_, same⟩
    · have same := Item.constant.inj same
      rcases List.mem_append.mp occurs with own | kept
      · exact absurd (List.mem_append_left _ (List.mem_map_of_mem own)) (same ▸ apart)
      · have new := of_decide_eq_true (List.mem_filter.mp kept).2
        rw [← same, mem_consts_before, not_or] at new
        refine ⟨new.1, fun earlier earlier_occurs earlier_implementation => ?_⟩
        rw [← not_or]
        exact fun folded => new.2 ⟨earlier, earlier_occurs, earlier_implementation, folded⟩
    · cases same
    · cases same

/-! ### The run -/

/-- The program is run. -/
theorem trace_eq_some (x : Executable) :
    ∃ ended done, x.trace = some done ∧
      Performs x.body .program x.program.emitMain [.program] ended done := by
  have linked_mem : ∀ {name}, x.IsLinked name →
      .unit name ∈ x.functions.map fun entry => Owner.unit entry.1 := by
    intro name linked
    rw [Linked.IsLinked, ← linked_names] at linked
    obtain ⟨entry, occurs, rfl⟩ := List.mem_map.mp linked
    exact List.mem_map_of_mem occurs
  have known : ∀ {owner actions}, x.body owner = some actions →
      callees actions ⊆ x.functions.map fun entry => Owner.unit entry.1 := by
    intro owner actions found callee called
    obtain ⟨name, rfl, linked⟩ := x.complete owner actions found callee called
    exact linked_mem linked
  have closed : ∀ node ∈ x.functions.map fun entry => Owner.unit entry.1,
      ∃ actions, x.body node = some actions ∧
        callees actions ⊆ x.functions.map fun entry => Owner.unit entry.1 := by
    intro node occurs
    obtain ⟨entry, entry_occurs, rfl⟩ := List.mem_map.mp occurs
    obtain ⟨s, actions, left, own, initialiser, rfl⟩ := mem_linked_functions.mp entry_occurs
    exact ⟨actions, body_eq initialiser, known (body_eq initialiser)⟩
  have enough : remaining (x.functions.map fun entry => Owner.unit entry.1) [.program] ≤
      x.functions.length := by
    rw [remaining]
    exact Nat.le_trans (List.length_filter_le _ _) (Nat.le_of_eq (List.length_map _))
  obtain ⟨result, performed⟩ := @perform_total _ _ x.body _ _ closed _ .program
    x.program.emitMain _ enough (@known .program _ rfl)
  exact ⟨result.1, result.2, by rw [Linked.trace, performed]; rfl, performs_of_perform performed⟩

section Run

variable {ended : List Owner} {done : List (Owner × Work)}
  (performs : Performs x.body .program x.program.emitMain [.program] ended done)

include performs

/-- What the run begins is what is reached. -/
theorem mem_ended {name : String} : .unit name ∈ ended ↔ x.Reached name := by
  constructor
  · intro begun
    obtain ⟨callee, called, path⟩ := performs.reached _ begun (by simp)
    exact .head' ⟨_, rfl, called⟩ path
  · intro reached
    have closed : ∀ {caller callee}, caller ∈ ended → Calls x.body caller callee →
        callee ∈ ended := by
      rintro caller callee begun ⟨actions, found, called⟩
      by_cases same : caller = .program
      · subst same
        obtain rfl := Option.some.inj found
        exact performs.called callee called
      · obtain ⟨_, same_found, closed⟩ := performs.begins caller begun (by simpa using same)
        rw [found] at same_found
        obtain rfl := Option.some.inj same_found
        exact closed callee called
    have program : .program ∈ ended := performs.mono List.mem_cons_self
    have all : ∀ {owner}, TransGen (Calls x.body) .program owner → owner ∈ ended := by
      intro owner path
      induction path with
      | single calls => exact closed program calls
      | tail _ calls induction => exact closed induction calls
    exact all reached

/-- A reached module does the work of its initialiser. -/
theorem doneBy_unit (initialiser : IsInitialiser x.toLinked s actions left own)
    (reached : x.Reached s.name) : doneBy (.unit s.name) done = works actions :=
  performs.doneBy_of_begins List.mem_cons_self ((mem_ended performs).mpr reached) (by simp)
    (body_eq initialiser)

theorem doneBy_program : doneBy .program done = works x.program.emitMain :=
  performs.doneBy_self List.mem_cons_self

/-- Every event is of the program or of a module that is reached. -/
theorem event_cases {event : Owner × Work} (occurs : event ∈ done) :
    event.1 = .program ∧ event.2 ∈ works x.program.emitMain ∨
      ∃ s actions left own, IsInitialiser x.toLinked s actions left own ∧ x.Reached s.name ∧
        event.1 = .unit s.name ∧ event.2 ∈ works actions := by
  obtain ⟨doer, work⟩ := event
  have by_doer : work ∈ doneBy doer done := mem_doneBy.mpr occurs
  rcases performs.doer _ occurs with rfl | ⟨begun, new⟩
  · rw [doneBy_program performs] at by_doer
    exact .inl ⟨rfl, by_doer⟩
  · obtain ⟨actions, found, _⟩ := performs.begins _ begun new
    cases doer with
    | program => exact absurd List.mem_cons_self new
    | unit name =>
        obtain ⟨s, left, own, initialiser, rfl⟩ := initialiser_of_body found
        have reached := (mem_ended performs).mp begun
        rw [doneBy_unit performs initialiser reached] at by_doer
        exact .inr ⟨s, actions, left, own, initialiser, reached, rfl, by_doer⟩

/-- What a reached module has left over or lays itself is an event of the run. -/
theorem event_of_work (initialiser : IsInitialiser x.toLinked s actions left own)
    (reached : x.Reached s.name) {work : Work} (occurs : work ∈ left ∨ work ∈ own) :
    (.unit s.name, work) ∈ done := by
  rw [← mem_doneBy, doneBy_unit performs initialiser reached, (brings initialiser).perm.mem_iff,
    List.mem_append]
  exact occurs

end Run

/-! ### The work of the program -/

theorem works_emitMain (prog : ProgramNode) :
    works prog.emitMain =
      works prog.globalInits ++ [⟨.program, .statement, prog.body⟩] := by
  rw [ProgramNode.emitMain, works_append, works_append, callUnits, works_map_call,
    List.append_nil]
  rfl

theorem works_globalInits (prog : ProgramNode) :
    works prog.globalInits =
      prog.globals.runtimeConsts.map constWork ++ (prog.globals.structuredConsts.map constWork ++
        prog.block.vars.flatMap (groupWork .program)) := by
  rw [ProgramNode.globalInits, works_append, emitRuntimeConstInits, works_layConst,
    emitGlobalVarInits, works_append, works_layConst, works_groups]

/-- The tables of the program: what is left over, and its own. -/
theorem table_globals (prog : ProgramNode) :
    prog.globals.runtimeConsts = entriesOf .program .computed prog.block.consts ∧
      prog.globals.structuredConsts = (prog.before prog.modules).structuredConsts ++
        entriesOf .program .structured prog.block.consts := by
  have runtime := table_emitGlobals .program prog.block (prog.before prog.modules) .computed
  have structured := table_emitGlobals .program prog.block (prog.before prog.modules) .structured
  rw [Emission.table, Emission.table, runtimeConsts_before, List.nil_append] at runtime
  exact ⟨runtime, structured⟩

/-- The work of the program before it calls anything. -/
theorem mem_globalInits {prog : ProgramNode} {work : Work} :
    work ∈ works prog.globalInits ↔
      (∃ entry ∈ (prog.before prog.modules).structuredConsts, work = constWork entry) ∨
        work ∈ laidWork .program prog.block.consts prog.block.vars := by
  obtain ⟨runtime, structured⟩ := table_globals prog
  have parts := (entriesOf_perm .program prog.block.consts).map constWork
  rw [List.map_append, List.map_map] at parts
  have perm := @lay_perm _ ((prog.before prog.modules).structuredConsts.map constWork) _ _
    (prog.block.vars.flatMap (groupWork .program)) [] [] parts
  simp only [List.append_nil] at perm
  rw [works_globalInits, runtime, structured, List.map_append, perm.mem_iff, List.mem_append,
    List.mem_map]
  exact or_congr_left (exists_congr fun _ => and_congr_right' eq_comm)

/-! ### The condition is enough -/

theorem structured_of_emitted {consts : List String} {cd : ConstDef} (occurs : cd ∈ s.emitted consts)
    (structured : cd.form = .structured) : cd ∈ s.structured := by
  refine List.mem_filter.mpr ⟨?_, decide_eq_true structured⟩
  rcases List.mem_append.mp occurs with own | inherited
  · exact List.mem_append_left _ own
  · exact List.mem_append_right _ (List.mem_filter.mp inherited).1

/-- Nothing is left over for a module that is reached. -/
theorem nothing_left (regular : x.Regular) (initialiser : IsInitialiser x.toLinked s actions left own)
    (reached : x.Reached s.name) : left = [] := by
  cases initialiser with
  | module compiled split implementation =>
      rw [List.map_eq_nil_iff, List.eq_nil_iff_forall_not_mem]
      intro entry occurs
      obtain ⟨first, earlier, _, inner, earlier_implementation, cd, emitted, structured, _⟩ :=
        (left_over compiled split).mp occurs
      have none := regular.structured _ compiled _ _ _ split implementation reached earlier
        (inner ▸ List.mem_append_right _ List.mem_cons_self) earlier_implementation
      have some := structured_of_emitted emitted structured
      rw [none] at some
      cases some
  | unit => rfl

/-- No structured constant is left over for the program. -/
theorem nothing_left_main (regular : x.Regular) :
    (x.program.before x.program.modules).structuredConsts = [] := by
  rw [List.eq_nil_iff_forall_not_mem]
  intro entry occurs
  obtain ⟨first, earlier, _, inner, implementation, cd, emitted, structured, _⟩ :=
    (left_over List.mem_cons_self (List.append_nil _).symm).mp occurs
  have none := regular.main earlier (inner ▸ List.mem_append_right _ List.mem_cons_self)
    implementation
  have some := structured_of_emitted emitted structured
  rw [none] at some
  cases some

/-- Every initialiser performs its own work only. -/
theorem owner_eq_doer (regular : x.Regular) {ended : List Owner} {done : List (Owner × Work)}
    (performs : Performs x.body .program x.program.emitMain [.program] ended done)
    {event : Owner × Work} (occurs : event ∈ done) : event.2.owner = event.1 := by
  rcases event_cases performs occurs with
    ⟨program, main⟩ | ⟨s, actions, left, own, initialiser, reached, doer, work⟩
  · rw [works_emitMain, List.mem_append, mem_globalInits, nothing_left_main regular] at main
    rw [program]
    rcases main with (⟨entry, impossible, _⟩ | laid) | stmt
    · cases impossible
    · rcases mem_laidWork.mp laid with ⟨cd, _, _, same⟩ | ⟨vg, _, name, _, same⟩
      · rw [same]
      · rw [same]
    · rw [List.mem_singleton.mp stmt]
  · have brings := brings initialiser
    rw [brings.perm.mem_iff, nothing_left regular initialiser reached] at work
    rw [doer]
    exact brings.owner _ work

theorem length_filter_own (brings : Brings s actions left own) {item : Item}
    (occurs : item ∈ own.map Work.item) :
    (own.filter fun work => Linked.isWorkOf s.name item (.unit s.name, work)).length = 1 := by
  have once := List.count_eq_one_of_mem brings.nodup occurs
  rw [List.count, List.countP_map] at once
  rw [← List.countP_eq_length_filter, ← once]
  apply List.countP_congr
  intro work own_work
  simp [Linked.isWorkOf, brings.owner work own_work]

theorem once_of_regular (regular : x.Regular) {ended : List Owner} {done : List (Owner × Work)}
    (performs : Performs x.body .program x.program.emitMain [.program] ended done) :
    x.Once done := by
  intro s occurs item declared
  have reached := regular.reached s occurs (List.ne_nil_of_mem declared)
  obtain ⟨actions, left, own, initialiser⟩ := exists_initialiser occurs
  have brought := brings initialiser
  have laid := declared_subset ⟨regular.groups, regular.consts⟩ initialiser declared
  have only : ∀ event ∈ done, Linked.isWorkOf s.name item event = true →
      event.1 = .unit s.name := by
    intro event event_occurs is_work
    rw [← owner_eq_doer regular performs event_occurs]
    exact (of_decide_eq_true is_work).1
  rw [map_fst_filter only, doneBy_unit performs initialiser reached,
    (brought.perm.filter _).length_eq, nothing_left regular initialiser reached, List.nil_append,
    length_filter_own brought laid]
  rfl

/-! ### Order -/

/-- What an initialiser calls, its module imports. -/
theorem imports_of_calls {name : String} {callee : Owner} (calls : Calls x.body (.unit name) callee) :
    ∃ other, callee = .unit other ∧ x.Imports name other := by
  obtain ⟨actions, found, called⟩ := calls
  obtain ⟨s, left, own, initialiser, rfl⟩ := initialiser_of_body found
  obtain ⟨other, imported, rfl⟩ := (brings initialiser).imports callee called
  exact ⟨other, rfl, s, initialiser.mem_sources, rfl, imported⟩

theorem transGen_imports {name : String} {callee : Owner}
    (path : TransGen (Calls x.body) (.unit name) callee) :
    ∃ other, callee = .unit other ∧ TransGen x.Imports name other := by
  induction path with
  | single calls =>
      obtain ⟨other, same, imports⟩ := imports_of_calls calls
      exact ⟨other, same, .single imports⟩
  | tail _ calls induction =>
      obtain ⟨middle, rfl, path⟩ := induction
      obtain ⟨other, same, imports⟩ := imports_of_calls calls
      exact ⟨other, same, path.tail imports⟩

/-- What a module imports and is linked, its initialiser calls. -/
theorem calls_of_imports (found : x.Found) (initialiser : IsInitialiser x.toLinked s actions left own)
    {name : String} (imported : name ∈ s.imports) (linked : x.IsLinked name) :
    Calls x.body (.unit s.name) (.unit name) := by
  refine ⟨actions, body_eq initialiser, ?_⟩
  cases initialiser with
  | @module prog former mod latter compiled split implementation =>
      have source : prog.source mod ∈ prog.sources := by
        apply List.mem_map_of_mem
        refine List.mem_filter.mpr ⟨?_, by simp [implementation]⟩
        exact split ▸ List.mem_append_right _ List.mem_cons_self
      have plain := found.1 prog compiled _ source name imported linked
      rw [ProgramNode.initFn, emitModuleInitFn, (initialiser_shape _ _ _ _ _ _).2]
      apply List.mem_map_of_mem
      exact List.mem_filter.mpr ⟨imported, by simp [plain]⟩
  | @unit u occurs =>
      obtain ⟨unit, published⟩ := found.2 u occurs name imported linked
      rw [UnitNode.emitUnitInitFn, (initialiser_shape _ _ _ _ _ _).2]
      apply List.mem_map_of_mem
      exact mem_unitInitCallNames imported unit List.not_mem_nil published

theorem afterImports_of_regular (found : x.Found) (regular : x.Regular) {ended : List Owner}
    {done : List (Owner × Work)}
    (performs : Performs x.body .program x.program.emitMain [.program] ended done) :
    x.AfterImports done := by
  intro s occurs name imported linked acyclic former event latter split owner other other_occurs same
  obtain ⟨actions, left, own, initialiser⟩ := exists_initialiser occurs
  have alike : ∀ {event}, event ∈ done → event.2.owner = event.1 := owner_eq_doer regular performs
  have doer : event.1 = .unit s.name := by
    rw [← alike (split ▸ List.mem_append_right _ List.mem_cons_self), owner]
  have calls := calls_of_imports found initialiser imported linked
  have no_cycle : ¬TransGen (Calls x.body) (.unit name) (.unit s.name) := by
    intro path
    obtain ⟨_, same, imports⟩ := transGen_imports path
    exact acyclic (Owner.unit.inj same ▸ imports)
  have ne : Owner.unit name ≠ .unit s.name := by
    intro same
    rw [same] at calls no_cycle
    exact no_cycle (.single calls)
  have first : ∀ other ∉ [Owner.program], ∀ actions, x.body other = some actions →
      CallsFirst actions := by
    intro other new actions found
    cases other with
    | program => exact absurd List.mem_cons_self new
    | unit name =>
        obtain ⟨_, _, _, initialiser, _⟩ := initialiser_of_body found
        exact (brings initialiser).first
  have settled := @Performs.order _ _ x.body .program _ _ _ _ performs List.mem_cons_self
    (fun callee called => ⟨_, rfl, called⟩) first former latter (.unit s.name) (.unit name) event.2
    (fun impossible => by cases impossible) (by rw [split, ← doer]) calls no_cycle ne
  apply settled other other_occurs
  rw [← same]
  refine (alike (split ▸ ?_)).symm
  exact List.mem_append_right _ (List.mem_cons_of_mem _ other_occurs)

/-! ### What is read -/

/-- What is brought up of a module is its own, and reads what the module reads. -/
theorem own_of_event (regular : x.Regular) {ended : List Owner} {done : List (Owner × Work)}
    (performs : Performs x.body .program x.program.emitMain [.program] ended done)
    {event : Owner × Work} {name : String} (occurs : event ∈ done)
    (owner : event.2.owner = .unit name) :
    ∃ s ∈ x.sources, s.name = name ∧ event.2.item ∈ s.declared ∧ event.2.reads ⊆ s.reads := by
  have doer := owner_eq_doer regular performs occurs
  rcases event_cases performs occurs with
    ⟨program, _⟩ | ⟨s, actions, left, own, initialiser, reached, unit, work⟩
  · rw [program, owner] at doer
    cases doer
  · have brought := brings initialiser
    rw [brought.perm.mem_iff, nothing_left regular initialiser reached, List.nil_append] at work
    rw [unit, owner] at doer
    exact ⟨s, initialiser.mem_sources, (Owner.unit.inj doer).symm,
      brought.within (List.mem_map_of_mem work), brought.reads _ work⟩

theorem callees_globalInits (prog : ProgramNode) : callees prog.globalInits = [] := by
  have inits := callees_emitModuleGlobalInits .program prog.block none prog.globals
  rw [emitModuleGlobalInits, List.append_nil] at inits
  exact inits

/-- The program lays its initial values, calls the initialisers, and runs its statement. -/
theorem run_split {ended : List Owner} {done : List (Owner × Work)}
    (performs : Performs x.body .program x.program.emitMain [.program] ended done) :
    ∃ called, done = (works x.program.globalInits).map (Prod.mk .program) ++ called ++
        [(.program, ⟨.program, .statement, x.program.body⟩)] ∧
      ∀ event ∈ called, event.1 ≠ .program := by
  rw [ProgramNode.emitMain] at performs
  obtain ⟨_, _, _, before, statement, rfl⟩ := Performs.append_iff.mp performs
  obtain ⟨_, _, called, values, calls, rfl⟩ := Performs.append_iff.mp before
  rw [eq_map_works (callees_globalInits _), Performs.map_work_iff] at values
  obtain ⟨rfl, rfl⟩ := values
  cases statement with
  | work nothing =>
      cases nothing
      refine ⟨called, rfl, ?_⟩
      rw [← doneBy_eq_nil, calls.doneBy_self List.mem_cons_self]
      exact works_map_call _ _

/-- An initial value of the program reads what its block reads. -/
theorem reads_of_laid {owner : Owner} {block : BlockNode} {work : Work}
    (laid : work ∈ laidWork owner block.consts block.vars) : work.reads ⊆ block.reads := by
  rcases mem_laidWork.mp laid with ⟨cd, occurs, stored, rfl⟩ | ⟨vg, occurs, _, _, rfl⟩
  · exact BlockNode.reads_of_const occurs stored
  · exact BlockNode.reads_of_group occurs

theorem owner_of_laid {owner : Owner} {consts : List ConstDef} {groups : List VarGroup} {work : Work}
    (laid : work ∈ laidWork owner consts groups) : work.owner = owner := by
  rcases mem_laidWork.mp laid with ⟨cd, _, _, rfl⟩ | ⟨vg, _, name, _, rfl⟩
  · rfl
  · rfl

/-- Whatever the block reads, an initial value reads. -/
theorem exists_laid_of_reads {owner : Owner} {block : BlockNode}
    (named : ∀ vg ∈ block.vars, vg.names ≠ []) {name : String} (read : name ∈ block.reads) :
    ∃ work ∈ laidWork owner block.consts block.vars, name ∈ work.reads := by
  rcases List.mem_append.mp read with const | group
  · obtain ⟨cd, kept, read⟩ := List.mem_flatMap.mp const
    obtain ⟨occurs, stored⟩ := List.mem_filter.mp kept
    exact ⟨_, mem_laidWork.mpr (.inl ⟨cd, occurs, of_decide_eq_true stored, rfl⟩), read⟩
  · obtain ⟨vg, occurs, read⟩ := List.mem_flatMap.mp group
    obtain ⟨variable_name, variable_named⟩ := List.exists_mem_of_ne_nil _ (named vg occurs)
    exact ⟨_, mem_laidWork.mpr (.inr ⟨vg, occurs, variable_name, variable_named, rfl⟩), read⟩

theorem beforeReads_of_regular (found : x.Found) (regular : x.Regular) {ended : List Owner}
    {done : List (Owner × Work)}
    (performs : Performs x.body .program x.program.emitMain [.program] ended done) :
    x.BeforeReads done := by
  intro former event latter split name read linked acyclic other other_occurs same
  have occurs : event ∈ done := split ▸ List.mem_append_right _ List.mem_cons_self
  have other_done : other ∈ done :=
    split ▸ List.mem_append_right _ (List.mem_cons_of_mem _ other_occurs)
  cases owner : event.2.owner with
  | unit reader =>
      obtain ⟨s, s_occurs, rfl, _, within⟩ := own_of_event regular performs occurs owner
      have imported := x.visible s s_occurs (within read)
      exact afterImports_of_regular found regular performs s s_occurs name imported linked
        (acyclic s.name owner) former event latter split owner other other_occurs same
  | program =>
      obtain ⟨s, s_occurs, rfl, declared, _⟩ := own_of_event regular performs other_done same
      obtain ⟨called, rfl, calls⟩ := run_split performs
      rcases snoc_eq_split.mp split with ⟨_, _, rfl⟩ | ⟨inner, _, earlier⟩
      · cases other_occurs
      -- an event of the program before its statement is an initial value
      have doer := owner_eq_doer regular performs occurs
      rw [owner] at doer
      rcases List.mem_append.mp (earlier ▸ List.mem_append_right _ List.mem_cons_self) with
        value | impossible
      · obtain ⟨work, laid, rfl⟩ := List.mem_map.mp value
        rw [mem_globalInits, nothing_left_main regular] at laid
        rcases laid with ⟨_, impossible, _⟩ | laid
        · cases impossible
        · have none := regular.waits s.name (reads_of_laid laid read) s s_occurs rfl
          rw [none] at declared
          cases declared
      · exact calls event impossible doer.symm

/-! ### The condition is needed -/

section Needed

variable {ended : List Owner} {done : List (Owner × Work)}
  (performs : Performs x.body .program x.program.emitMain [.program] ended done)
  (once : x.Once done)

include once

theorem event_of_once (occurs : s ∈ x.sources) {item : Item} (declared : item ∈ s.declared) :
    ∃ work, (.unit s.name, work) ∈ done ∧ work.owner = .unit s.name ∧ work.item = item := by
  have one := once s occurs item declared
  have some : .unit s.name ∈ (done.filter (Linked.isWorkOf s.name item)).map Prod.fst := by
    rw [one]
    exact List.mem_cons_self
  obtain ⟨⟨doer, work⟩, kept, rfl⟩ := List.mem_map.mp some
  obtain ⟨event, is_work⟩ := List.mem_filter.mp kept
  exact ⟨work, event, of_decide_eq_true is_work⟩

/-- Nobody else brings up what a module declares. -/
theorem doer_of_once (occurs : s ∈ x.sources) {event : Owner × Work} (event_occurs : event ∈ done)
    (owner : event.2.owner = .unit s.name) (declared : event.2.item ∈ s.declared) :
    event.1 = .unit s.name := by
  have one := once s occurs _ declared
  have kept : event ∈ done.filter (Linked.isWorkOf s.name event.2.item) :=
    List.mem_filter.mpr ⟨event_occurs, decide_eq_true ⟨owner, rfl⟩⟩
  have doer := List.mem_map_of_mem (f := Prod.fst) kept
  rw [one] at doer
  exact List.mem_singleton.mp doer

/-- A structured constant that is left over is brought up by its own module, and by the next. -/
theorem not_left_over (apart : x.NamesApart) {prog : ProgramNode} {former latter : List ModuleNode}
    (compiled : prog ∈ x.compilations) (split : prog.modules = former ++ latter) {doer : Owner}
    (lays : ∀ entry ∈ (prog.before former).structuredConsts, (doer, constWork entry) ∈ done)
    {earlier : ModuleNode} (occurs : earlier ∈ former)
    (implementation : earlier.isInterface = false) (ne : doer ≠ .unit earlier.name) :
    (prog.source earlier).structured = [] := by
  rw [List.eq_nil_iff_forall_not_mem]
  intro cd kept
  obtain ⟨written, structured⟩ := List.mem_filter.mp kept
  have structured : cd.form = .structured := of_decide_eq_true structured
  have stored : cd.form ≠ .folded := by simp [structured]
  obtain ⟨first, between, rfl⟩ := List.append_of_mem occurs
  have whole : prog.modules = first ++ earlier :: (between ++ latter) := by
    rw [split, List.append_assoc, List.cons_append]
  have emitted : cd ∈ (prog.source earlier).emitted (prog.before first).consts :=
    emitted_of_apart apart compiled whole implementation written stored
  have entry := (left_over compiled split).mpr
    ⟨first, earlier, between, rfl, implementation, cd, emitted, structured, rfl⟩
  have declared : .constant cd.name ∈ (prog.source earlier).declared :=
    Source.mem_declared.mpr (.inl ⟨cd, written, stored, rfl⟩)
  have mem : prog.source earlier ∈ x.sources :=
    mem_sources_of_mod compiled (split ▸ List.mem_append_left _ occurs) implementation
  exact ne (doer_of_once once mem (lays _ entry) rfl declared)

include performs

theorem reached_of_once (occurs : s ∈ x.sources) (some : s.declared ≠ []) : x.Reached s.name := by
  obtain ⟨item, declared⟩ := List.exists_mem_of_ne_nil _ some
  obtain ⟨work, event, _⟩ := event_of_once once occurs declared
  rcases performs.doer _ event with impossible | ⟨begun, _⟩
  · cases impossible
  · exact (mem_ended performs).mp begun

theorem laid_of_once (initialiser : IsInitialiser x.toLinked s actions left own) :
    s.declared ⊆ own.map Work.item := by
  intro item declared
  have occurs := initialiser.mem_sources
  have reached := reached_of_once performs once occurs (List.ne_nil_of_mem declared)
  obtain ⟨work, event, owner, rfl⟩ := event_of_once once occurs declared
  have brought := brings initialiser
  rw [← mem_doneBy, doneBy_unit performs initialiser reached, brought.perm.mem_iff,
    List.mem_append] at event
  rcases event with foreign | own
  · exact absurd owner (brought.foreign work foreign)
  · exact List.mem_map_of_mem own

/-- What an initial value of the program reads is not up yet. -/
theorem waits_of_reads (reads : x.BeforeReads done) : ∀ name ∈ x.program.block.reads,
    ∀ s ∈ x.sources, s.name = name → s.declared = [] := by
  rintro name read s occurs rfl
  by_contra some
  obtain ⟨item, declared⟩ := List.exists_mem_of_ne_nil _ some
  obtain ⟨work, event, owner, _⟩ := event_of_once once occurs declared
  obtain ⟨value, laid, value_read⟩ := exists_laid_of_reads (x.named) read
  obtain ⟨called, split, _⟩ := run_split performs
  obtain ⟨before, after, parts⟩ :=
    List.append_of_mem (mem_globalInits.mpr (.inr laid) : value ∈ works x.program.globalInits)
  rw [parts, List.map_append, List.map_cons, List.append_assoc, List.append_assoc,
    List.cons_append] at split
  have up := reads _ _ _ split s.name value_read (List.mem_map_of_mem occurs) (by
    intro reader owned
    rw [owner_of_laid laid] at owned
    cases owned)
  rw [split] at event
  rcases List.mem_append.mp event with impossible | event
  · obtain ⟨_, _, impossible⟩ := List.mem_map.mp impossible
    cases impossible
  · rcases List.mem_cons.mp event with impossible | later
    · cases impossible
    · exact up _ later owner

theorem regular_of_broughtUp (reads : x.BeforeReads done) : x.Regular := by
  have apart : x.NamesApart := namesApart_of_declared (laid_of_once performs once)
  refine ⟨fun s => reached_of_once performs once, apart.1, apart.2, ?_, ?_, ?_⟩
  · intro prog compiled former mod latter split implementation reached earlier occurs
      earlier_implementation
    have initialiser : IsInitialiser x.toLinked _ _ _ _ := .module compiled split implementation
    apply not_left_over once apart compiled split _ occurs earlier_implementation
    · exact fun same => name_ne compiled split implementation occurs earlier_implementation
        (Owner.unit.inj same).symm
    · intro entry entry_occurs
      exact event_of_work performs initialiser reached (.inl (List.mem_map_of_mem entry_occurs))
  · intro mod occurs implementation
    have lays : ∀ entry ∈ (x.program.before x.program.modules).structuredConsts,
        (.program, constWork entry) ∈ done := by
      intro entry entry_occurs
      rw [← mem_doneBy, doneBy_program performs, works_emitMain]
      exact List.mem_append_left _ (mem_globalInits.mpr (.inl ⟨entry, entry_occurs, rfl⟩))
    apply not_left_over once apart List.mem_cons_self (List.append_nil _).symm lays occurs
      implementation
    exact fun impossible => by cases impossible
  · exact waits_of_reads performs once reads

end Needed

/-- Everything is brought up once and in order in the programs that are regular, and in no others. -/
theorem broughtUp_iff (found : x.Found) : x.BroughtUp ↔ x.Regular := by
  obtain ⟨ended, done, run, performs⟩ := trace_eq_some x
  constructor
  · rintro ⟨_, same, once, _, reads⟩
    obtain rfl := Option.some.inj (run.symm.trans same)
    exact regular_of_broughtUp performs once reads
  · intro regular
    exact ⟨done, run, once_of_regular regular performs,
      afterImports_of_regular found regular performs,
      beforeReads_of_regular found regular performs⟩

end Executable

/-! ### A module and a program -/

/-- The initialisers are complete when those that are linked call linked ones. -/
theorem complete_of_functions {linked : Linked}
    (main : ∀ callee ∈ callees linked.program.emitMain,
      callee ∈ linked.sources.map fun s => Owner.unit s.name)
    (functions : ∀ entry ∈ linked.functions, ∀ callee ∈ callees entry.2,
      callee ∈ linked.sources.map fun s => Owner.unit s.name) :
    ∀ owner actions, linked.body owner = some actions →
      ∀ callee ∈ callees actions, ∃ name, callee = .unit name ∧ linked.IsLinked name := by
  intro owner actions found callee called
  have linked_mem : callee ∈ linked.sources.map fun s => Owner.unit s.name := by
    cases owner with
    | program =>
        obtain rfl := Option.some.inj found
        exact main callee called
    | unit name => exact functions _ (mem_of_lookup found) callee called
  obtain ⟨s, occurs, rfl⟩ := List.mem_map.mp linked_mem
  exact ⟨s.name, rfl, List.mem_map_of_mem occurs⟩

/-- A module whose variable the statement of the program reads. -/
def counter (block : BlockNode) (body : StmtReads) : Linked where
  program :=
    { modules := [⟨"counter", false, [], ⟨[], [⟨["count"], []⟩]⟩, some []⟩]
      imports := ["counter"]
      uses := []
      block := block
      body := body
      interfaceConsts := []
      fromTUI := [] }
  objects := []
  units := []

def counterRead : Executable where
  toLinked := counter ⟨[], []⟩ ["counter"]
  distinct := by decide
  names := by decide
  apart := by decide
  named := by decide
  visible := by decide
  complete := complete_of_functions (by decide) (by decide)

theorem counterRead_regular : counterRead.Regular where
  reached := by
    intro s occurs _
    obtain rfl := List.mem_singleton.mp occurs
    exact .single ⟨_, rfl, by decide⟩
  groups := by decide
  consts := by
    intro prog compiled former mod latter split _ cd inherited
    obtain rfl := List.mem_singleton.mp compiled
    have occurs : mod ∈ counterRead.program.modules :=
      split ▸ List.mem_append_right _ List.mem_cons_self
    obtain rfl := List.mem_singleton.mp occurs
    exact absurd inherited List.not_mem_nil
  structured := by
    intro prog compiled former mod latter split _ _ earlier occurs
    obtain rfl := List.mem_singleton.mp compiled
    rcases List.append_eq_singleton_iff.mp split.symm with ⟨rfl, _⟩ | ⟨_, impossible⟩
    · cases occurs
    · cases impossible
  main := by decide
  waits := by decide

theorem counterRead_found : counterRead.Found := by
  constructor
  · intro prog compiled s occurs name impossible
    obtain rfl := List.mem_singleton.mp compiled
    obtain rfl := List.mem_singleton.mp occurs
    cases impossible
  · intro u impossible
    cases impossible

theorem counterRead_broughtUp : counterRead.BroughtUp :=
  (Executable.broughtUp_iff counterRead_found).mpr counterRead_regular

/-- A variable of the program whose initial value is the variable of the module. -/
def counterReadEarly : Executable where
  toLinked := counter ⟨[], [⟨["start"], ["counter"]⟩]⟩ []
  distinct := by decide
  names := by decide
  apart := by decide
  named := by decide
  visible := by decide
  complete := complete_of_functions (by decide) (by decide)

theorem counterReadEarly_not_broughtUp : ¬counterReadEarly.BroughtUp := by
  rintro ⟨done, run, _, _, reads⟩
  have trace : counterReadEarly.trace = some
      [(.program, ⟨.program, .variable "start", ["counter"]⟩),
        (.unit "counter", ⟨.unit "counter", .variable "count", []⟩),
        (.unit "counter", ⟨.unit "counter", .statement, []⟩),
        (.program, ⟨.program, .statement, []⟩)] := by decide
  obtain rfl := Option.some.inj (run.symm.trans trace)
  have up := reads [] _ _ rfl "counter" (by decide) List.mem_cons_self
    (fun _ impossible => by cases impossible)
  exact up _ List.mem_cons_self rfl

end Plang.CodeGen
