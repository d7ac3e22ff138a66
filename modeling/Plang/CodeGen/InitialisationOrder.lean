import Plang.CodeGen.Initialisers

/-!
# What initialisation is for

The modules and units of a linked program as they are written; what it is for each of them to be
brought up once, after what it imports, and before anything reads what it exports; and the condition
on the source under which they are.
-/

namespace Plang.CodeGen

open GuardedCalls Relation

namespace BlockNode

def names (block : BlockNode) : List String := block.consts.map ConstDef.name ++ block.varNames

/-- The modules that the initial values of the block read. -/
def reads (block : BlockNode) : List String :=
  (block.consts.filter fun cd => cd.form ≠ .folded).flatMap ConstDef.reads ++
    block.vars.flatMap VarGroup.reads

/-- The constants and the variables of a block that have to be brought up. -/
def items (block : BlockNode) : List Item :=
  (block.consts.filter fun cd => cd.form ≠ .folded).map (fun cd => .constant cd.name) ++
    block.varNames.map .variable

end BlockNode

/-- A module or a unit, with the declarations of both of its halves. -/
structure Source where
  name : String
  own : BlockNode
  iface : BlockNode
  imports : List String
  statement : Option StmtReads
  deriving DecidableEq, Repr

namespace Source

/-- The constants of the interface that the block does not declare again. -/
def inheritedConsts (s : Source) : List ConstDef :=
  s.iface.consts.filter fun cd => cd.name ∉ s.own.names

def inheritedVars (s : Source) : List String := s.iface.varNames.filter (· ∉ s.own.varNames)

/-- The constants, the variables and the statement of a module that have to be brought up. -/
def declared (s : Source) : List Item :=
  s.own.items ++
    (s.inheritedConsts.filter fun cd => cd.form ≠ .folded).map (fun cd => .constant cd.name) ++
    s.inheritedVars.map .variable ++ s.statement.toList.map fun _ => .statement

/-- The arrays, records and sets that are constants of the module. -/
def structured (s : Source) : List ConstDef :=
  (s.own.consts ++ s.inheritedConsts).filter fun cd => cd.form = .structured

def reads (s : Source) : List String :=
  s.own.reads ++ s.iface.reads ++ s.statement.getD []

end Source

def ProgramNode.source (prog : ProgramNode) (mod : ModuleNode) : Source where
  name := mod.name
  own := mod.body
  iface := ((prog.ifaceOf mod.name).map ModuleNode.body).getD ⟨[], []⟩
  imports := mod.allImports (prog.ifaceOf mod.name)
  statement := mod.initStmt

def ProgramNode.sources (prog : ProgramNode) : List Source :=
  (prog.modules.filter fun mod => ¬mod.isInterface).map prog.source

def UnitNode.source (u : UnitNode) : Source where
  name := u.name
  own := u.implementationBlock
  iface := u.interfaceBlock
  imports := u.uses
  statement := u.initBody

namespace Linked

/-- The program and what is compiled apart from it. -/
def compilations (linked : Linked) : List ProgramNode := linked.program :: linked.objects

def sources (linked : Linked) : List Source :=
  linked.compilations.flatMap ProgramNode.sources ++ linked.units.map UnitNode.source

def IsLinked (linked : Linked) (name : String) : Prop := name ∈ linked.sources.map Source.name

/-- One module imports another. -/
def Imports (linked : Linked) (importer imported : String) : Prop :=
  ∃ s ∈ linked.sources, s.name = importer ∧ imported ∈ s.imports

end Linked

/-- A linked program that the checker has accepted and the linker has found complete. -/
structure Executable extends Linked where
  distinct : (toLinked.sources.map Source.name).Nodup
  /-- No block declares a name twice. -/
  names : ∀ s ∈ toLinked.sources, s.own.names.Nodup ∧ s.iface.names.Nodup
  /-- The implementation of a unit declares nothing of its interface again. -/
  apart : ∀ u ∈ toLinked.units, ∀ name ∈ u.interfaceBlock.names, name ∉ u.implementationBlock.names
  /-- Every group of variables has a name. -/
  named : ∀ vg ∈ toLinked.program.block.vars, vg.names ≠ []
  /-- What a module reads it imports. -/
  visible : ∀ s ∈ toLinked.sources, s.reads ⊆ s.imports
  /-- Every initialiser that is called is linked. -/
  complete : ∀ owner actions, toLinked.body owner = some actions →
    ∀ callee ∈ callees actions, ∃ name, callee = .unit name ∧ toLinked.IsLinked name

namespace Linked

/-- The work of the initialisers of a module, with who does it. -/
def isWorkOf (name : String) (item : Item) (event : Owner × Work) : Bool :=
  event.2.owner = .unit name ∧ event.2.item = item

/-- Every module and unit is brought up once, by its own initialiser. -/
def Once (linked : Linked) (done : List (Owner × Work)) : Prop :=
  ∀ s ∈ linked.sources, ∀ item ∈ s.declared,
    (done.filter (isWorkOf s.name item)).map Prod.fst = [.unit s.name]

/-- Nothing of a module is left to be brought up after an event. -/
def UpBefore (name : String) (latter : List (Owner × Work)) : Prop :=
  ∀ event ∈ latter, event.2.owner ≠ .unit name

/-- A module is brought up after the modules that it imports, unless they depend on it. -/
def AfterImports (linked : Linked) (done : List (Owner × Work)) : Prop :=
  ∀ s ∈ linked.sources, ∀ name ∈ s.imports, linked.IsLinked name →
    ¬TransGen linked.Imports name s.name →
    ∀ former event latter, done = former ++ event :: latter → event.2.owner = .unit s.name →
      UpBefore name latter

/-- A module's exports are read after the module is up, unless it depends on the reader. -/
def BeforeReads (linked : Linked) (done : List (Owner × Work)) : Prop :=
  ∀ former event latter, done = former ++ event :: latter →
    ∀ name ∈ event.2.reads, linked.IsLinked name →
      (∀ reader, event.2.owner = .unit reader → ¬TransGen linked.Imports name reader) →
      UpBefore name latter

/-- The program is run, and everything is brought up once and in order. -/
def BroughtUp (linked : Linked) : Prop :=
  ∃ done, linked.trace = some done ∧ linked.Once done ∧ linked.AfterImports done ∧
    linked.BeforeReads done

/-! ### The condition -/

/-- The imports of what is linked are called: none of them has the name of a required module, and
the interface of each unit was found published. -/
def Found (linked : Linked) : Prop :=
  (∀ prog ∈ linked.compilations, ∀ s ∈ prog.sources, ∀ name ∈ s.imports, linked.IsLinked name →
    isBuiltinModule name = false) ∧
  ∀ u ∈ linked.units, ∀ name ∈ u.uses, linked.IsLinked name → name ≠ "system" ∧ name ∈ u.fromTUI

/-- The module is called, from the program or by way of others. -/
def Reached (linked : Linked) (name : String) : Prop :=
  TransGen (Calls linked.body) .program (.unit name)

structure Regular (linked : Linked) : Prop where
  /-- A module that has anything to bring up is reached. -/
  reached : ∀ s ∈ linked.sources, s.declared ≠ [] → linked.Reached s.name
  /-- A group of variables of an interface is declared again as a whole or not at all. -/
  groups : ∀ s ∈ linked.sources, ∀ vg ∈ s.iface.vars,
    (∃ name ∈ vg.names, name ∈ s.own.varNames) → ∀ name ∈ vg.names, name ∈ s.own.varNames
  /-- A constant of an interface that needs storage has not the name of a constant that has been
  folded before it. -/
  consts : ∀ prog ∈ linked.compilations, ∀ former mod latter,
    prog.modules = former ++ mod :: latter → mod.isInterface = false →
    ∀ cd ∈ (prog.source mod).inheritedConsts, cd.form ≠ .folded →
      cd.name ∉ prog.interfaceConsts ∧
        ∀ earlier ∈ former, earlier.isInterface = false →
          cd.name ∉ earlier.body.folded ∧ cd.name ∉ (prog.source earlier).iface.folded
  /-- No structured constant is declared before another module that is reached, in one compilation,
  nor before the program. -/
  structured : ∀ prog ∈ linked.compilations, ∀ former mod latter,
    prog.modules = former ++ mod :: latter → mod.isInterface = false → linked.Reached mod.name →
    ∀ earlier ∈ former, earlier.isInterface = false → (prog.source earlier).structured = []
  main : ∀ mod ∈ linked.program.modules, mod.isInterface = false →
    (linked.program.source mod).structured = []
  /-- No initial value of the program reads a module that has anything to bring up. -/
  waits : ∀ name ∈ linked.program.block.reads, ∀ s ∈ linked.sources, s.name = name → s.declared = []

end Linked

end Plang.CodeGen
