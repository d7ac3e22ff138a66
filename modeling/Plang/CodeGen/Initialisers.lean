import Plang.Library.GuardedCalls

/-!
# Initialisers

What is generated to bring a module, a unit or a program up: the calls of other initialisers, the
initial values and the statement.  Names are in lower case.
-/

namespace Plang.CodeGen

open GuardedCalls

/-! ### Source -/

inductive ConstForm where
  /-- The value is known when compiling, and needs no storage. -/
  | folded
  /-- An array, a record or a set. -/
  | structured
  /-- A value that is worked out when running. -/
  | computed
  deriving DecidableEq, Repr

structure ConstDef where
  name : String
  form : ConstForm
  /-- The modules whose exports the value reads. -/
  reads : List String
  deriving DecidableEq, Repr

structure VarGroup where
  names : List String
  /-- The modules whose exports the initial value reads. -/
  reads : List String
  deriving DecidableEq, Repr

structure BlockNode where
  consts : List ConstDef
  vars : List VarGroup
  deriving DecidableEq, Repr

/-- A statement by the modules whose exports it reads. -/
abbrev StmtReads := List String

structure ModuleNode where
  name : String
  isInterface : Bool
  imports : List String
  body : BlockNode
  initStmt : Option StmtReads
  deriving DecidableEq, Repr

/-- A compilation of modules, with a program or without. -/
structure ProgramNode where
  modules : List ModuleNode
  imports : List String
  uses : List String
  block : BlockNode
  body : StmtReads
  /-- The constants that the interfaces read from files have folded. -/
  interfaceConsts : List String
  /-- The units whose published interface was found. -/
  fromTUI : List String
  deriving DecidableEq, Repr

structure UnitNode where
  name : String
  interfaceUses : List String
  implementationUses : List String
  interfaceBlock : BlockNode
  implementationBlock : BlockNode
  initBody : Option StmtReads
  /-- The units whose published interface was found. -/
  fromTUI : List String
  deriving DecidableEq, Repr

/-! ### Instructions -/

/-- Whose code it is. -/
inductive Owner where
  | program
  | unit (name : String)
  deriving DecidableEq, Repr

inductive Item where
  | constant (name : String)
  | variable (name : String)
  | statement
  deriving DecidableEq, Repr

/-- An initial value that is evaluated, or a statement that is run. -/
structure Work where
  owner : Owner
  item : Item
  reads : List String
  deriving DecidableEq, Repr

abbrev Instr := Action Owner Work

/-! ### Globals -/

/-- The tables that the generator keeps through one compilation. -/
structure Emission where
  /-- The constants that have been folded, of any module. -/
  consts : List String
  structuredConsts : List (Owner × ConstDef)
  runtimeConsts : List (Owner × ConstDef)
  deriving DecidableEq, Repr

def Emission.defineConst (e : Emission) (name : String) : Emission :=
  { e with consts := name :: e.consts }

def Emission.emitStructuredConst (e : Emission) (owner : Owner) (cd : ConstDef) : Emission :=
  { e with structuredConsts := e.structuredConsts ++ [(owner, cd)] }

def Emission.emitRuntimeConst (e : Emission) (owner : Owner) (cd : ConstDef) : Emission :=
  { e with runtimeConsts := e.runtimeConsts ++ [(owner, cd)] }

def emitGlobalConst (owner : Owner) (e : Emission) (cd : ConstDef) : Emission :=
  match cd.form with
  | .folded => e.defineConst cd.name
  | .structured => e.emitStructuredConst owner cd
  | .computed => e.emitRuntimeConst owner cd

def emitGlobals (owner : Owner) (block : BlockNode) (e : Emission) : Emission :=
  block.consts.foldl (emitGlobalConst owner) e

namespace BlockNode

def varNames (block : BlockNode) : List String := block.vars.flatMap VarGroup.names

/-- The names that have storage. -/
def storage (block : BlockNode) : List String :=
  (block.consts.filter fun cd => cd.form ≠ .folded).map ConstDef.name ++ block.varNames

def folded (block : BlockNode) : List String :=
  (block.consts.filter fun cd => cd.form = .folded).map ConstDef.name

end BlockNode

/-- A constant of the interface of a module, unless the block declares it again: a constant of that
name that has been folded before, in any module, counts for it. -/
def emitInheritedConst (owner : Owner) (own : BlockNode) (e : Emission) (cd : ConstDef) : Emission :=
  if cd.name ∈ e.consts then e
  else
    match cd.form with
    | .folded => e.defineConst cd.name
    | .structured => if cd.name ∈ own.storage then e else e.emitStructuredConst owner cd
    | .computed => if cd.name ∈ own.storage then e else e.emitRuntimeConst owner cd

def emitInheritedGlobals (owner : Owner) (iface own : BlockNode) (e : Emission) : Emission :=
  iface.consts.foldl (emitInheritedConst owner own) e

/-! ### Initial values -/

def layConst (entry : Owner × ConstDef) : Instr :=
  .work ⟨entry.1, .constant entry.2.name, entry.2.reads⟩

def emitGlobalVarInit (owner : Owner) (vg : VarGroup) : List Instr :=
  vg.names.map fun name => .work ⟨owner, .variable name, vg.reads⟩

def emitRuntimeConstInits (e : Emission) : List Instr := e.runtimeConsts.map layConst

/-- The structured constants that the compilation has collected so far, and then the variables. -/
def emitGlobalVarInits (owner : Owner) (block : BlockNode) (e : Emission) : List Instr :=
  e.structuredConsts.map layConst ++ block.vars.flatMap (emitGlobalVarInit owner)

/-- A group of the interface is left out when the block declares any of its names. -/
def inheritedGroups (own iface : BlockNode) : List VarGroup :=
  iface.vars.filter fun vg => ¬vg.names.any fun name => name ∈ own.varNames

def emitModuleGlobalInits (owner : Owner) (own : BlockNode) (iface : Option BlockNode)
    (e : Emission) : List Instr :=
  emitRuntimeConstInits e ++ emitGlobalVarInits owner own e ++
    match iface with
    | some iface => (inheritedGroups own iface).flatMap (emitGlobalVarInit owner)
    | none => []

def emitStmt (owner : Owner) (stmt : StmtReads) : Instr := .work ⟨owner, .statement, stmt⟩

def callUnits (names : List String) : List Instr := names.map fun name => .call (.unit name)

/-! ### Initialisers of modules -/

def isBuiltinModule (name : String) : Bool := name = "standardinput" ∨ name = "standardoutput"

/-- The interface of a module, in the compilation that has its implementation. -/
def ProgramNode.ifaceOf (prog : ProgramNode) (name : String) : Option ModuleNode :=
  prog.modules.find? fun mod => mod.isInterface ∧ mod.name = name

/-- The imports of both halves of a module. -/
def ModuleNode.allImports (mod : ModuleNode) (iface : Option ModuleNode) : List String :=
  mod.imports ++ (iface.map ModuleNode.imports).getD []

def emitModuleInitFn (mod : ModuleNode) (iface : Option ModuleNode) (e : Emission) : List Instr :=
  callUnits ((mod.allImports iface).filter fun name => ¬isBuiltinModule name) ++
    emitModuleGlobalInits (.unit mod.name) mod.body (iface.map ModuleNode.body) e ++
    mod.initStmt.toList.map (emitStmt (.unit mod.name))

/-- The tables after the globals of a module. -/
def moduleGlobals (mod : ModuleNode) (iface : Option ModuleNode) (e : Emission) : Emission :=
  let e := emitGlobals (.unit mod.name) mod.body e
  match iface with
  | some iface => emitInheritedGlobals (.unit mod.name) iface.body mod.body e
  | none => e

/-- A module: its globals, and its initialiser, which empties the table of run-time constants. -/
def emitModule (prog : ProgramNode) (state : Emission × List (String × List Instr))
    (mod : ModuleNode) : Emission × List (String × List Instr) :=
  if mod.isInterface then state
  else
    let iface := prog.ifaceOf mod.name
    let e := moduleGlobals mod iface state.1
    ({ e with runtimeConsts := [] }, state.2 ++ [(mod.name, emitModuleInitFn mod iface e)])

def emitModules (prog : ProgramNode) (modules : List ModuleNode) :
    Emission × List (String × List Instr) :=
  modules.foldl (emitModule prog) (⟨prog.interfaceConsts, [], []⟩, [])

/-! ### The program -/

/-- The units of a uses clause whose initialisers are called: each of them once, and those that were
found by their published interface. -/
def unitInitCallNames (fromTUI : List String) (uses seen : List String) : List String :=
  match uses with
  | [] => []
  | name :: rest =>
      if name = "system" ∨ name ∈ seen then unitInitCallNames fromTUI rest seen
      else if name ∈ fromTUI then name :: unitInitCallNames fromTUI rest (name :: seen)
      else unitInitCallNames fromTUI rest (name :: seen)

/-- The modules of the compilation, and the imports that are not among them. -/
def importedInits (imports known : List String) : List String :=
  imports.foldl (fun inits name =>
    if isBuiltinModule name ∨ name ∈ inits then inits else inits ++ [name]) known

def ProgramNode.functions (prog : ProgramNode) : List (String × List Instr) :=
  (emitModules prog prog.modules).2

def ProgramNode.initModules (prog : ProgramNode) : List String :=
  importedInits prog.imports (prog.functions.map Prod.fst) ++
    unitInitCallNames prog.fromTUI prog.uses []

/-- The tables when `main` is emitted. -/
def ProgramNode.globals (prog : ProgramNode) : Emission :=
  emitGlobals .program prog.block (emitModules prog prog.modules).1

/-- The initial values of the program. -/
def ProgramNode.globalInits (prog : ProgramNode) : List Instr :=
  emitRuntimeConstInits prog.globals ++ emitGlobalVarInits .program prog.block prog.globals

def ProgramNode.emitMain (prog : ProgramNode) : List Instr :=
  prog.globalInits ++ callUnits prog.initModules ++ [emitStmt .program prog.body]

/-! ### Units -/

def UnitNode.uses (u : UnitNode) : List String := u.interfaceUses ++ u.implementationUses

def UnitNode.globals (u : UnitNode) : Emission :=
  emitGlobals (.unit u.name) u.implementationBlock
    (emitGlobals (.unit u.name) u.interfaceBlock ⟨[], [], []⟩)

def UnitNode.emitUnitInitFn (u : UnitNode) : List Instr :=
  callUnits (unitInitCallNames u.fromTUI u.uses []) ++
    emitModuleGlobalInits (.unit u.name) u.implementationBlock (some u.interfaceBlock) u.globals ++
    u.initBody.toList.map (emitStmt (.unit u.name))

/-! ### What is linked -/

/-- A program with the other compilations that are linked with it. -/
structure Linked where
  program : ProgramNode
  objects : List ProgramNode
  units : List UnitNode
  deriving DecidableEq, Repr

namespace Linked

/-- The initialisers by the names of what they bring up. -/
def functions (linked : Linked) : List (String × List Instr) :=
  (linked.program :: linked.objects).flatMap ProgramNode.functions ++
    linked.units.map fun u => (u.name, u.emitUnitInitFn)

def body (linked : Linked) : Owner → Option (List Instr)
  | .program => some linked.program.emitMain
  | .unit name => linked.functions.lookup name

/-- The initial values and statements of a run, each with the initialiser that performs it. -/
def trace (linked : Linked) : Option (List (Owner × Work)) :=
  (perform linked.body linked.functions.length .program linked.program.emitMain
    [.program]).map Prod.snd

end Linked

end Plang.CodeGen
