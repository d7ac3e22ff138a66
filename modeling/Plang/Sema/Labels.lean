import Plang.Basic.Text

/-!
# Labels and gotos

Blocks with the labels they declare, and what the checker says of the labelled statements and the
gotos in them.  A first walk notes which labels mark statements inside of structured ones; the check
of a goto asks whether it stands inside of the same one.
-/

namespace Plang.Labels

/-! ### Statements and blocks -/

/-- A label, reduced to its value where it is written in digits. -/
inductive Label where
  | number (value : Nat)
  | ident (name : Text)
  deriving DecidableEq, Repr

inductive StructKind where
  | ifStmt
  | whileStmt
  | forStmt
  | forInStmt
  | repeatStmt
  | withStmt
  | caseStmt
  deriving DecidableEq, Repr

/-- Statements, as far as they place labels and name them. -/
inductive StmtNode where
  | simple
  | gotoStmt (label : Label)
  | labeledStmt (label : Label) (stmt : StmtNode)
  | compoundStmt (stmts : List StmtNode)
  /-- A structured statement: the fields that a with-statement opens, and the statements in it. -/
  | structured (kind : StructKind) (fields : List Text) (stmts : List StmtNode)
  deriving Repr

/-- The place of a statement: the indices on the way to it, the last one first. -/
abbrev Node := List Nat

/-- The block of a program or of a procedure: its labels, its parameters and the other names it
declares, the procedures in it and its statement part. -/
inductive BlockNode where
  | mk (labels : List Label) (params names : List Text) (procs : List BlockNode) (body : StmtNode)
  deriving Repr

namespace BlockNode

def labels : BlockNode → List Label
  | .mk labels _ _ _ _ => labels

def procs : BlockNode → List BlockNode
  | .mk _ _ _ procs _ => procs

def body : BlockNode → StmtNode
  | .mk _ _ _ _ body => body

end BlockNode

/-- A module or a unit: its block has no statement part, and what is done to begin and to end it
stands beside the block. -/
structure ModuleNode where
  labels : List Label
  names : List Text
  procs : List BlockNode
  ends : List StmtNode
  deriving Repr

def ModuleNode.block (mod : ModuleNode) : BlockNode :=
  .mk mod.labels [] mod.names mod.procs .simple

/-- A program with its modules and units, in some dialect. -/
structure Program where
  turbo : Bool
  modules : List ModuleNode
  units : List ModuleNode
  main : BlockNode
  deriving Repr

/-! ### Labels inside of structured statements -/

mutual

/-- The labels that mark statements inside of structured ones, with the innermost of those.  The
body of a for-in statement is not looked at. -/
def scanLabelNesting (nestStack : List Node) (node : Node) : StmtNode → List (Label × Node)
  | .simple => []
  | .gotoStmt _ => []
  | .labeledStmt label stmt =>
      nestStack.head?.toList.map (fun enclosing => (label, enclosing)) ++
        scanLabelNesting nestStack (0 :: node) stmt
  | .compoundStmt stmts => scanAll nestStack node 0 stmts
  | .structured kind _ stmts =>
      if kind = .forInStmt then [] else scanAll (node :: nestStack) node 0 stmts

def scanAll (nestStack : List Node) (node : Node) (index : Nat) :
    List StmtNode → List (Label × Node)
  | [] => []
  | stmt :: stmts =>
      scanLabelNesting nestStack (index :: node) stmt ++ scanAll nestStack node (index + 1) stmts

end

/-- The statement noted for a label: the last one is. -/
def labelEnclosingStmt (entries : List (Label × Node)) (label : Label) : Option Node :=
  (entries.reverse.find? fun entry => entry.1 = label).map Prod.snd

mutual

/-- The labels that mark a statement in a statement. -/
def placed : StmtNode → List Label
  | .simple => []
  | .gotoStmt _ => []
  | .labeledStmt label stmt => label :: placed stmt
  | .compoundStmt stmts => placedAll stmts
  | .structured _ _ stmts => placedAll stmts

def placedAll : List StmtNode → List Label
  | [] => []
  | stmt :: stmts => placed stmt ++ placedAll stmts

end

/-! ### Checking -/

structure LabelSymbol where
  labelNested : Bool
  labelInModuleBlock : Bool
  deriving DecidableEq, Repr

inductive Symbol where
  | label (symbol : LabelSymbol)
  | other
  deriving DecidableEq, Repr

abbrev Scope := List (Label × Symbol)

def nameScope (names : List Text) : Scope := names.map fun name => (.ident name, .other)

/-- The symbol table, the innermost scope first. -/
def lookup (scopes : List Scope) (label : Label) : Option Symbol :=
  scopes.findSome? fun scope => scope.lookup label

/-- The block that the checks of statements are in. -/
structure Context where
  turbo : Bool
  currentBlockLabels : List Label
  entries : List (Label × Node)

def checkGoto (context : Context) (scopes : List Scope) (structStack : List Node) (label : Label) :
    Bool :=
  match lookup scopes label with
  | some (.label symbol) =>
      if label ∈ context.currentBlockLabels then
        match labelEnclosingStmt context.entries label with
        | some node => node ∈ structStack
        | none => true
      else !symbol.labelInModuleBlock && !symbol.labelNested && !context.turbo
  | some .other => false
  | none => false

def checkLabeled (context : Context) (scopes : List Scope) (label : Label) : Bool :=
  match lookup scopes label with
  | some (.label _) => label ∈ context.currentBlockLabels
  | some .other => false
  | none => false

def withScope (kind : StructKind) (fields : List Text) : List Scope :=
  if kind = .withStmt then [nameScope fields] else []

mutual

def checkStmt (context : Context) (scopes : List Scope) (structStack : List Node) (node : Node) :
    StmtNode → Bool
  | .simple => true
  | .gotoStmt label => checkGoto context scopes structStack label
  | .labeledStmt label stmt =>
      checkLabeled context scopes label && checkStmt context scopes structStack (0 :: node) stmt
  | .compoundStmt stmts => checkAll context scopes structStack node 0 stmts
  | .structured kind fields stmts =>
      checkAll context (withScope kind fields ++ scopes) (node :: structStack) node 0 stmts

def checkAll (context : Context) (scopes : List Scope) (structStack : List Node) (node : Node)
    (index : Nat) : List StmtNode → Bool
  | [] => true
  | stmt :: stmts =>
      checkStmt context scopes structStack (index :: node) stmt &&
        checkAll context scopes structStack node (index + 1) stmts

end

/-- The labels a block may declare. -/
def labelAllowed (turbo : Bool) : Label → Bool
  | .number value => value ≤ 9999
  | .ident _ => turbo

/-- The scope of a block. -/
def ownScope (labels : List Label) (names : List Text) (entries : List (Label × Node))
    (isModuleBlock : Bool) : Scope :=
  labels.map (fun label =>
    (label, .label ⟨(entries.map Prod.fst).contains label, isModuleBlock⟩)) ++ nameScope names

mutual

/-- Whether a block is accepted.  What is to be checked before its scope is left stands beside it. -/
def checkBlock (turbo : Bool) (outer : List Scope) (isModuleBlock : Bool)
    (beforePop : List StmtNode) : BlockNode → Bool
  | .mk labels params names procs body =>
      let entries := scanLabelNesting [] [0] body
      let own := ownScope labels names entries isModuleBlock
      let scopes := own :: nameScope params :: outer
      let context := ⟨turbo, labels, entries⟩
      labels.all (labelAllowed turbo) && decide (own.map Prod.fst).Nodup &&
        checkProcs turbo scopes procs &&
        checkStmt context scopes [] [0] body && checkAll context scopes [] [] 1 beforePop &&
        labels.all fun label => (placedAll (body :: beforePop)).contains label

def checkProcs (turbo : Bool) (scopes : List Scope) : List BlockNode → Bool
  | [] => true
  | proc :: procs => checkBlock turbo scopes false [] proc && checkProcs turbo scopes procs

end

/-- Whether a program is accepted, as far as its labels go. -/
def Program.accepted (program : Program) : Bool :=
  (program.modules.all fun mod => checkBlock program.turbo [] true mod.ends mod.block) &&
    -- there are units in Turbo Pascal only
    (program.units.all fun unit =>
      program.turbo && checkBlock program.turbo [] false unit.ends unit.block) &&
    checkBlock program.turbo [] false [] program.main

end Plang.Labels
