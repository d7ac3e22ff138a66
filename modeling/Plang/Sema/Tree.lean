import Mathlib.Data.List.Basic

/-!
# Statements and expressions

The syntax tree as the flow walk reads it.  A name is the key the walk makes of it, its letters in
lower case; a missing statement is the `null` one.
-/

namespace Plang.Sema

/-- A name in lower case. -/
abbrev Key := String

/-- Expressions, as far as the walk tells them apart. -/
inductive ExprNode where
  | ident (name : Key)
  | index (array subscript : ExprNode)
  | field (record : ExprNode) (name : Key)
  | deref (pointer : ExprNode)
  | substring (str low high : ExprNode)
  | typeCast (operand : ExprNode)
  | call (name : Key) (args : List ExprNode)
  /-- Literals, operators, set and structured values and the other calls, with their parts. -/
  | other (parts : List ExprNode)

namespace ExprNode

/-- The variable an access is ultimately of. -/
def rootVariable : ExprNode → Option Key
  | .ident name => some name
  | .index array _ => array.rootVariable
  | .field record _ => record.rootVariable
  | .deref pointer => pointer.rootVariable
  | .substring str _ _ => str.rootVariable
  | .typeCast operand => operand.rootVariable
  | .call _ _ => none
  | .other _ => none

/-- Whether reaching the root passes through a pointer. -/
def writesThroughDeref : ExprNode → Bool
  | .deref _ => true
  | .index array _ => array.writesThroughDeref
  | .field record _ => record.writesThroughDeref
  | .substring str _ _ => str.writesThroughDeref
  | .typeCast operand => operand.writesThroughDeref
  | .ident _ => false
  | .call _ _ => false
  | .other _ => false

/-- Whether the expression is a plain identifier. -/
def isIdent : ExprNode → Bool
  | .ident _ => true
  | _ => false

/-- The calls that ask for a type only and do not evaluate what they are given. -/
def unevaluated (name : Key) : Bool :=
  name == "sizeof" || name == "high" || name == "low"

mutual

/-- The variables read, in the order of the walk: an access reads its root, and the parts are
visited in their own right. -/
def reads : ExprNode → List Key
  | .ident name => [name]
  | .index array subscript => array.rootVariable.toList ++ array.reads ++ subscript.reads
  | .field record _ => record.rootVariable.toList ++ record.reads
  | .deref pointer => pointer.rootVariable.toList ++ pointer.reads
  | .substring str low high =>
      str.rootVariable.toList ++ str.reads ++ low.reads ++ high.reads
  | .typeCast operand => operand.reads
  | .call name args => if unevaluated name then [] else readsAll args
  | .other parts => readsAll parts

/-- The variables a list of expressions reads. -/
def readsAll : List ExprNode → List Key
  | [] => []
  | expr :: exprs => expr.reads ++ readsAll exprs

end

mutual

/-- The identifiers anywhere in an expression. -/
def idents : ExprNode → List Key
  | .ident name => [name]
  | .index array subscript => array.idents ++ subscript.idents
  | .field record _ => record.idents
  | .deref pointer => pointer.idents
  | .substring str low high => str.idents ++ low.idents ++ high.idents
  | .typeCast operand => operand.idents
  | .call _ args => identsAll args
  | .other parts => identsAll parts

/-- The identifiers anywhere in a list of expressions. -/
def identsAll : List ExprNode → List Key
  | [] => []
  | expr :: exprs => expr.idents ++ identsAll exprs

end

/-- The identifiers in an access beside its root: what it is subscripted by. -/
def identsBesideRoot : ExprNode → List Key
  | .index array subscript => array.identsBesideRoot ++ subscript.idents
  | .field record _ => record.identsBesideRoot
  | .deref pointer => pointer.identsBesideRoot
  | .substring str low high => str.identsBesideRoot ++ low.idents ++ high.idents
  | .typeCast operand => operand.identsBesideRoot
  | .ident _ => []
  | .call _ _ => []
  | .other _ => []

end ExprNode

/-- Statements. -/
inductive StmtNode where
  /-- No statement, as the missing else part of an if-statement. -/
  | null
  | compoundStmt (stmts : List StmtNode)
  | assignStmt (target value : ExprNode)
  | callStmt (name : Key) (args : List ExprNode)
  /-- The calls of methods, of inherited methods and through expressions, with the receiver or the
  expression called and the modes of the parameters: true for a variable parameter. -/
  | otherCallStmt (callee args : List ExprNode) (formals : List Bool)
  | ifStmt (cond : ExprNode) (thenPart elsePart : StmtNode)
  | whileStmt (cond : ExprNode) (body : StmtNode)
  | repeatStmt (stmts : List StmtNode) (cond : ExprNode)
  | forStmt (var : Key) (start limit : ExprNode) (body : StmtNode)
  | forInStmt (var : Key) (setExpr : ExprNode) (body : StmtNode)
  /-- The bodies of the arms, and whether an else part was written. -/
  | caseStmt (selector : ExprNode) (labels : List ExprNode) (arms : List StmtNode) (hasElse : Bool)
      (elsePart : StmtNode)
  /-- The record variables, and the names of the fields they open. -/
  | withStmt (records : List ExprNode) (fields : List Key) (body : StmtNode)
  | gotoStmt (label : Key)
  | labeledStmt (label : Key) (body : StmtNode)

namespace StmtNode

/-- Induction over statements, with the statements of a list taken one by one. -/
@[elab_as_elim, induction_eliminator]
theorem induction {motive : StmtNode → Prop}
    (null : motive .null)
    (compoundStmt : ∀ stmts, (∀ stmt ∈ stmts, motive stmt) → motive (.compoundStmt stmts))
    (assignStmt : ∀ target value, motive (.assignStmt target value))
    (callStmt : ∀ name args, motive (.callStmt name args))
    (otherCallStmt : ∀ callee args formals, motive (.otherCallStmt callee args formals))
    (ifStmt : ∀ cond thenPart elsePart, motive thenPart → motive elsePart →
      motive (.ifStmt cond thenPart elsePart))
    (whileStmt : ∀ cond body, motive body → motive (.whileStmt cond body))
    (repeatStmt : ∀ stmts cond, (∀ stmt ∈ stmts, motive stmt) → motive (.repeatStmt stmts cond))
    (forStmt : ∀ var start limit body, motive body → motive (.forStmt var start limit body))
    (forInStmt : ∀ var setExpr body, motive body → motive (.forInStmt var setExpr body))
    (caseStmt : ∀ selector labels arms hasElse elsePart, (∀ arm ∈ arms, motive arm) →
      motive elsePart → motive (.caseStmt selector labels arms hasElse elsePart))
    (withStmt : ∀ records fields body, motive body → motive (.withStmt records fields body))
    (gotoStmt : ∀ label, motive (.gotoStmt label))
    (labeledStmt : ∀ label body, motive body → motive (.labeledStmt label body))
    (stmt : StmtNode) : motive stmt :=
  @StmtNode.rec motive (fun stmts => ∀ stmt ∈ stmts, motive stmt) null compoundStmt assignStmt
    callStmt otherCallStmt ifStmt whileStmt repeatStmt forStmt forInStmt caseStmt withStmt gotoStmt
    labeledStmt (fun _ mem => absurd mem List.not_mem_nil)
    (fun _ _ head tail _ mem => (List.mem_cons.mp mem).elim (fun same => same ▸ head) (tail _))
    stmt

mutual

/-- Whether no label and no goto stands in a statement. -/
def gotoFree : StmtNode → Bool
  | .compoundStmt stmts => gotoFreeAll stmts
  | .ifStmt _ thenPart elsePart => thenPart.gotoFree && elsePart.gotoFree
  | .whileStmt _ body => body.gotoFree
  | .repeatStmt stmts _ => gotoFreeAll stmts
  | .forStmt _ _ _ body => body.gotoFree
  | .forInStmt _ _ body => body.gotoFree
  | .caseStmt _ _ arms _ elsePart => gotoFreeAll arms && elsePart.gotoFree
  | .withStmt _ _ body => body.gotoFree
  | .gotoStmt _ => false
  | .labeledStmt _ _ => false
  | .null => true
  | .assignStmt _ _ => true
  | .callStmt _ _ => true
  | .otherCallStmt _ _ _ => true

/-- Whether no label and no goto stands in a list of statements. -/
def gotoFreeAll : List StmtNode → Bool
  | [] => true
  | stmt :: stmts => stmt.gotoFree && gotoFreeAll stmts

end

mutual

/-- Every name used in a statement: identifiers in its expressions and the names of the calls. -/
def namesUsed : StmtNode → List Key
  | .null => []
  | .compoundStmt stmts => namesUsedAll stmts
  | .assignStmt target value => target.idents ++ value.idents
  | .callStmt name args => name :: ExprNode.identsAll args
  | .otherCallStmt callee args _ => ExprNode.identsAll callee ++ ExprNode.identsAll args
  | .ifStmt cond thenPart elsePart => cond.idents ++ thenPart.namesUsed ++ elsePart.namesUsed
  | .whileStmt cond body => cond.idents ++ body.namesUsed
  | .repeatStmt stmts cond => cond.idents ++ namesUsedAll stmts
  | .forStmt _ start limit body => start.idents ++ limit.idents ++ body.namesUsed
  | .forInStmt _ setExpr body => setExpr.idents ++ body.namesUsed
  | .caseStmt selector labels arms _ elsePart =>
      selector.idents ++ ExprNode.identsAll labels ++ namesUsedAll arms ++ elsePart.namesUsed
  | .withStmt records _ body => ExprNode.identsAll records ++ body.namesUsed
  | .gotoStmt _ => []
  | .labeledStmt _ body => body.namesUsed

/-- Every name used in a list of statements. -/
def namesUsedAll : List StmtNode → List Key
  | [] => []
  | stmt :: stmts => stmt.namesUsed ++ namesUsedAll stmts

end

end StmtNode

/-- A nested procedure with a body: its statements and the procedures nested in it. -/
inductive ProcDecl where
  | mk (body : StmtNode) (procs : List ProcDecl)

mutual

/-- Every name used in a procedure, with those nested in it. -/
def ProcDecl.namesUsed : ProcDecl → List Key
  | .mk body procs => body.namesUsed ++ collectNamesUsedIn procs

/-- Every name used in these procedures: a variable among them may be assigned out of sight. -/
def collectNamesUsedIn : List ProcDecl → List Key
  | [] => []
  | proc :: procs => proc.namesUsed ++ collectNamesUsedIn procs

end

end Plang.Sema
