import Plang.Library.BasicBlocks
import Plang.Sema.Labels

/-!
# Code for statements

Statements are lowered to basic blocks, with one emitter for each kind.  A branch closes the current
block; what stands behind it in a list goes on in a block of its own, which only a label makes
reachable.  What assignments, calls and expressions compute is given by functions.
-/

namespace Plang.CodeGen.Statements

open BasicBlocks Labels

universe u

variable {σ : Type u}

/-- An expression: its value as an integer, and what evaluating it does.  An error ends the
program. -/
abbrev ExprNode (σ : Type u) : Type u := σ → Except σ (Int × σ)

/-- The control variable of a for-statement: its storage, when a value has not passed the limit, and
the value behind another one. -/
structure Control (σ : Type u) where
  load : σ → Int
  store : Int → σ → σ
  cmp : Int → Int → Bool
  next : Int → Int

/-- The control variable of a for-statement over a set: whether a bit of the set is there, and the
assignment of what the bit stands for. -/
structure SetControl (σ : Type u) where
  isMem : Int → Int → Bool
  store : Int → σ → σ

/-- A label of a case statement: a value, or a range. -/
structure CaseLabel where
  Low : Int
  High : Option Int

mutual

inductive StmtNode (σ : Type u) where
  | empty
  /-- An assignment or a call. -/
  | simple (run : σ → Except σ σ)
  | halt (run : σ → σ)
  | compound (stmts : StmtList σ)
  | ifThen (cond : ExprNode σ) (thenPart : StmtNode σ)
  | ifElse (cond : ExprNode σ) (thenPart elsePart : StmtNode σ)
  | whileStmt (cond : ExprNode σ) (body : StmtNode σ)
  | repeatStmt (stmts : StmtList σ) (cond : ExprNode σ)
  | forStmt (control : Control σ) (start limit : ExprNode σ) (body : StmtNode σ)
  | forInStmt (control : SetControl σ) (setExpr : ExprNode σ) (body : StmtNode σ)
  /-- The records are opened, which may evaluate accesses to them. -/
  | withStmt (records : σ → Except σ σ) (body : StmtNode σ)
  | caseStmt (selector : ExprNode σ) (arms : ArmList σ)
  | gotoStmt (label : Label)
  | labeled (label : Label) (stmt : StmtNode σ)
  | breakStmt
  | continueStmt
  /-- `Exit`, with the assignment of a value or without one. -/
  | exitStmt (assign : σ → Except σ σ)

inductive StmtList (σ : Type u) where
  | nil
  | cons (stmt : StmtNode σ) (rest : StmtList σ)

inductive ArmList (σ : Type u) where
  /-- The `else` part; where Turbo has none, it is empty. -/
  | otherwise (stmt : StmtNode σ)
  /-- No `else` part: a selector without a label is an error. -/
  | plang_err_no_case (report : Int → σ → σ)
  | arm (labels : List CaseLabel) (body : StmtNode σ) (rest : ArmList σ)

end

def CaseLabel.matches (sel : Int) (lbl : CaseLabel) : Bool :=
  match lbl.High with
  | some hi => decide (lbl.Low ≤ sel) && decide (sel ≤ hi)
  | none => sel == lbl.Low

/-- The blocks that `Continue` and `Break` go to. -/
structure LoopTargets where
  continueBB : BlockId Label
  breakBB : BlockId Label

/-- The block of the epilogue. -/
def exitBlock : BlockId Label := .fresh 1

/-! ### Emitters -/

/-- A block for what stands behind a branch. -/
def resumeAfterTerminator (b : Builder σ Label) : Builder σ Label :=
  (b.addBlocks 1).goTo (.fresh b.blocks)

/-- `emitStmt`: nothing is emitted behind a branch. -/
def emitOpen (emit : Builder σ Label → Builder σ Label) (b : Builder σ Label) : Builder σ Label :=
  if b.isTerminated then b else emit b

/-- How many bits a set has. -/
def PlangMaxSetElements : Int := 256

def isTrue (temp : Nat) (temps : Temps) : Bool := decide (temps temp ≠ 0)

mutual

def StmtNode.emit : StmtNode σ → List LoopTargets → Builder σ Label → Builder σ Label
  | .empty, _, b => b
  | .simple run, _, b => b.insert (.act fun _ => run)
  | .halt run, _, b => (b.insert (.act fun _ s => .error (run s))).close .unreachable
  | .compound stmts, loops, b => stmts.emit loops b
  | .ifThen cond thenPart, loops, b =>
      let thenBB : BlockId Label := .fresh b.blocks
      let endBB : BlockId Label := .fresh (b.blocks + 1)
      let b' := ((b.addTemps 1).insert (.eval b.temps cond)).addBlocks 2
      let b' := (b'.close (.condBr (isTrue b.temps) thenBB endBB)).goTo thenBB
      ((emitOpen (thenPart.emit loops) b').brIfNeeded endBB).goTo endBB
  | .ifElse cond thenPart elsePart, loops, b =>
      let thenBB : BlockId Label := .fresh b.blocks
      let endBB : BlockId Label := .fresh (b.blocks + 1)
      let elseBB : BlockId Label := .fresh (b.blocks + 2)
      let b' := ((b.addTemps 1).insert (.eval b.temps cond)).addBlocks 3
      let b' := (b'.close (.condBr (isTrue b.temps) thenBB elseBB)).goTo thenBB
      let b' := ((emitOpen (thenPart.emit loops) b').brIfNeeded endBB).goTo elseBB
      ((emitOpen (elsePart.emit loops) b').brIfNeeded endBB).goTo endBB
  | .whileStmt cond body, loops, b =>
      let condBB : BlockId Label := .fresh b.blocks
      let bodyBB : BlockId Label := .fresh (b.blocks + 1)
      let endBB : BlockId Label := .fresh (b.blocks + 2)
      let b' := ((b.addBlocks 3).close (.br condBB)).goTo condBB
      let b' := (b'.addTemps 1).insert (.eval b.temps cond)
      let b' := (b'.close (.condBr (isTrue b.temps) bodyBB endBB)).goTo bodyBB
      ((emitOpen (body.emit (⟨condBB, endBB⟩ :: loops)) b').brIfNeeded condBB).goTo endBB
  | .repeatStmt stmts cond, loops, b =>
      let bodyBB : BlockId Label := .fresh b.blocks
      let condBB : BlockId Label := .fresh (b.blocks + 1)
      let endBB : BlockId Label := .fresh (b.blocks + 2)
      let b' := ((b.addBlocks 3).close (.br bodyBB)).goTo bodyBB
      let b' := ((stmts.emit (⟨condBB, endBB⟩ :: loops) b').brIfNeeded condBB).goTo condBB
      let temp := b'.temps
      let b' := (b'.addTemps 1).insert (.eval temp cond)
      (b'.close (.condBr (isTrue temp) endBB bodyBB)).goTo endBB
  | .forStmt control start limit body, loops, b =>
      let condBB : BlockId Label := .fresh b.blocks
      let bodyBB : BlockId Label := .fresh (b.blocks + 1)
      let incBB : BlockId Label := .fresh (b.blocks + 2)
      let endBB : BlockId Label := .fresh (b.blocks + 3)
      let fromVal := b.temps
      let limitVal := b.temps + 1
      let cur := b.temps + 2
      let cur2 := b.temps + 3
      let load : ExprNode σ := fun s => .ok (control.load s, s)
      let b' := ((b.addTemps 4).insert (.eval fromVal start)).insert (.eval limitVal limit)
      let b' := b'.insert (.act fun temps s => .ok (control.store (temps fromVal) s))
      let b' := ((b'.addBlocks 4).close (.br condBB)).goTo condBB
      let b' := b'.insert (.eval cur load)
      let b' := b'.close (.condBr (fun temps => control.cmp (temps cur) (temps limitVal))
        bodyBB endBB)
      let b' := b'.goTo bodyBB
      let b' := (emitOpen (body.emit (⟨incBB, endBB⟩ :: loops)) b').brIfNeeded incBB
      let stepBB : BlockId Label := .fresh b'.blocks
      let b' := ((b'.goTo incBB).addBlocks 1).insert (.eval cur2 load)
      let b' := b'.close (.condBr (fun temps => temps cur2 == temps limitVal) endBB stepBB)
      let b' := (b'.goTo stepBB).insert
        (.act fun temps s => .ok (control.store (control.next (temps cur2)) s))
      (b'.close (.br condBB)).goTo endBB
  | .forInStmt control setExpr body, loops, b =>
      let condBB : BlockId Label := .fresh b.blocks
      let testBB : BlockId Label := .fresh (b.blocks + 1)
      let bodyBB : BlockId Label := .fresh (b.blocks + 2)
      let incBB : BlockId Label := .fresh (b.blocks + 3)
      let endBB : BlockId Label := .fresh (b.blocks + 4)
      let setVal := b.temps
      let bitAlloca := b.temps + 1
      let bit := b.temps + 2
      let bit2 := b.temps + 3
      let bit3 := b.temps + 4
      let bit4 := b.temps + 5
      let load : Temps → Int := fun temps => temps bitAlloca
      let b' := ((b.addTemps 6).insert (.eval setVal setExpr)).insert (.calc bitAlloca fun _ => 0)
      let b' := (((b'.addBlocks 5).close (.br condBB)).goTo condBB).insert (.calc bit load)
      let b' := b'.close
        (.condBr (fun temps => decide (temps bit < PlangMaxSetElements)) testBB endBB)
      let b' := (b'.goTo testBB).insert (.calc bit2 load)
      let b' := b'.close
        (.condBr (fun temps => control.isMem (temps setVal) (temps bit2)) bodyBB incBB)
      let b' := ((b'.goTo bodyBB).insert (.calc bit3 load)).insert
        (.act fun temps s => .ok (control.store (temps bit3) s))
      let b' := (emitOpen (body.emit (⟨incBB, endBB⟩ :: loops)) b').brIfNeeded incBB
      let b' := ((b'.goTo incBB).insert (.calc bit4 load)).insert
        (.calc bitAlloca fun temps => temps bit4 + 1)
      (b'.close (.br condBB)).goTo endBB
  | .withStmt records body, loops, b =>
      emitOpen (body.emit loops) (b.insert (.act fun _ => records))
  | .caseStmt selector arms, loops, b =>
      let endBB : BlockId Label := .fresh b.blocks
      let nextBB : BlockId Label := .fresh (b.blocks + 1)
      let b' := ((b.addTemps 1).insert (.eval b.temps selector)).addBlocks 2
      (arms.emit b.temps endBB nextBB loops (b'.close (.br nextBB))).goTo endBB
  | .gotoStmt label, _, b => b.close (.br (.named label))
  | .labeled label stmt, loops, b =>
      emitOpen (stmt.emit loops) ((b.brIfNeeded (.named label)).goTo (.named label))
  | .breakStmt, loops, b => (loops.head?.map fun targets => b.close (.br targets.breakBB)).getD b
  | .continueStmt, loops, b =>
      (loops.head?.map fun targets => b.close (.br targets.continueBB)).getD b
  | .exitStmt assign, _, b => (b.insert (.act fun _ => assign)).close (.br exitBlock)

def StmtList.emit : StmtList σ → List LoopTargets → Builder σ Label → Builder σ Label
  | .nil, _, b => b
  | .cons stmt rest, loops, b =>
      rest.emit loops (emitOpen (stmt.emit loops)
        (if b.isTerminated then resumeAfterTerminator b else b))

/-- The arms from one on, whose test is in a block of its own. -/
def ArmList.emit (sel : Nat) (endBB : BlockId Label) :
    BlockId Label → ArmList σ → List LoopTargets → Builder σ Label → Builder σ Label
  | nextBB, .otherwise stmt, loops, b =>
      (emitOpen (stmt.emit loops) (b.goTo nextBB)).brIfNeeded endBB
  | nextBB, .plang_err_no_case report, _, b =>
      (((b.goTo nextBB).insert (.act fun temps s => .error (report (temps sel) s))).close
        .unreachable).brIfNeeded endBB
  | nextBB, .arm labels body rest, loops, b =>
      let testBB : BlockId Label := .fresh b.blocks
      let armBB : BlockId Label := .fresh (b.blocks + 1)
      let test : Temps → Bool := fun temps => labels.any (CaseLabel.matches (temps sel))
      let b' := (((b.goTo nextBB).addBlocks 2).close (.condBr test armBB testBB)).goTo armBB
      rest.emit sel endBB testBB loops ((emitOpen (body.emit loops) b').brIfNeeded endBB)

end

/-- The code of a procedure: its statements, and the epilogue that falling off their end and `Exit`
lead to. -/
def emitBody (stmts : StmtList σ) : Code σ Label :=
  let b : Builder σ Label :=
    { code := fun _ => Builder.emptyBlock, cur := .fresh 0, blocks := 2, temps := 0 }
  ((((stmts.emit [] b).brIfNeeded exitBlock).goTo exitBlock).close .ret).code

end Plang.CodeGen.Statements
