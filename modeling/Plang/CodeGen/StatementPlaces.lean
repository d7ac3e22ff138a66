import Plang.CodeGen.StatementMeaning

/-!
# Where statements stand in code

The code of a statement begins at a place and is left at another one, or at none if its end is not
reached.  Such code does what the statement does: it comes to where the statement ends, or has
jumped to, and it ends only if the statement does.
-/

namespace Plang.CodeGen.Statements

open BasicBlocks Labels

universe u

variable {σ : Type u} (code : Code σ Label)

/-- What the code of a statement is asked about: where it begins, the first value that is its own,
and where it is left. -/
abbrev Stands : Type := List LoopTargets → Nat → Place Label → Option (Place Label) → Prop

/-- A while-statement, from its test on. -/
def WhileStands (cond : ExprNode σ) (body : Stands) : Stands := fun loops low p q =>
  ∃ temp inner condBB bodyBB endBB o, (low ≤ temp ∧ low ≤ inner) ∧ p = condBB.start ∧
    (Instruction.eval temp cond).At code p ∧
    (Terminator.condBr (isTrue temp) bodyBB endBB).At code p.next ∧
    body (⟨condBB, endBB⟩ :: loops) inner bodyBB.start o ∧ Joins code o condBB ∧
    q = some endBB.start

/-- A repeat-statement, from the first of its statements on. -/
def RepeatStands (cond : ExprNode σ) (stmts : List LoopTargets → Nat → Option (Place Label) →
    Option (Place Label) → Prop) : Stands := fun loops low p q =>
  ∃ temp inner condBB bodyBB endBB o, (low ≤ temp ∧ low ≤ inner) ∧ p = bodyBB.start ∧
    stmts (⟨condBB, endBB⟩ :: loops) inner (some p) o ∧ Joins code o condBB ∧
    (Instruction.eval temp cond).At code condBB.start ∧
    (Terminator.condBr (isTrue temp) endBB bodyBB).At code condBB.start.next ∧
    q = some endBB.start

/-- A for-statement, from the test of its control variable on, with the value that has the limit. -/
def ForStands (control : Control σ) (limitVal : Nat) (body : Stands) : Stands :=
  fun loops low p q =>
    ∃ cur cur2 inner condBB bodyBB incBB stepBB endBB o,
      (low ≤ cur ∧ low ≤ cur2 ∧ low ≤ inner) ∧ (limitVal < inner ∧ limitVal ≠ cur ∧
        limitVal ≠ cur2) ∧
      p = condBB.start ∧
      (Instruction.eval cur fun s => .ok (control.load s, s)).At code p ∧
      (Terminator.condBr (fun temps => control.cmp (temps cur) (temps limitVal)) bodyBB endBB).At
        code p.next ∧
      body (⟨incBB, endBB⟩ :: loops) inner bodyBB.start o ∧ Joins code o incBB ∧
      (Instruction.eval cur2 fun s => .ok (control.load s, s)).At code incBB.start ∧
      (Terminator.condBr (fun temps => temps cur2 == temps limitVal) endBB stepBB).At code
        incBB.start.next ∧
      (Instruction.act fun temps s => .ok (control.store (control.next (temps cur2)) s)).At code
        stepBB.start ∧
      (Terminator.br condBB).At code stepBB.start.next ∧ q = some endBB.start

/-- A for-statement over a set, from the test of the bit on. -/
def ForInStands (control : SetControl σ) (setVal bitAlloca : Nat) (body : Stands) : Stands :=
  fun loops low p q =>
    ∃ bit bit2 bit3 bit4 inner condBB testBB bodyBB incBB endBB o,
      (low ≤ bitAlloca ∧ low ≤ bit ∧ low ≤ bit2 ∧ low ≤ bit3 ∧ low ≤ bit4 ∧ low ≤ inner) ∧
      (setVal < inner ∧ bitAlloca < inner ∧ setVal ≠ bitAlloca) ∧
      (∀ temp ∈ [bit, bit2, bit3, bit4], setVal ≠ temp ∧ bitAlloca ≠ temp) ∧ p = condBB.start ∧
      (Instruction.calc bit fun temps => temps bitAlloca).At code p ∧
      (Terminator.condBr (fun temps => decide (temps bit < PlangMaxSetElements)) testBB endBB).At
        code p.next ∧
      (Instruction.calc bit2 fun temps => temps bitAlloca).At code testBB.start ∧
      (Terminator.condBr (fun temps => control.isMem (temps setVal) (temps bit2)) bodyBB incBB).At
        code testBB.start.next ∧
      (Instruction.calc bit3 fun temps => temps bitAlloca).At code bodyBB.start ∧
      (Instruction.act fun temps s => .ok (control.store (temps bit3) s)).At code
        bodyBB.start.next ∧
      body (⟨incBB, endBB⟩ :: loops) inner bodyBB.start.next.next o ∧ Joins code o incBB ∧
      (Instruction.calc bit4 fun temps => temps bitAlloca).At code incBB.start ∧
      (Instruction.calc bitAlloca fun temps => temps bit4 + 1).At code incBB.start.next ∧
      (Terminator.br condBB).At code incBB.start.next.next ∧ q = some endBB.start

mutual

/-- The code of a statement stands at a place, and is left at another one. -/
def StmtNode.Stands : StmtNode σ → Statements.Stands
  | .empty, _, _, p, q => q = some p
  | .simple run, _, _, p, q => (Instruction.act fun _ => run).At code p ∧ q = some p.next
  | .halt run, _, _, p, q => (Instruction.act fun _ s => .error (run s)).At code p ∧ q = none
  | .compound stmts, loops, low, p, q => stmts.Stands loops low (some p) q
  | .ifThen cond thenPart, loops, low, p, q =>
      ∃ temp inner thenBB endBB o, (low ≤ temp ∧ low ≤ inner) ∧
        (Instruction.eval temp cond).At code p ∧
        (Terminator.condBr (isTrue temp) thenBB endBB).At code p.next ∧
        thenPart.Stands loops inner thenBB.start o ∧ Joins code o endBB ∧ q = some endBB.start
  | .ifElse cond thenPart elsePart, loops, low, p, q =>
      ∃ temp inner inner' thenBB elseBB endBB o o', (low ≤ temp ∧ low ≤ inner ∧ low ≤ inner') ∧
        (Instruction.eval temp cond).At code p ∧
        (Terminator.condBr (isTrue temp) thenBB elseBB).At code p.next ∧
        (thenPart.Stands loops inner thenBB.start o ∧ Joins code o endBB) ∧
        (elsePart.Stands loops inner' elseBB.start o' ∧ Joins code o' endBB) ∧
        q = some endBB.start
  | .whileStmt cond body, loops, low, p, q =>
      ∃ condBB, (Terminator.br condBB).At code p ∧
        WhileStands code cond body.Stands loops low condBB.start q
  | .repeatStmt stmts cond, loops, low, p, q =>
      ∃ bodyBB, (Terminator.br bodyBB).At code p ∧
        RepeatStands code cond stmts.Stands loops low bodyBB.start q
  | .forStmt control start limit body, loops, low, p, q =>
      ∃ fromVal limitVal inner condBB, (low ≤ fromVal ∧ low ≤ limitVal ∧ low ≤ inner) ∧
        fromVal ≠ limitVal ∧ (Instruction.eval fromVal start).At code p ∧
        (Instruction.eval limitVal limit).At code p.next ∧
        (Instruction.act fun temps s => .ok (control.store (temps fromVal) s)).At code p.next.next ∧
        (Terminator.br condBB).At code p.next.next.next ∧
        ForStands code control limitVal body.Stands loops inner condBB.start q
  | .forInStmt control setExpr body, loops, low, p, q =>
      ∃ setVal bitAlloca inner condBB, (low ≤ setVal ∧ low ≤ bitAlloca ∧ low ≤ inner) ∧
        setVal ≠ bitAlloca ∧ (Instruction.eval setVal setExpr).At code p ∧
        (Instruction.calc bitAlloca fun _ => 0).At code p.next ∧
        (Terminator.br condBB).At code p.next.next ∧
        ForInStands code control setVal bitAlloca body.Stands loops inner condBB.start q
  | .withStmt records body, loops, low, p, q =>
      (Instruction.act fun _ => records).At code p ∧ body.Stands loops low p.next q
  | .caseStmt selector arms, loops, low, p, q =>
      ∃ sel inner nextBB endBB, (low ≤ sel ∧ low ≤ inner) ∧
        (Instruction.eval sel selector).At code p ∧
        (Terminator.br nextBB).At code p.next ∧ arms.Stands sel endBB loops inner nextBB.start ∧
        q = some endBB.start
  | .gotoStmt label, _, _, p, q => (Terminator.br (.named label)).At code p ∧ q = none
  | .labeled label stmt, loops, low, p, q =>
      (Terminator.br (.named label)).At code p ∧
        stmt.Stands loops low (BlockId.named label).start q
  | .breakStmt, loops, _, p, q =>
      ∃ targets outer, loops = targets :: outer ∧ (Terminator.br targets.breakBB).At code p ∧
        q = none
  | .continueStmt, loops, _, p, q =>
      ∃ targets outer, loops = targets :: outer ∧ (Terminator.br targets.continueBB).At code p ∧
        q = none
  | .exitStmt assign, _, _, p, q =>
      (Instruction.act fun _ => assign).At code p ∧ (Terminator.br exitBlock).At code p.next ∧
        q = none

/-- A list may begin where nothing comes to. -/
def StmtList.Stands : StmtList σ → List LoopTargets → Nat → Option (Place Label) →
    Option (Place Label) → Prop
  | .nil, _, _, p, q => q = p
  | .cons stmt rest, loops, low, p, q =>
      ∃ inner inner' p' q', (low ≤ inner ∧ low ≤ inner') ∧ (∀ place, p = some place → p' = place) ∧
        stmt.Stands loops inner p' q' ∧ rest.Stands loops inner' q' q

def ArmList.Stands : ArmList σ → Nat → BlockId Label → List LoopTargets → Nat → Place Label → Prop
  | .otherwise stmt, _, endBB, loops, low, p =>
      ∃ o, stmt.Stands loops low p o ∧ Joins code o endBB
  | .plang_err_no_case report, sel, _, _, _, p =>
      (Instruction.act fun temps s => .error (report (temps sel) s)).At code p
  | .arm labels body rest, sel, endBB, loops, low, p =>
      ∃ inner armBB testBB o, low ≤ inner ∧
        (Terminator.condBr (fun temps => labels.any (CaseLabel.matches (temps sel))) armBB
          testBB).At
          code p ∧
        (body.Stands loops low armBB.start o ∧ Joins code o endBB) ∧
        rest.Stands sel endBB loops inner testBB.start

end

attribute [simp] StmtNode.labels

end Plang.CodeGen.Statements
