import Plang.Parse.StmtStructured

/-!
# Statements are read back

What is written of a statement is read as the statement, all of it and nothing more.  An `else` goes
with the nearest conditional in front of it that has none.
-/

namespace Plang.Statements

open Expressions Fuel

variable {ctx : Context} {manner : StmtManner} {state after : StmtState}
  {tokens rest : List Expressions.Token} {kind : TokenKind} {text : Text} {expr : ExprNode}
  {stmt : StmtNode} {stmts : List StmtNode} {depth : Nat}

/-! ### Every statement -/

/-- A statement is read back, and so are the statements that a compound statement or an arm has. -/
def Recovered (ctx : Context) (manner : StmtManner) : StmtNode → Prop
  | .arm labels body => ArmReads ctx manner (.arm labels body)
  | .compound stmts => Listed ctx manner stmts
  | stmt => StmtReads ctx manner stmt

theorem Recovered.reads (recovered : Recovered ctx manner stmt) (whole : stmt.isArm = false) :
    StmtReads ctx manner stmt := by
  cases stmt with
  | arm labels body => cases whole
  | compound stmts => exact compound_reads recovered
  | _ => exact recovered

mutual

theorem recovered : ∀ stmt, hasStmt ctx manner stmt = true → Recovered ctx manner stmt
  | .null, _ => null_reads
  | .compound stmts, present => by
      simp only [hasStmt, Bool.and_eq_true, List.all_eq_true, Bool.not_eq_true'] at present
      exact fun stmt listed => ⟨(present.2 stmt listed).1,
        (all_recovered stmts present.1 stmt listed).reads (present.2 stmt listed).2⟩
  | .assign _ _, present => assign_reads present
  | .call _ _, present => call_reads present
  | .methodCall _ _ _, present => methodCall_reads present
  | .indirectCall _ _, present => indirectCall_reads present
  | .inheritedCall _ _, present => inheritedCall_reads present
  | .ifStmt cond thenStmt elseStmt, present => by
      simp only [hasStmt, Bool.and_eq_true, Bool.or_eq_true, Bool.not_eq_true'] at present
      obtain ⟨⟨⟨⟨⟨cond_present, then_present⟩, else_present⟩, then_whole⟩, else_whole⟩, closed⟩ :=
        present
      exact ifStmt_reads cond_present ((recovered thenStmt then_present).reads then_whole)
        ((recovered elseStmt else_present).reads else_whole) closed
  | .whileStmt cond body, present => by
      simp only [hasStmt, Bool.and_eq_true, Bool.not_eq_true'] at present
      obtain ⟨⟨cond_present, body_present⟩, whole⟩ := present
      exact whileStmt_reads cond_present ((recovered body body_present).reads whole)
  | .repeatStmt stmts cond, present => by
      simp only [hasStmt, Bool.and_eq_true, List.all_eq_true, Bool.not_eq_true'] at present
      obtain ⟨⟨stmts_present, each⟩, cond_present⟩ := present
      exact repeatStmt_reads cond_present fun stmt listed => ⟨(each stmt listed).1,
        (all_recovered stmts stmts_present stmt listed).reads (each stmt listed).2⟩
  | .forStmt _ start limit _ body, present => by
      simp only [hasStmt, Bool.and_eq_true, Bool.not_eq_true'] at present
      obtain ⟨⟨⟨start_present, limit_present⟩, body_present⟩, whole⟩ := present
      exact forStmt_reads start_present limit_present ((recovered body body_present).reads whole)
  | .forInStmt _ setExpr body, present => by
      simp only [hasStmt, Bool.and_eq_true, Bool.not_eq_true'] at present
      obtain ⟨⟨⟨extended, set_present⟩, body_present⟩, whole⟩ := present
      exact forInStmt_reads extended set_present ((recovered body body_present).reads whole)
  | .withStmt records body, present => by
      simp only [hasStmt, Bool.and_eq_true, Bool.not_eq_true', List.isEmpty_eq_false_iff] at present
      obtain ⟨⟨⟨ne, records_present⟩, body_present⟩, whole⟩ := present
      exact withStmt_reads ne records_present ((recovered body body_present).reads whole)
  | .caseStmt selector arms hasElse elseStmt, present => by
      simp only [hasStmt, Bool.and_eq_true, List.all_eq_true, Bool.not_eq_true'] at present
      obtain ⟨⟨⟨⟨⟨selector_present, arms_present⟩, each⟩, else_present⟩, else_whole⟩, completed⟩ :=
        present
      have else_recovered := recovered elseStmt else_present
      apply caseStmt_reads selector_present
      · intro arm listed
        have arm_recovered := all_recovered arms arms_present arm listed
        have is_arm := each arm listed
        cases arm with
        | arm labels body => exact arm_recovered
        | _ => cases is_arm
      · rintro rfl
        rw [if_pos rfl, Bool.and_eq_true] at completed
        refine ⟨completed.1, else_recovered.reads else_whole, fun turbo => ?_⟩
        have compound : isCompound elseStmt = true := by simpa [turbo] using completed.2
        cases elseStmt with
        | compound stmts => exact ⟨stmts, rfl, else_recovered⟩
        | _ => cases compound
      · rintro rfl
        rw [if_neg Bool.false_ne_true] at completed
        cases elseStmt <;> first | rfl | cases completed
  | .arm labels body, present => by
      simp only [hasStmt, Bool.and_eq_true, Bool.not_eq_true', List.isEmpty_eq_false_iff] at present
      obtain ⟨⟨⟨ne, labels_present⟩, body_present⟩, whole⟩ := present
      exact ⟨labels, body, rfl, ne, labels_present, (recovered body body_present).reads whole⟩
  | .gotoStmt _, present => gotoStmt_reads present
  | .labeled label stmt, present => by
      simp only [hasStmt, Bool.and_eq_true, Bool.not_eq_true', decide_eq_true_eq] at present
      obtain ⟨⟨canonical, stmt_present⟩, whole⟩ := present
      exact labeled_reads canonical ((recovered stmt stmt_present).reads whole)

theorem all_recovered : ∀ stmts, hasStmts ctx manner stmts = true →
    ∀ stmt ∈ stmts, Recovered ctx manner stmt
  | [], _, _, listed => absurd listed List.not_mem_nil
  | stmt :: stmts, present, other, listed => by
      rw [hasStmts, Bool.and_eq_true] at present
      rcases List.mem_cons.mp listed with same | listed
      · rw [same]
        exact recovered stmt present.1
      · exact all_recovered stmts present.2 other listed

end

/-- A statement of the dialect is read from what is written of it. -/
theorem parseStatement_write (ctx : Context) (manner : StmtManner) (stmt : StmtNode)
    (present : hasStmt ctx manner stmt = true) (whole : stmt.isArm = false) (state : StmtState)
    (rest : List Expressions.Token) (ready : Ready (stmt.depth ctx.opts.turbo) state)
    (ends : endsStmt (headKind rest) = true)
    (alone : stmt.isOpen = true → headKind rest ≠ .Else) :
    ∃ enough, ∀ fuel, enough ≤ fuel →
      (stmtParsers ctx fuel).parseStatement
        (state.reading (writeStmt ctx manner stmt ++ rest)) = some (stmt, state.reading rest) :=
  (recovered stmt present).reads whole state rest ready ends alone

def startStmtState : StmtState where
  toParserState := startState
  stmtErrors := []
  stmtDepth := 0
  stmtDepthLimitHit := false

theorem ready_startStmtState (shallow : depth ≤ MaxStmtDepth) : Ready depth startStmtState where
  idle := ⟨rfl, rfl, rfl, rfl⟩
  depth_le := by
    change 0 + depth ≤ MaxStmtDepth
    omega
  limit := rfl

/-- Two statements of the dialect are not written alike. -/
theorem writeStmt_inj {other : StmtNode} (present : hasStmt ctx manner stmt = true)
    (other_present : hasStmt ctx manner other = true) (whole : stmt.isArm = false)
    (other_whole : other.isArm = false) (shallow : stmt.depth ctx.opts.turbo ≤ MaxStmtDepth)
    (other_shallow : other.depth ctx.opts.turbo ≤ MaxStmtDepth)
    (same : writeStmt ctx manner stmt = writeStmt ctx manner other) : stmt = other := by
  have ends : endsStmt (headKind []) = true := rfl
  have alone : headKind [] ≠ .Else := TokenKind.noConfusion
  obtain ⟨enough, read⟩ := (recovered stmt present).reads whole startStmtState []
    (ready_startStmtState shallow) ends fun _ => alone
  obtain ⟨more, other_read⟩ := (recovered other other_present).reads other_whole startStmtState []
    (ready_startStmtState other_shallow) ends fun _ => alone
  have first := read (max enough more) (Nat.le_max_left _ _)
  have second := other_read (max enough more) (Nat.le_max_right _ _)
  rw [same, second, Option.some.injEq, Prod.mk.injEq] at first
  exact first.1.symm

/-- An `else` is written alike whichever of two conditionals it belongs to. -/
theorem writeStmt_danglingElse (cond inner : ExprNode) (stmt elseStmt : StmtNode) :
    writeStmt ctx manner (.ifStmt cond (.ifStmt inner stmt .null) elseStmt) =
      writeStmt ctx manner (.ifStmt cond (.ifStmt inner stmt elseStmt) .null) := by
  simp [writeStmt, StmtNode.isNull]

/-- A dangling `else` is read as that of the inner conditional. -/
theorem danglingElse_reads {cond inner : ExprNode} {elseStmt : StmtNode}
    (present : hasStmt ctx manner (.ifStmt cond (.ifStmt inner stmt elseStmt) .null) = true)
    (ready : Ready ((StmtNode.ifStmt cond (.ifStmt inner stmt elseStmt) .null).depth
      ctx.opts.turbo) state)
    (ends : endsStmt (headKind rest) = true) (other : headKind rest ≠ .Else) :
    Comes (fun fuel => (stmtParsers ctx fuel).parseStatement)
      (state.reading (writeStmt ctx manner (.ifStmt cond (.ifStmt inner stmt .null) elseStmt) ++
        rest)) (.ifStmt cond (.ifStmt inner stmt elseStmt) .null) (state.reading rest) := by
  rw [writeStmt_danglingElse cond inner stmt elseStmt]
  exact (recovered _ present).reads rfl state rest ready ends fun _ => other

/-- `else` in front of a completer, and a semicolon behind the last of several statements. -/
def plainStmtManner : StmtManner where
  toManner := plainManner
  otherwiseWord := false
  lastSemicolon := true

/-- `repeat case c of a..b: if p then if q then x := y else Halt; else Write(x:y); end; until p` -/
def repeatedCase : StmtNode :=
  .repeatStmt
    [.caseStmt (plainIdent "c")
      [.arm [⟨plainIdent "a", some (plainIdent "b")⟩]
        (.ifStmt (plainIdent "p")
          (.ifStmt (plainIdent "q") (.assign (plainIdent "x") (plainIdent "y"))
            (.call ⟨none, "Halt".toList⟩ []))
          .null)]
      true
      (.compound [.call ⟨none, "Write".toList⟩
        [.writeParam (plainIdent "x") (plainIdent "y") none]])]
    (plainIdent "p")

theorem parseStatement_repeatedCase : ∃ enough, ∀ fuel, enough ≤ fuel →
    (stmtParsers (dialect .Turbo) fuel).parseStatement
      (startStmtState.reading (writeStmt (dialect .Turbo) plainStmtManner repeatedCase ++ [])) =
        some (repeatedCase, startStmtState.reading []) :=
  parseStatement_write (dialect .Turbo) plainStmtManner repeatedCase (by decide) rfl startStmtState []
    (ready_startStmtState (by decide)) rfl fun _ => TokenKind.noConfusion

end Plang.Statements
