import Plang.CodeGen.StatementCode

/-!
# What statements do

A statement is done, or ends in a jump: out of a loop, to a label, out of the procedure or the
program.  A list of statements goes on at a label of its own; a labelled statement does so too.
-/

namespace Plang.CodeGen.Statements

open BasicBlocks Labels

universe u

variable {σ : Type u}

/-- How a statement ends. -/
inductive Outcome where
  | done
  | broke
  | continued
  | exited
  | jumped (label : Label)
  | stopped
  deriving DecidableEq

/-- The loop that the statement stands in goes on. -/
def Outcome.goesOn : Outcome → Bool
  | .done | .continued => true
  | _ => false

/-- The loop that the statement stands in is left, and what is around it too. -/
def Outcome.leaves : Outcome → Bool
  | .exited | .jumped _ | .stopped => true
  | _ => false

mutual

/-- The rest of a statement from one of its labels on, where a list that the statement stands in
comes to it. -/
def StmtNode.behind (label : Label) : StmtNode σ → Option (StmtNode σ)
  | .labeled own stmt => if own = label then some stmt else stmt.behind label
  | .compound stmts => (stmts.goingOn label).map .compound
  | _ => none

/-- The rest of a list from a label of one of its statements on. -/
def StmtList.goingOn (label : Label) : StmtList σ → Option (StmtList σ)
  | .nil => none
  | .cons stmt rest =>
      match stmt.behind label with
      | some inner => some (.cons inner rest)
      | none => rest.goingOn label

end

/-! ### Labels and legal jumps -/

mutual

/-- The labels of a statement that lists around it come to. -/
def StmtNode.marks : StmtNode σ → List Label
  | .labeled label stmt => label :: stmt.marks
  | .compound stmts => stmts.marks
  | _ => []

def StmtList.marks : StmtList σ → List Label
  | .nil => []
  | .cons stmt rest => stmt.marks ++ rest.marks

end

mutual

/-- All labels in a statement. -/
def StmtNode.labels : StmtNode σ → List Label
  | .labeled label stmt => label :: stmt.labels
  | .compound stmts => stmts.labels
  | .ifThen _ thenPart => thenPart.labels
  | .ifElse _ thenPart elsePart => thenPart.labels ++ elsePart.labels
  | .whileStmt _ body => body.labels
  | .repeatStmt stmts _ => stmts.labels
  | .forStmt _ _ _ body => body.labels
  | .forInStmt _ _ body => body.labels
  | .withStmt _ body => body.labels
  | .caseStmt _ arms => arms.labels
  | _ => []

def StmtList.labels : StmtList σ → List Label
  | .nil => []
  | .cons stmt rest => stmt.labels ++ rest.labels

def ArmList.labels : ArmList σ → List Label
  | .otherwise stmt => stmt.labels
  | .plang_err_no_case _ => []
  | .arm _ body rest => body.labels ++ rest.labels

end

mutual

/-- Every goto is to a label that it stands behind, or that marks a statement of a list around it;
`Break` and `Continue` are in loops. -/
def StmtNode.Legal (inLoop : Bool) (visible : List Label) : StmtNode σ → Prop
  | .empty | .simple _ | .halt _ | .exitStmt _ => True
  | .compound stmts => stmts.Legal inLoop (stmts.marks ++ visible)
  | .ifThen _ thenPart => thenPart.Legal inLoop visible
  | .ifElse _ thenPart elsePart => thenPart.Legal inLoop visible ∧ elsePart.Legal inLoop visible
  | .whileStmt _ body => body.Legal true visible
  | .repeatStmt stmts _ => stmts.Legal true (stmts.marks ++ visible)
  | .forStmt _ _ _ body => body.Legal true visible
  | .forInStmt _ _ body => body.Legal true visible
  | .withStmt _ body => body.Legal inLoop visible
  | .caseStmt _ arms => arms.Legal inLoop visible
  | .gotoStmt label => label ∈ visible
  | .labeled label stmt => stmt.Legal inLoop (label :: visible)
  | .breakStmt | .continueStmt => inLoop = true

def StmtList.Legal (inLoop : Bool) (visible : List Label) : StmtList σ → Prop
  | .nil => True
  | .cons stmt rest => stmt.Legal inLoop visible ∧ rest.Legal inLoop visible

def ArmList.Legal (inLoop : Bool) (visible : List Label) : ArmList σ → Prop
  | .otherwise stmt => stmt.Legal inLoop visible
  | .plang_err_no_case _ => True
  | .arm _ body rest => body.Legal inLoop visible ∧ rest.Legal inLoop visible

end

/-! ### Execution -/

/-- The things that are executed: a statement, or something that a statement has come to. -/
inductive Node (σ : Type u) where
  | stmt (stmt : StmtNode σ)
  /-- A labelled statement, behind its label. -/
  | within (label : Label) (stmt : StmtNode σ)
  /-- The rest of a list. -/
  | seq (whole rest : StmtList σ)
  | whileAt (cond : ExprNode σ) (body : StmtNode σ)
  | repeatAt (stmts : StmtList σ) (cond : ExprNode σ)
  /-- A for-statement whose control variable has a value. -/
  | forAt (control : Control σ) (limit : Int) (body : StmtNode σ)
  /-- A for-statement over a set that has come to a bit. -/
  | forInAt (control : SetControl σ) (set bit : Int) (body : StmtNode σ)
  /-- The arms that are left for a selector. -/
  | arms (sel : Int) (arms : ArmList σ)

/-- The execution of a node from a state ends in an outcome, with a state. -/
inductive Exec : Node σ → σ → Outcome → σ → Prop
  | empty (s : σ) : Exec (.stmt .empty) s .done s
  | simple {run : σ → Except σ σ} {s s' : σ} (ok : run s = .ok s') :
      Exec (.stmt (.simple run)) s .done s'
  | simpleStops {run : σ → Except σ σ} {s s' : σ} (error : run s = .error s') :
      Exec (.stmt (.simple run)) s .stopped s'
  | halt (run : σ → σ) (s : σ) : Exec (.stmt (.halt run)) s .stopped (run s)
  | compound {stmts : StmtList σ} {s s' : σ} {o : Outcome} (list : Exec (.seq stmts stmts) s o s') :
      Exec (.stmt (.compound stmts)) s o s'
  | thenStops {cond : ExprNode σ} {thenPart : StmtNode σ} {s s' : σ} (error : cond s = .error s') :
      Exec (.stmt (.ifThen cond thenPart)) s .stopped s'
  | thenTaken {cond : ExprNode σ} {thenPart : StmtNode σ} {s s₁ s' : σ} {v : Int} {o : Outcome}
      (test : cond s = .ok (v, s₁)) (holds : v ≠ 0) (part : Exec (.stmt thenPart) s₁ o s') :
      Exec (.stmt (.ifThen cond thenPart)) s o s'
  | thenSkipped {cond : ExprNode σ} {thenPart : StmtNode σ} {s s₁ : σ}
      (test : cond s = .ok (0, s₁)) : Exec (.stmt (.ifThen cond thenPart)) s .done s₁
  | elseStops {cond : ExprNode σ} {thenPart elsePart : StmtNode σ} {s s' : σ}
      (error : cond s = .error s') : Exec (.stmt (.ifElse cond thenPart elsePart)) s .stopped s'
  | elseThen {cond : ExprNode σ} {thenPart elsePart : StmtNode σ} {s s₁ s' : σ} {v : Int}
      {o : Outcome} (test : cond s = .ok (v, s₁)) (holds : v ≠ 0)
      (part : Exec (.stmt thenPart) s₁ o s') : Exec (.stmt (.ifElse cond thenPart elsePart)) s o s'
  | elseTaken {cond : ExprNode σ} {thenPart elsePart : StmtNode σ} {s s₁ s' : σ} {o : Outcome}
      (test : cond s = .ok (0, s₁)) (part : Exec (.stmt elsePart) s₁ o s') :
      Exec (.stmt (.ifElse cond thenPart elsePart)) s o s'
  | whileStmt {cond : ExprNode σ} {body : StmtNode σ} {s s' : σ} {o : Outcome}
      (loop : Exec (.whileAt cond body) s o s') : Exec (.stmt (.whileStmt cond body)) s o s'
  | whileStops {cond : ExprNode σ} {body : StmtNode σ} {s s' : σ} (error : cond s = .error s') :
      Exec (.whileAt cond body) s .stopped s'
  | whileEnds {cond : ExprNode σ} {body : StmtNode σ} {s s₁ : σ} (test : cond s = .ok (0, s₁)) :
      Exec (.whileAt cond body) s .done s₁
  | whileAround {cond : ExprNode σ} {body : StmtNode σ} {s s₁ s₂ s' : σ} {v : Int} {o o' : Outcome}
      (test : cond s = .ok (v, s₁)) (holds : v ≠ 0) (round : Exec (.stmt body) s₁ o s₂)
      (on : o.goesOn = true) (again : Exec (.whileAt cond body) s₂ o' s') :
      Exec (.whileAt cond body) s o' s'
  | whileBroke {cond : ExprNode σ} {body : StmtNode σ} {s s₁ s' : σ} {v : Int}
      (test : cond s = .ok (v, s₁)) (holds : v ≠ 0) (round : Exec (.stmt body) s₁ .broke s') :
      Exec (.whileAt cond body) s .done s'
  | whileLeft {cond : ExprNode σ} {body : StmtNode σ} {s s₁ s' : σ} {v : Int} {o : Outcome}
      (test : cond s = .ok (v, s₁)) (holds : v ≠ 0) (round : Exec (.stmt body) s₁ o s')
      (out : o.leaves = true) : Exec (.whileAt cond body) s o s'
  | repeatStmt {stmts : StmtList σ} {cond : ExprNode σ} {s s' : σ} {o : Outcome}
      (loop : Exec (.repeatAt stmts cond) s o s') : Exec (.stmt (.repeatStmt stmts cond)) s o s'
  | repeatStops {stmts : StmtList σ} {cond : ExprNode σ} {s s₁ s' : σ} {o : Outcome}
      (round : Exec (.seq stmts stmts) s o s₁) (on : o.goesOn = true)
        (error : cond s₁ = .error s') :
      Exec (.repeatAt stmts cond) s .stopped s'
  | repeatEnds {stmts : StmtList σ} {cond : ExprNode σ} {s s₁ s' : σ} {v : Int} {o : Outcome}
      (round : Exec (.seq stmts stmts) s o s₁) (on : o.goesOn = true)
      (test : cond s₁ = .ok (v, s')) (holds : v ≠ 0) : Exec (.repeatAt stmts cond) s .done s'
  | repeatAround {stmts : StmtList σ} {cond : ExprNode σ} {s s₁ s₂ s' : σ} {o o' : Outcome}
      (round : Exec (.seq stmts stmts) s o s₁) (on : o.goesOn = true)
      (test : cond s₁ = .ok (0, s₂)) (again : Exec (.repeatAt stmts cond) s₂ o' s') :
      Exec (.repeatAt stmts cond) s o' s'
  | repeatBroke {stmts : StmtList σ} {cond : ExprNode σ} {s s' : σ}
      (round : Exec (.seq stmts stmts) s .broke s') : Exec (.repeatAt stmts cond) s .done s'
  | repeatLeft {stmts : StmtList σ} {cond : ExprNode σ} {s s' : σ} {o : Outcome}
      (round : Exec (.seq stmts stmts) s o s') (out : o.leaves = true) :
      Exec (.repeatAt stmts cond) s o s'
  | startStops {control : Control σ} {start limit : ExprNode σ} {body : StmtNode σ} {s s' : σ}
      (error : start s = .error s') : Exec (.stmt (.forStmt control start limit body)) s .stopped s'
  | limitStops {control : Control σ} {start limit : ExprNode σ} {body : StmtNode σ} {s s₁ s' : σ}
      {first : Int} (from_value : start s = .ok (first, s₁)) (error : limit s₁ = .error s') :
      Exec (.stmt (.forStmt control start limit body)) s .stopped s'
  | forStmt {control : Control σ} {start limit : ExprNode σ} {body : StmtNode σ} {s s₁ s₂ s' : σ}
      {first last : Int} {o : Outcome} (from_value : start s = .ok (first, s₁))
      (limit_value : limit s₁ = .ok (last, s₂))
      (loop : Exec (.forAt control last body) (control.store first s₂) o s') :
      Exec (.stmt (.forStmt control start limit body)) s o s'
  | forEnds {control : Control σ} {last : Int} {body : StmtNode σ} {s : σ}
      (past : control.cmp (control.load s) last = false) :
      Exec (.forAt control last body) s .done s
  | forLast {control : Control σ} {last : Int} {body : StmtNode σ} {s s' : σ} {o : Outcome}
      (inside : control.cmp (control.load s) last = true) (round : Exec (.stmt body) s o s')
      (on : o.goesOn = true) (at_limit : control.load s' = last) :
      Exec (.forAt control last body) s .done s'
  | forAround {control : Control σ} {last : Int} {body : StmtNode σ} {s s₁ s' : σ} {o o' : Outcome}
      (inside : control.cmp (control.load s) last = true) (round : Exec (.stmt body) s o s₁)
      (on : o.goesOn = true) (below : control.load s₁ ≠ last)
      (again : Exec (.forAt control last body) (control.store (control.next (control.load s₁)) s₁)
        o' s') :
      Exec (.forAt control last body) s o' s'
  | forBroke {control : Control σ} {last : Int} {body : StmtNode σ} {s s' : σ}
      (inside : control.cmp (control.load s) last = true) (round : Exec (.stmt body) s .broke s') :
      Exec (.forAt control last body) s .done s'
  | forLeft {control : Control σ} {last : Int} {body : StmtNode σ} {s s' : σ} {o : Outcome}
      (inside : control.cmp (control.load s) last = true) (round : Exec (.stmt body) s o s')
      (out : o.leaves = true) : Exec (.forAt control last body) s o s'
  | setStops {control : SetControl σ} {setExpr : ExprNode σ} {body : StmtNode σ} {s s' : σ}
      (error : setExpr s = .error s') :
      Exec (.stmt (.forInStmt control setExpr body)) s .stopped s'
  | forInStmt {control : SetControl σ} {setExpr : ExprNode σ} {body : StmtNode σ} {s s₁ s' : σ}
      {set : Int} {o : Outcome} (value : setExpr s = .ok (set, s₁))
      (loop : Exec (.forInAt control set 0 body) s₁ o s') :
      Exec (.stmt (.forInStmt control setExpr body)) s o s'
  | forInEnds {control : SetControl σ} {set bit : Int} {body : StmtNode σ} {s : σ}
      (past : ¬bit < PlangMaxSetElements) : Exec (.forInAt control set bit body) s .done s
  | forInSkips {control : SetControl σ} {set bit : Int} {body : StmtNode σ} {s s' : σ}
      {o : Outcome} (more : bit < PlangMaxSetElements) (out : control.isMem set bit = false)
      (again : Exec (.forInAt control set (bit + 1) body) s o s') :
      Exec (.forInAt control set bit body) s o s'
  | forInAround {control : SetControl σ} {set bit : Int} {body : StmtNode σ} {s s₁ s' : σ}
      {o o' : Outcome} (more : bit < PlangMaxSetElements) (isMem : control.isMem set bit = true)
      (round : Exec (.stmt body) (control.store bit s) o s₁) (on : o.goesOn = true)
      (again : Exec (.forInAt control set (bit + 1) body) s₁ o' s') :
      Exec (.forInAt control set bit body) s o' s'
  | forInBroke {control : SetControl σ} {set bit : Int} {body : StmtNode σ} {s s' : σ}
      (more : bit < PlangMaxSetElements) (isMem : control.isMem set bit = true)
      (round : Exec (.stmt body) (control.store bit s) .broke s') :
      Exec (.forInAt control set bit body) s .done s'
  | forInLeft {control : SetControl σ} {set bit : Int} {body : StmtNode σ} {s s' : σ} {o : Outcome}
      (more : bit < PlangMaxSetElements) (isMem : control.isMem set bit = true)
      (round : Exec (.stmt body) (control.store bit s) o s') (out : o.leaves = true) :
      Exec (.forInAt control set bit body) s o s'
  | recordsStop {records : σ → Except σ σ} {body : StmtNode σ} {s s' : σ}
      (error : records s = .error s') : Exec (.stmt (.withStmt records body)) s .stopped s'
  | withStmt {records : σ → Except σ σ} {body : StmtNode σ} {s s₁ s' : σ} {o : Outcome}
      (ok : records s = .ok s₁) (part : Exec (.stmt body) s₁ o s') :
      Exec (.stmt (.withStmt records body)) s o s'
  | selectorStops {selector : ExprNode σ} {arms : ArmList σ} {s s' : σ}
      (error : selector s = .error s') : Exec (.stmt (.caseStmt selector arms)) s .stopped s'
  | caseStmt {selector : ExprNode σ} {arms : ArmList σ} {s s₁ s' : σ} {sel : Int} {o : Outcome}
      (value : selector s = .ok (sel, s₁)) (chosen : Exec (.arms sel arms) s₁ o s') :
      Exec (.stmt (.caseStmt selector arms)) s o s'
  | otherwise {sel : Int} {stmt : StmtNode σ} {s s' : σ} {o : Outcome}
      (part : Exec (.stmt stmt) s o s') : Exec (.arms sel (.otherwise stmt)) s o s'
  | noCase (sel : Int) (report : Int → σ → σ) (s : σ) :
      Exec (.arms sel (.plang_err_no_case report)) s .stopped (report sel s)
  | armTaken {sel : Int} {labels : List CaseLabel} {body : StmtNode σ} {rest : ArmList σ} {s s' : σ}
      {o : Outcome} (hit : labels.any (CaseLabel.matches sel) = true)
      (part : Exec (.stmt body) s o s') : Exec (.arms sel (.arm labels body rest)) s o s'
  | armPassed {sel : Int} {labels : List CaseLabel} {body : StmtNode σ} {rest : ArmList σ}
      {s s' : σ} {o : Outcome} (miss : labels.any (CaseLabel.matches sel) = false)
      (others : Exec (.arms sel rest) s o s') : Exec (.arms sel (.arm labels body rest)) s o s'
  | gotoStmt (label : Label) (s : σ) : Exec (.stmt (.gotoStmt label)) s (.jumped label) s
  | labeled {label : Label} {stmt : StmtNode σ} {s s' : σ} {o : Outcome}
      (inner : Exec (.within label stmt) s o s') : Exec (.stmt (.labeled label stmt)) s o s'
  | withinOnce {label : Label} {stmt : StmtNode σ} {s s' : σ} {o : Outcome}
      (part : Exec (.stmt stmt) s o s') (other : o ≠ .jumped label) :
      Exec (.within label stmt) s o s'
  | withinAgain {label : Label} {stmt : StmtNode σ} {s s₁ s' : σ} {o : Outcome}
      (part : Exec (.stmt stmt) s (.jumped label) s₁) (again : Exec (.within label stmt) s₁ o s') :
      Exec (.within label stmt) s o s'
  | breakStmt (s : σ) : Exec (.stmt .breakStmt) s .broke s
  | continueStmt (s : σ) : Exec (.stmt .continueStmt) s .continued s
  | exitStmt {assign : σ → Except σ σ} {s s' : σ} (ok : assign s = .ok s') :
      Exec (.stmt (.exitStmt assign)) s .exited s'
  | exitStops {assign : σ → Except σ σ} {s s' : σ} (error : assign s = .error s') :
      Exec (.stmt (.exitStmt assign)) s .stopped s'
  | seqNil (whole : StmtList σ) (s : σ) : Exec (.seq whole .nil) s .done s
  | seqOn {whole rest : StmtList σ} {stmt : StmtNode σ} {s s₁ s' : σ} {o : Outcome}
      (head : Exec (.stmt stmt) s .done s₁) (tail : Exec (.seq whole rest) s₁ o s') :
      Exec (.seq whole (.cons stmt rest)) s o s'
  | seqJump {whole rest target : StmtList σ} {stmt : StmtNode σ} {s s₁ s' : σ} {label : Label}
      {o : Outcome} (head : Exec (.stmt stmt) s (.jumped label) s₁)
      (caught : whole.goingOn label = some target) (tail : Exec (.seq whole target) s₁ o s') :
      Exec (.seq whole (.cons stmt rest)) s o s'
  | seqOut {whole rest : StmtList σ} {stmt : StmtNode σ} {s s' : σ} {o : Outcome}
      (head : Exec (.stmt stmt) s o s') (out : o ≠ .done)
      (free : ∀ label, o = .jumped label → whole.goingOn label = none) :
      Exec (.seq whole (.cons stmt rest)) s o s'

/-- A procedure that ends: it returns, from the end of its statements or through `Exit`, or the
program is stopped in it. -/
inductive Runs (stmts : StmtList σ) (s : σ) : Config σ Label → Prop
  | returned {s' : σ} {o : Outcome} (list : Exec (.seq stmts stmts) s o s')
      (back : o = .done ∨ o = .exited) : Runs stmts s (.returned s')
  | stopped {s' : σ} (list : Exec (.seq stmts stmts) s .stopped s') : Runs stmts s (.stopped s')

end Plang.CodeGen.Statements
