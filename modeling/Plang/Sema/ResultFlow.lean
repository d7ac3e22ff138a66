import Plang.Library.StructuredFlow
import Plang.Sema.Flow

/-!
# The function's result

The part of the walk that asks whether the result is assigned is the walk of a structured statement
over its simple ones.  The paths of a body are those of that structured statement, with each name
meaning what is declared nearest.
-/

namespace Plang.Sema

open Structured

/-- The statements that are not made of others, with the fields opened around them. -/
inductive Leaf where
  | assign (opened : List Key) (target : ExprNode)
  | call (opened : List Key) (name : Key) (args : List ExprNode)
  | otherCall (opened : List Key) (args : List ExprNode) (formals : List Bool)

/-- The fields opened around the statement. -/
def Leaf.opened : Leaf → List Key
  | .assign opened _ => opened
  | .call opened _ _ => opened
  | .otherCall opened _ _ => opened

/-- The branches of a case-statement, in order. -/
def addBranch (branches : Option (Shape Leaf)) (branch : Shape Leaf) : Option (Shape Leaf) :=
  some (branches.elim branch (·.branch branch))

mutual

/-- The structure of a statement inside with-statements that open these fields. -/
def StmtNode.shape (turbo : Bool) (opened : List Key) : StmtNode → Shape Leaf
  | .null => .skip
  | .compoundStmt stmts => shapeSeq turbo opened stmts
  | .assignStmt target _ => .simple (.assign opened target)
  | .callStmt name args => .simple (.call opened name args)
  | .otherCallStmt _ args formals => .simple (.otherCall opened args formals)
  | .ifStmt _ thenPart elsePart =>
      .branch (thenPart.shape turbo opened) (elsePart.shape turbo opened)
  | .whileStmt _ body => .loop (body.shape turbo opened)
  | .repeatStmt stmts _ => .again (shapeSeq turbo opened stmts)
  | .forStmt _ _ _ body => .loop (body.shape turbo opened)
  | .forInStmt _ _ body => .loop (body.shape turbo opened)
  | .caseStmt _ _ arms hasElse elsePart =>
      let branches := shapeArms turbo opened arms none
      let branches :=
        if hasElse then addBranch branches (elsePart.shape turbo opened)
        else if turbo then addBranch branches .skip
        else branches
      branches.getD .skip
  | .withStmt _ fields body => body.shape turbo (fields ++ opened)
  | .gotoStmt _ => .skip
  | .labeledStmt _ _ => .skip

def shapeSeq (turbo : Bool) (opened : List Key) : List StmtNode → Shape Leaf
  | [] => .skip
  | stmt :: stmts => .seq (stmt.shape turbo opened) (shapeSeq turbo opened stmts)

def shapeArms (turbo : Bool) (opened : List Key) :
    List StmtNode → Option (Shape Leaf) → Option (Shape Leaf)
  | [], branches => branches
  | arm :: arms, branches =>
      shapeArms turbo opened arms (addBranch branches (arm.shape turbo opened))

end

/-! ### What simple statements do -/

/-- Whether writing this access assigns a variable with one of the names, which is not one of the
`shadows`. -/
def ExprNode.assigns (names shadows : List Key) (expr : ExprNode) : Bool :=
  !expr.writesThroughDeref &&
    expr.rootVariable.any fun root => names.contains root && !shadows.contains root

/-- Whether one of the arguments is assigned, by what `written` says about their positions. -/
def argsAssign (names shadows : List Key) (written : Nat → Bool) : Nat → List ExprNode → Bool
  | _, [] => false
  | position, arg :: args =>
      written position && arg.assigns names shadows ||
        argsAssign names shadows written (position + 1) args

theorem ExprNode.assigns_eq {names shadows : List Key} (visible : ∀ name ∈ names, name ∉ shadows)
    (expr : ExprNode) : expr.assigns names shadows = expr.assigns names [] := by
  rw [ExprNode.assigns, ExprNode.assigns]
  cases expr.rootVariable with
  | none => rfl
  | some root =>
      by_cases mem : root ∈ names
      · simp [visible root mem]
      · simp [mem]

theorem argsAssign_eq {names shadows : List Key} (visible : ∀ name ∈ names, name ∉ shadows)
    (written : Nat → Bool) (position : Nat) (args : List ExprNode) :
    argsAssign names shadows written position args = argsAssign names [] written position args := by
  induction args generalizing position with
  | nil => rfl
  | cons arg args induction =>
      rw [argsAssign, argsAssign, ExprNode.assigns_eq visible, induction]

/-- How the call of a required procedure ends. -/
def BuiltinID.ending : BuiltinID → Ending
  | .halt | .runError => .halted
  | .exit => .left
  | .break => .broke
  | .continue => .continued
  | .other => .done

def calleeEnding : Option Symbol → Ending
  | some (.builtin id) => id.ending
  | some (.declared _) => .done
  | none => .done

/-- A call: Exit with a value assigns the result and leaves, the others assign their variable
arguments. -/
def callEffect (lookup : Key → Option Symbol) (names shadows : List Key) (name : Key)
    (args : List ExprNode) : Effect :=
  match exitValue (lookup name) args with
  | some _ => ⟨true, .left⟩
  | none =>
      ⟨argsAssign names shadows (byRef (lookup name) name) 0 args, calleeEnding (lookup name)⟩

theorem callEffect_eq {names shadows : List Key} (visible : ∀ name ∈ names, name ∉ shadows)
    (lookup : Key → Option Symbol) (name : Key) (args : List ExprNode) :
    callEffect lookup names shadows name args = callEffect lookup names [] name args := by
  rw [callEffect, callEffect, argsAssign_eq visible]

/-- The effect of a simple statement as the walk takes it: by the names alone, passing over the
calls of methods and the calls through expressions. -/
def FlowScope.effect (scope : FlowScope) : Leaf → Effect
  | .assign _ target => ⟨target.assigns scope.resultNames [], .done⟩
  | .call _ name args => callEffect scope.lookup scope.resultNames [] name args
  | .otherCall _ _ _ => ⟨false, .done⟩

namespace FunctionBlock

variable (block : FunctionBlock)

/-- The parameters and variables. -/
def declared : List Key := block.params ++ block.vars.flatMap (·.names)

/-- The names that denote something nearer than the result: fields opened around a statement, and
the parameters and variables of the function. -/
def shadows (opened : List Key) : List Key := opened ++ block.declared

/-- The effect of a simple statement, with every name meaning what is declared nearest. -/
def effect : Leaf → Effect
  | .assign opened target => ⟨target.assigns block.resultNames (block.shadows opened), .done⟩
  | .call opened name args =>
      callEffect block.lookup block.resultNames (block.shadows opened) name args
  | .otherCall opened args formals =>
      ⟨argsAssign block.resultNames (block.shadows opened) (formals.getD · false) 0 args, .done⟩

/-- The structure of the body. -/
def shape : Shape Leaf := block.body.shape block.turbo []

end FunctionBlock

/-! ### The walk over the result is a walk over the structure -/

/-- The part of the state about the result. -/
def FlowState.known (st : FlowState) : Known := ⟨st.resultAssigned, st.dead⟩

@[simp] theorem FlowState.assigned_known (st : FlowState) :
    st.known.assigned = st.resultAssigned := rfl

@[simp] theorem FlowState.dead_known (st : FlowState) : st.known.dead = st.dead := rfl

variable {scope : FlowScope}

@[simp] theorem st_readKey (flow : Flow) (key : Key) : (readKey scope flow key).st = flow.st := by
  rw [readKey]
  split
  · rfl
  · split
    · rfl
    · split <;> rfl

@[simp] theorem resultMaybeUnset_readKey (flow : Flow) (key : Key) :
    (readKey scope flow key).resultMaybeUnset = flow.resultMaybeUnset := by
  rw [readKey]
  split
  · rfl
  · split
    · rfl
    · split <;> rfl

@[simp] theorem st_readKeys (keys : List Key) (flow : Flow) :
    (readKeys scope keys flow).st = flow.st := by
  induction keys generalizing flow with
  | nil => rfl
  | cons key keys induction => exact (induction _).trans (st_readKey flow key)

@[simp] theorem resultMaybeUnset_readKeys (keys : List Key) (flow : Flow) :
    (readKeys scope keys flow).resultMaybeUnset = flow.resultMaybeUnset := by
  induction keys generalizing flow with
  | nil => rfl
  | cons key keys induction => exact (induction _).trans (resultMaybeUnset_readKey flow key)

@[simp] theorem st_flowRead (expr : ExprNode) (flow : Flow) :
    (flowRead scope expr flow).st = flow.st := st_readKeys _ _

@[simp] theorem resultMaybeUnset_flowRead (expr : ExprNode) (flow : Flow) :
    (flowRead scope expr flow).resultMaybeUnset = flow.resultMaybeUnset :=
  resultMaybeUnset_readKeys _ _

@[simp] theorem st_flowReadAll (exprs : List ExprNode) (flow : Flow) :
    (flowReadAll scope exprs flow).st = flow.st := by
  induction exprs generalizing flow with
  | nil => rfl
  | cons expr exprs induction => exact (induction _).trans (st_flowRead expr flow)

@[simp] theorem resultMaybeUnset_flowReadAll (exprs : List ExprNode) (flow : Flow) :
    (flowReadAll scope exprs flow).resultMaybeUnset = flow.resultMaybeUnset := by
  induction exprs generalizing flow with
  | nil => rfl
  | cons expr exprs induction => exact (induction _).trans (resultMaybeUnset_flowRead expr flow)

@[simp] theorem known_flowWrite (expr : ExprNode) (flow : Flow) :
    (flowWrite scope expr flow).st.known =
      ⟨flow.st.resultAssigned || expr.assigns scope.resultNames [], flow.st.dead⟩ := by
  rw [flowWrite, ExprNode.assigns]
  cases expr.writesThroughDeref with
  | true => simp [FlowState.known]
  | false =>
      cases expr.rootVariable with
      | none => simp [FlowState.known]
      | some key =>
          by_cases names : key ∈ scope.resultNames
          · simp [FlowState.known, names]
          · by_cases tracked : key ∈ scope.tracked <;> simp [FlowState.known, names, tracked]

@[simp] theorem resultMaybeUnset_flowWrite (expr : ExprNode) (flow : Flow) :
    (flowWrite scope expr flow).resultMaybeUnset = flow.resultMaybeUnset := by
  rw [flowWrite]
  split
  · simp
  · split
    · rfl
    · split
      · rfl
      · split <;> rfl

/-- The walk behaves on the result as the walk of this structure. -/
structure Follows (scope : FlowScope) (shape : Shape Leaf) (before after : Flow) : Prop where
  known : after.st.known = walk scope.effect shape before.st.known
  maybeUnset : after.resultMaybeUnset =
    (before.resultMaybeUnset || meets scope.effect shape before.st.known)

@[simp] theorem st_flowTarget (target : ExprNode) (flow : Flow) :
    (flowTarget scope target flow).st = flow.st := by
  rw [flowTarget]
  split
  · rfl
  · split
    · rfl
    · simp only
      split <;> simp

@[simp] theorem resultMaybeUnset_flowTarget (target : ExprNode) (flow : Flow) :
    (flowTarget scope target flow).resultMaybeUnset = flow.resultMaybeUnset := by
  rw [flowTarget]
  split
  · rfl
  · split
    · rfl
    · simp only
      split <;> simp

theorem flowAssign_follows (opened : List Key) (target value : ExprNode) (flow : Flow) :
    Follows scope (.simple (.assign opened target)) flow (flowAssign scope target value flow) := by
  constructor
  · simp [flowAssign, walk, FlowScope.effect]
  · simp [flowAssign, meets, FlowScope.effect, Ending.endsRoutine]

@[simp] theorem known_flowArgs (callee : Option Symbol) (name : Key) (position : Nat)
    (args : List ExprNode) (flow : Flow) :
    (flowArgs scope callee name position args flow).st.known =
      ⟨flow.st.resultAssigned ||
        argsAssign scope.resultNames [] (byRef callee name) position args, flow.st.dead⟩ := by
  induction args generalizing position flow with
  | nil => simp [flowArgs, argsAssign, FlowState.known]
  | cons arg args induction =>
      rw [flowArgs, induction, argsAssign]
      have written : (flowWrite scope arg flow).st.known = _ := known_flowWrite arg flow
      simp only [FlowState.known, Known.mk.injEq] at written
      cases byRef callee name position <;> simp [written, Bool.or_assoc]

@[simp] theorem resultMaybeUnset_flowArgs (callee : Option Symbol) (name : Key) (position : Nat)
    (args : List ExprNode) (flow : Flow) :
    (flowArgs scope callee name position args flow).resultMaybeUnset = flow.resultMaybeUnset := by
  induction args generalizing position flow with
  | nil => rfl
  | cons arg args induction =>
      rw [flowArgs, induction]
      split <;> simp

theorem ending_ne_done (id : BuiltinID) : (id.ending != .done) = builtinAlwaysTransfers id := by
  cases id <;> rfl

theorem known_flowTransfer (id : BuiltinID) (flow : Flow) :
    (flowTransfer scope id flow).st.known = ⟨flow.st.resultAssigned, true⟩ := by
  cases id <;> simp only [flowTransfer] <;> first | rfl | (split <;> rfl)

theorem known_flowCallee (callee : Option Symbol) (flow : Flow) :
    (flowCallee scope callee flow).st.known =
      ⟨flow.st.resultAssigned, flow.st.dead || calleeEnding callee != .done⟩ := by
  cases callee with
  | none => simp [flowCallee, calleeEnding, FlowState.known]
  | some symbol =>
      cases symbol with
      | declared params => simp [flowCallee, calleeEnding, FlowState.known]
      | builtin id =>
          rw [flowCallee, calleeEnding, ending_ne_done]
          cases builtinAlwaysTransfers id with
          | true => simp [known_flowTransfer]
          | false => simp [FlowState.known]

theorem resultMaybeUnset_flowCallee (named : scope.resultNames ≠ []) (callee : Option Symbol)
    (flow : Flow) :
    (flowCallee scope callee flow).resultMaybeUnset =
      (flow.resultMaybeUnset ||
        (calleeEnding callee).endsRoutine && !flow.st.resultAssigned) := by
  have nonempty : scope.resultNames.isEmpty = false := by simpa using named
  cases callee with
  | none => simp [flowCallee, calleeEnding, Ending.endsRoutine]
  | some symbol =>
      cases symbol with
      | declared params => simp [flowCallee, calleeEnding, Ending.endsRoutine]
      | builtin id =>
          cases id <;> cases assigned : flow.st.resultAssigned <;>
            simp [flowCallee, builtinAlwaysTransfers, flowTransfer, calleeEnding, BuiltinID.ending,
              Ending.endsRoutine, nonempty, assigned]

theorem flowCall_follows (named : scope.resultNames ≠ []) (opened : List Key) (name : Key)
    (args : List ExprNode) (flow : Flow) :
    Follows scope (.simple (.call opened name args)) flow (flowCall scope name args flow) := by
  rw [flowCall]
  cases value : exitValue (scope.lookup name) args with
  | some expr =>
      constructor
      · simp [walk, FlowScope.effect, callEffect, value, FlowState.known]
      · simp [meets, FlowScope.effect, callEffect, value]
  | none =>
      have written : (flowArgs scope (scope.lookup name) name 0 args flow).st.known = _ :=
        known_flowArgs _ name 0 args flow
      simp only [FlowState.known, Known.mk.injEq] at written
      constructor
      · simp [walk, FlowScope.effect, callEffect, value, known_flowCallee, written]
      · simp [meets, FlowScope.effect, callEffect, value, resultMaybeUnset_flowCallee named,
          written]

theorem known_mergeWith (state other : FlowState) :
    (state.mergeWith other).known = state.known.merge other.known := by
  rw [FlowState.mergeWith, apply_ite FlowState.known, apply_ite FlowState.known]
  rfl

namespace Follows

variable {before middle after : Flow} {first second : Shape Leaf}

theorem skip {before after : Flow} (known : after.st.known = before.st.known)
    (maybeUnset : after.resultMaybeUnset = before.resultMaybeUnset) :
    Follows scope .skip before after :=
  ⟨known, by simp [meets, maybeUnset]⟩

theorem seq (head : Follows scope first before middle) (tail : Follows scope second middle after) :
    Follows scope (.seq first second) before after := by
  constructor
  · rw [tail.known, head.known, walk]
  · rw [tail.maybeUnset, head.maybeUnset, head.known, meets, Bool.or_assoc]

/-- Reads in front of a statement change nothing. -/
theorem from_read {shape : Shape Leaf} {read : Flow} (follows : Follows scope shape read after)
    (known : read.st.known = before.st.known)
    (maybeUnset : read.resultMaybeUnset = before.resultMaybeUnset) :
    Follows scope shape before after := by
  constructor
  · rw [follows.known, known]
  · rw [follows.maybeUnset, known, maybeUnset]

/-- A body walked on a copy that is dropped. -/
theorem loop {body : Shape Leaf} (follows : Follows scope body before middle)
    (known : after.st.known = before.st.known)
    (maybeUnset : after.resultMaybeUnset = middle.resultMaybeUnset) :
    Follows scope (.loop body) before after := by
  constructor
  · rw [known, walk]
  · rw [maybeUnset, follows.maybeUnset, meets]

end Follows

/-- Branches walked on copies of the state before them. -/
structure FollowsBranches (scope : FlowScope) (before : FlowState) (unset : Bool)
    (branches : Option (Shape Leaf)) (merged : Option FlowState) (flow : Flow) : Prop where
  known : merged.map FlowState.known =
    branches.map fun branch => walk scope.effect branch before.known
  maybeUnset : flow.resultMaybeUnset =
    (unset || branches.any fun branch => meets scope.effect branch before.known)

theorem takeBranch_follows {before : FlowState} {unset : Bool} {branches : Option (Shape Leaf)}
    {merged : Option FlowState} {flow after : Flow} {shape : Shape Leaf}
    (follows : FollowsBranches scope before unset branches merged flow)
    (branch : Follows scope shape { flow with st := before } after) :
    FollowsBranches scope before unset (addBranch branches shape) (takeBranch merged after).1
      (takeBranch merged after).2 := by
  have known := follows.known
  have maybeUnset := branch.maybeUnset.trans (congrArg (· || _) follows.maybeUnset)
  cases branches with
  | none =>
      obtain rfl : merged = none := by simpa using known
      constructor
      · simp [takeBranch, addBranch, branch.known]
      · simpa [takeBranch, addBranch] using maybeUnset
  | some branches =>
      cases merged with
      | none => cases known
      | some merged =>
          have merged_known := Option.some.inj known
          constructor
          · simp [takeBranch, addBranch, known_mergeWith, branch.known, merged_known, walk]
          · simpa [takeBranch, addBranch, meets, Bool.or_assoc] using maybeUnset

theorem flowSeq_follows {opened : List Key} {stmts : List StmtNode}
    (each : ∀ stmt ∈ stmts, ∀ flow,
      Follows scope (stmt.shape scope.turbo opened) flow (flowStmt scope stmt flow))
    (flow : Flow) :
    Follows scope (shapeSeq scope.turbo opened stmts) flow (flowSeq scope stmts flow) := by
  induction stmts generalizing flow with
  | nil => exact .skip rfl rfl
  | cons stmt stmts induction =>
      rw [shapeSeq, flowSeq]
      apply Follows.seq
      · exact each stmt List.mem_cons_self flow
      · exact induction (fun stmt mem => each stmt (List.mem_cons_of_mem _ mem)) _

theorem flowArms_follows {opened : List Key} {before : FlowState} {unset : Bool}
    {arms : List StmtNode}
    (each : ∀ arm ∈ arms, ∀ flow,
      Follows scope (arm.shape scope.turbo opened) flow (flowStmt scope arm flow))
    {branches : Option (Shape Leaf)} {merged : Option FlowState} {flow : Flow}
    (follows : FollowsBranches scope before unset branches merged flow) :
    FollowsBranches scope before unset (shapeArms scope.turbo opened arms branches)
      (flowArms scope before arms merged flow).1 (flowArms scope before arms merged flow).2 := by
  induction arms generalizing branches merged flow with
  | nil => exact follows
  | cons arm arms induction =>
      rw [shapeArms, flowArms]
      apply induction fun arm mem => each arm (List.mem_cons_of_mem _ mem)
      exact takeBranch_follows follows (each arm List.mem_cons_self _)

@[simp] theorem known_afterCopy (before after : Flow) :
    (afterCopy before after).st.known = before.st.known := rfl

@[simp] theorem resultMaybeUnset_afterCopy (before after : Flow) :
    (afterCopy before after).resultMaybeUnset = after.resultMaybeUnset := rfl

@[simp] theorem known_enterFor (key : Key) (flow : Flow) :
    (enterFor key flow).st.known = flow.st.known := rfl

@[simp] theorem resultMaybeUnset_enterFor (key : Key) (flow : Flow) :
    (enterFor key flow).resultMaybeUnset = flow.resultMaybeUnset := rfl

@[simp] theorem known_loopVar (key : Key) (keeps : Bool) (flow : Flow) :
    (loopVar scope key keeps flow).st.known = flow.st.known := by
  rw [loopVar]
  split <;> rfl

@[simp] theorem resultMaybeUnset_loopVar (key : Key) (keeps : Bool) (flow : Flow) :
    (loopVar scope key keeps flow).resultMaybeUnset = flow.resultMaybeUnset := by
  rw [loopVar]
  split <;> rfl

theorem flowIf_follows {opened : List Key} {cond : ExprNode} {thenPart elsePart : StmtNode}
    (thenFollows : ∀ flow,
      Follows scope (thenPart.shape scope.turbo opened) flow (flowStmt scope thenPart flow))
    (elseFollows : ∀ flow,
      Follows scope (elsePart.shape scope.turbo opened) flow (flowStmt scope elsePart flow))
    (flow : Flow) :
    Follows scope ((StmtNode.ifStmt cond thenPart elsePart).shape scope.turbo opened) flow
      (flowStmt scope (.ifStmt cond thenPart elsePart) flow) := by
  have thenPath := thenFollows (flowRead scope cond flow)
  have elsePath := elseFollows
    { flowStmt scope thenPart (flowRead scope cond flow) with st := flow.st }
  rw [StmtNode.shape, flowStmt]
  simp only [st_flowRead]
  constructor
  · rw [known_mergeWith, thenPath.known, elsePath.known, st_flowRead, walk]
  · rw [elsePath.maybeUnset, thenPath.maybeUnset, st_flowRead, resultMaybeUnset_flowRead, meets,
      Bool.or_assoc]

theorem flowRepeat_follows {opened : List Key} {stmts : List StmtNode} {cond : ExprNode}
    (each : ∀ stmt ∈ stmts, ∀ flow,
      Follows scope (stmt.shape scope.turbo opened) flow (flowStmt scope stmt flow))
    (flow : Flow) :
    Follows scope ((StmtNode.repeatStmt stmts cond).shape scope.turbo opened) flow
      (flowStmt scope (.repeatStmt stmts cond) flow) := by
  have body := flowSeq_follows each { flow with loopBroke := false }
  rw [StmtNode.shape, flowStmt]
  constructor
  · have assigned := congrArg Known.assigned body.known
    simp only [FlowState.assigned_known] at assigned
    simp [FlowState.known, walk, assigned]
  · rw [meets]
    simpa using body.maybeUnset

theorem FollowsBranches.follows {before after : Flow} {branches : Option (Shape Leaf)}
    {merged : Option FlowState}
    (follows : FollowsBranches scope before.st before.resultMaybeUnset branches merged after) :
    Follows scope (branches.getD .skip) before
      { after with st := merged.getD before.st } := by
  have known := follows.known
  have maybeUnset := follows.maybeUnset
  cases branches with
  | none =>
      obtain rfl : merged = none := by simpa using known
      exact .skip rfl (by simpa using maybeUnset)
  | some branches =>
      cases merged with
      | none => cases known
      | some merged => exact ⟨Option.some.inj known, maybeUnset⟩

theorem flowCase_follows {opened : List Key} {selector : ExprNode} {labels : List ExprNode}
    {arms : List StmtNode} {hasElse : Bool} {elsePart : StmtNode}
    (each : ∀ arm ∈ arms, ∀ flow,
      Follows scope (arm.shape scope.turbo opened) flow (flowStmt scope arm flow))
    (elseFollows : ∀ flow,
      Follows scope (elsePart.shape scope.turbo opened) flow (flowStmt scope elsePart flow))
    (flow : Flow) :
    Follows scope ((StmtNode.caseStmt selector labels arms hasElse elsePart).shape scope.turbo
        opened) flow (flowStmt scope (.caseStmt selector labels arms hasElse elsePart) flow) := by
  have start : FollowsBranches scope (flowRead scope selector flow).st
      (flowRead scope selector flow).resultMaybeUnset none none (flowRead scope selector flow) :=
    ⟨rfl, by simp⟩
  have walked := flowArms_follows each start
  have read : ∀ {shape after}, Follows scope shape (flowRead scope selector flow) after →
      Follows scope shape flow after := fun follows => follows.from_read (by simp) (by simp)
  rw [StmtNode.shape, flowStmt]
  apply read
  cases hasElse with
  | true => exact (takeBranch_follows walked (elseFollows _)).follows
  | false =>
      cases turbo : scope.turbo with
      | true =>
          rw [turbo] at walked
          exact (takeBranch_follows walked (.skip rfl rfl)).follows
      | false =>
          rw [turbo] at walked
          exact walked.follows

/-- The walk of a statement, as far as it is about the result, is the walk of its structure. -/
theorem flowStmt_follows (named : scope.resultNames ≠ []) (stmt : StmtNode) :
    ∀ (opened : List Key) (flow : Flow),
      Follows scope (stmt.shape scope.turbo opened) flow (flowStmt scope stmt flow) := by
  induction stmt with
  | null => exact fun _ flow => .skip rfl rfl
  | compoundStmt stmts each =>
      intro opened flow
      exact flowSeq_follows (fun stmt mem => each stmt mem opened) flow
  | assignStmt target value => exact fun opened => flowAssign_follows opened target value
  | callStmt name args => exact fun opened => flowCall_follows named opened name args
  | otherCallStmt callee args formals =>
      intro opened flow
      constructor
      · simp [StmtNode.shape, flowStmt, walk, FlowScope.effect, FlowState.known]
      · simp [StmtNode.shape, flowStmt, meets, FlowScope.effect, Ending.endsRoutine]
  | ifStmt cond thenPart elsePart thenFollows elseFollows =>
      exact fun opened => flowIf_follows (thenFollows opened) (elseFollows opened)
  | whileStmt cond body bodyFollows =>
      intro opened flow
      have read := bodyFollows opened { flowRead scope cond flow with loopBroke := false }
      rw [StmtNode.shape, flowStmt]
      apply Follows.loop (read.from_read (by simp) (by simp))
      · simp
      · simp
  | repeatStmt stmts cond each =>
      exact fun opened => flowRepeat_follows fun stmt mem => each stmt mem opened
  | forStmt var start limit body bodyFollows =>
      intro opened flow
      have entered := bodyFollows opened
        (enterFor var (flowRead scope limit (flowRead scope start flow)))
      rw [StmtNode.shape, flowStmt]
      apply Follows.loop (entered.from_read (by simp) (by simp))
      · simp
      · simp
  | forInStmt var setExpr body bodyFollows =>
      intro opened flow
      have entered := bodyFollows opened (enterFor var (flowRead scope setExpr flow))
      rw [StmtNode.shape, flowStmt]
      apply Follows.loop (entered.from_read (by simp) (by simp))
      · simp
      · simp
  | caseStmt selector labels arms hasElse elsePart each elseFollows =>
      exact fun opened => flowCase_follows (fun arm mem => each arm mem opened) (elseFollows opened)
  | withStmt records fields body bodyFollows =>
      intro opened flow
      rw [StmtNode.shape, flowStmt]
      exact (bodyFollows _ _).from_read (by simp) (by simp)
  | gotoStmt label => exact fun _ flow => .skip rfl rfl
  | labeledStmt label body bodyFollows => exact fun _ flow => .skip rfl rfl

/-! ### What is reported about a function -/

namespace FunctionBlock

variable (block : FunctionBlock)

/-- Whether the walk answers for the result of this function. -/
def analysed : Bool := !block.hasErrors && block.flowIsFollowable && block.isFunc

/-- Whether it is reported that the result may be left unset: by the walk, or because it is assigned
nowhere at all. -/
def reportsResult : Bool :=
  block.checkDefiniteAssignment.contains (.resultNotAlwaysSet block.name) || !block.hasResult

/-- A path along which the function returns with its result unset. -/
def ReturnsUnset (ending : Ending) : Prop :=
  (ending = .done ∨ ending = .left) ∧
    Path block.effect (fun _ => True) block.shape false ending false

/-- Where nothing is reported, every path that returns has assigned the result. -/
def ResultSound : Prop :=
  block.analysed = true → block.reportsResult = false →
    ∀ ending after, Path block.effect (fun _ => True) block.shape false ending after →
      ending = .done ∨ ending = .left → after = true

/-- Where a path returns with the result unset, another one ends with it unset that runs through
every round of the repeat-statements while the result is unset, with the names taken as the walk
takes them. -/
def UnsetMatched : Prop :=
  block.analysed = true → block.hasResult = true → (∃ ending, block.ReturnsUnset ending) →
    ∃ ending, ending.staysInLoop = false ∧
      Path block.flowScope.effect (· = true) block.shape false ending false

/-- No statement stands behind one that never comes to its end, and loops are left from inside
them only. -/
def isTidy : Bool :=
  tidy block.flowScope.effect block.shape && bound block.flowScope.effect block.shape

variable {block}

theorem reportsResult_eq (analysed : block.analysed = true) :
    block.reportsResult = (reports block.flowScope.effect block.shape || !block.hasResult) := by
  simp only [FunctionBlock.analysed, Bool.and_eq_true, Bool.not_eq_true'] at analysed
  obtain ⟨⟨no_errors, followable⟩, isFunc⟩ := analysed
  have named : block.flowScope.resultNames ≠ [] := by
    simp [flowScope, isFunc, resultNames]
  have follows : Follows block.flowScope block.shape block.startFlow _ :=
    flowStmt_follows named block.body [] block.startFlow
  have assigned := congrArg Known.assigned follows.known
  have maybeUnset := follows.maybeUnset
  have start : block.startFlow.st.known = .start := rfl
  rw [start, FlowState.assigned_known] at assigned
  have not_yet : block.startFlow.resultMaybeUnset = false := rfl
  rw [start, not_yet, Bool.false_or] at maybeUnset
  rw [reportsResult, checkDefiniteAssignment, reports]
  simp only [no_errors, followable, isFunc, assigned, maybeUnset]
  cases block.hasResult <;> cases (walk block.flowScope.effect block.shape .start).assigned <;>
    cases meets block.flowScope.effect block.shape .start <;> simp

theorem resultSound_of_unsetMatched (matched : block.UnsetMatched) : block.ResultSound := by
  intro analysed silent ending after path returns
  rw [reportsResult_eq analysed, Bool.or_eq_false_iff, Bool.not_eq_false'] at silent
  by_contra unset
  obtain rfl : after = false := Bool.eq_false_of_not_eq_true unset
  obtain ⟨other, ends, whole⟩ := matched analysed silent.2 ⟨ending, returns, path⟩
  have reported := reports_of_path whole ends
  rw [silent.1] at reported
  cases reported

theorem unsetMatched_of_resultSound (neat : block.isTidy = true) (sound : block.ResultSound) :
    block.UnsetMatched := by
  rintro analysed has_result ⟨ending, returns, path⟩
  rw [isTidy, Bool.and_eq_true] at neat
  apply path_of_reports neat.1 neat.2
  by_contra silent
  have reported : block.reportsResult = false := by
    rw [reportsResult_eq analysed, Bool.eq_false_of_not_eq_true silent, has_result]
    rfl
  exact absurd (sound analysed reported ending false path returns) (by decide)

/-- No field, parameter or variable hides a name of the result where a simple statement stands. -/
def ResultVisible (block : FunctionBlock) : Prop :=
  ∀ leaf ∈ block.shape.simples, ∀ name ∈ block.resultNames, name ∉ block.shadows leaf.opened

/-- The walk can be trusted about a function that neither leaves a repeat-statement, nor goes on to
its test, from inside its body, and does not hide its result. -/
theorem resultSound_of_wholeRounds (rounds : wholeRounds block.effect block.shape = true)
    (visible : block.ResultVisible) : block.ResultSound := by
  apply resultSound_of_unsetMatched
  rintro analysed - ⟨ending, returns, path⟩
  refine ⟨ending, by obtain rfl | rfl := returns <;> rfl, ?_⟩
  apply path.of_wholeRounds rounds _ rfl
  intro leaf mem
  simp only [FunctionBlock.analysed, Bool.and_eq_true] at analysed
  have names : block.flowScope.resultNames = block.resultNames := by
    simp [flowScope, analysed.2]
  cases leaf with
  | assign opened target =>
      have shown : ∀ name ∈ block.resultNames, name ∉ block.shadows opened := visible _ mem
      have seen : block.flowScope.effect (.assign opened target) =
          block.effect (.assign opened target) := by
        rw [FlowScope.effect, effect, names, ExprNode.assigns_eq shown]
      rw [seen]
      exact ⟨rfl, id⟩
  | call opened name args =>
      have shown : ∀ name ∈ block.resultNames, name ∉ block.shadows opened := visible _ mem
      have seen : block.flowScope.effect (.call opened name args) =
          block.effect (.call opened name args) := by
        rw [FlowScope.effect, effect, names, callEffect_eq shown]
        rfl
      rw [seen]
      exact ⟨rfl, id⟩
  | otherCall opened args formals => exact ⟨rfl, fun assigns => by cases assigns⟩

/-- Silence about the result means that every path assigns it where each path that returns without
it has such a path as the walk follows; over tidy bodies only there. -/
theorem resultSound_iff_unsetMatched (block : FunctionBlock) :
    (block.UnsetMatched → block.ResultSound) ∧
      (block.isTidy = true → block.ResultSound → block.UnsetMatched) :=
  ⟨resultSound_of_unsetMatched, unsetMatched_of_resultSound⟩

/-- A repeat-statement that is left by Break before its body assigns the result. -/
def breakInRepeat : FunctionBlock where
  name := "f"
  resultName := none
  params := ["c"]
  labels := []
  vars := []
  procs := []
  body := .compoundStmt
    [.repeatStmt
      [.ifStmt (.ident "c") (.callStmt "break" []) .null,
        .assignStmt (.ident "f") (.other [])]
      (.other [])]
  lookup := fun name => if name = "break" then some (.builtin .break) else none
  turbo := true
  hasErrors := false
  hasResult := true

theorem breakInRepeat_not_resultSound : ¬ breakInRepeat.ResultSound := by
  intro sound
  have silent : breakInRepeat.reportsResult = false := by decide
  have leaves : Path breakInRepeat.effect (fun _ => True)
      (.simple (.call [] "break" [])) false .broke false := .simple _ false
  have path : Path breakInRepeat.effect (fun _ => True) breakInRepeat.shape false .done false :=
    .seq (.againBroke (.seqOut (.left leaves) (by decide)) trivial) (.skip false)
  exact absurd (sound (by decide) silent .done false path (.inl rfl)) (by decide)

end FunctionBlock

end Plang.Sema
