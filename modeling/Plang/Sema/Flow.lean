import Mathlib.Data.Finset.Lattice.Basic
import Mathlib.Data.Finset.Erase
import Mathlib.Data.Finset.Dedup
import Mathlib.Data.Finset.Insert
import Plang.Sema.Tree

/-!
# The definite-assignment walk

One walk over the statements of a block that carries what every path to a point has assigned, the
control variables that are undefined again, whether the function's result is assigned, and whether
the path has left for good.  Branches are walked on copies and merged; a body that may run no times
is walked on a copy that is dropped.
-/

namespace Plang.Sema

/-- The required procedures that always transfer control, and the others. -/
inductive BuiltinID where
  | halt
  | exit
  | «break»
  | «continue»
  | runError
  | other
  deriving DecidableEq, Repr

/-- Whether a call of the procedure never comes back to the statement behind it. -/
def builtinAlwaysTransfers : BuiltinID → Bool
  | .halt | .exit | .break | .continue | .runError => true
  | .other => false

/-- What a name is looked up as: a required procedure, or a declared name with the modes of its
parameters, true for a variable parameter.  A variable of a procedural type has none. -/
inductive Symbol where
  | builtin (id : BuiltinID)
  | declared (params : List Bool)
  deriving DecidableEq, Repr

/-- The warnings about the read of a variable. -/
inductive ReadWarning where
  | forVarAfterLoop (name : Key)
  | varUninitialized (name : Key)
  deriving DecidableEq, Repr

/-- The warnings of the walk. -/
inductive FlowWarning where
  | read (warning : ReadWarning)
  | resultNotAlwaysSet (name : Key)
  deriving DecidableEq, Repr

/-- The facts known at a point in the walk. -/
structure FlowState where
  assigned : Finset Key
  undefAfterFor : Finset Key
  resultAssigned : Bool
  dead : Bool
  deriving DecidableEq

/-- Combines this with what another branch leaves behind.  A dead side has no say. -/
def FlowState.mergeWith (state other : FlowState) : FlowState :=
  if state.dead && !other.dead then other
  else if other.dead && !state.dead then state
  else
    { assigned := state.assigned ∩ other.assigned
      undefAfterFor := state.undefAfterFor ∪ other.undefAfterFor
      resultAssigned := state.resultAssigned && other.resultAssigned
      dead := state.dead && other.dead }

/-- The names that stay the same throughout one walk. -/
structure FlowScope where
  lookup : Key → Option Symbol
  turbo : Bool
  tracked : Finset Key
  resultNames : List Key

/-- The state of the walk: that of the path, and the members it shares with all paths. -/
structure Flow where
  st : FlowState
  reported : Finset Key
  loopBroke : Bool
  resultMaybeUnset : Bool
  warnings : List ReadWarning

variable (scope : FlowScope)

/-! ### Reads and writes -/

/-- A read of one variable. -/
def readKey (flow : Flow) (key : Key) : Flow :=
  if key ∉ scope.tracked then flow
  else if key ∈ flow.st.assigned then flow
  else if key ∈ flow.reported then flow
  else
    { flow with
      warnings := flow.warnings ++
        [if key ∈ flow.st.undefAfterFor then .forVarAfterLoop key else .varUninitialized key]
      reported := insert key flow.reported }

def readKeys (keys : List Key) (flow : Flow) : Flow := keys.foldl (readKey scope) flow

def flowRead (expr : ExprNode) (flow : Flow) : Flow := readKeys scope expr.reads flow

def flowReadAll (exprs : List ExprNode) (flow : Flow) : Flow :=
  exprs.foldl (fun flow expr => flowRead scope expr flow) flow

def flowWrite (expr : ExprNode) (flow : Flow) : Flow :=
  if expr.writesThroughDeref then flowRead scope expr flow
  else
    match expr.rootVariable with
    | none => flow
    | some key =>
        if key ∈ scope.resultNames then { flow with st := { flow.st with resultAssigned := true } }
        else if key ∉ scope.tracked then flow
        else
          { flow with
            st :=
              { flow.st with
                assigned := insert key flow.st.assigned
                undefAfterFor := flow.st.undefAfterFor.erase key } }

/-! ### Simple statements -/

/-- The reads of an assignment's target: its subscripts, and the root only where a pointer is
followed. -/
def flowTarget (target : ExprNode) (flow : Flow) : Flow :=
  if target.isIdent then flow
  else
    match target.rootVariable with
    | none => flow
    | some root =>
        let flow := readKeys scope target.identsBesideRoot flow
        if target.writesThroughDeref then readKey scope flow root else flow

/-- The value is read first, then the target, and then the target is written. -/
def flowAssign (target value : ExprNode) (flow : Flow) : Flow :=
  flowWrite scope target (flowTarget scope target (flowRead scope value flow))

/-- The arguments that a required procedure gives a value. -/
def builtinAssigns (name : Key) (position : Nat) : Bool :=
  if name == "read" || name == "readln" then true
  else if name == "new" then position == 0
  else if name == "readstr" then 1 ≤ position
  else if name == "delete" || name == "setlength" then position == 0
  else if name == "insert" || name == "str" then position == 1
  else if name == "val" then position == 1 || position == 2
  else if name == "blockread" || name == "blockwrite" then position == 3
  else if name == "getmem" then position == 0
  else false

/-- Whether an argument is taken to be assigned.  Where the walk cannot see the parameter, it takes
the argument to be. -/
def byRef (callee : Option Symbol) (name : Key) (position : Nat) : Bool :=
  match callee with
  | some (.builtin _) => builtinAssigns name position
  | some (.declared params) => params.getD position true
  | none => true

/-- The arguments from a position on. -/
def flowArgs (callee : Option Symbol) (name : Key) : Nat → List ExprNode → Flow → Flow
  | _, [], flow => flow
  | position, arg :: args, flow =>
      flowArgs callee name (position + 1) args
        (if byRef callee name position then flowWrite scope arg flow else flowRead scope arg flow)

/-- The walk behind a call that always transfers. -/
def flowTransfer (id : BuiltinID) (flow : Flow) : Flow :=
  let flow := { flow with st := { flow.st with dead := true } }
  match id with
  | .break => { flow with loopBroke := true }
  | .halt | .runError | .exit =>
      if !scope.resultNames.isEmpty && !flow.st.resultAssigned then
        { flow with resultMaybeUnset := true }
      else flow
  | .continue | .other => flow

/-- The value that Exit is given. -/
def exitValue (callee : Option Symbol) (args : List ExprNode) : Option ExprNode :=
  if callee = some (.builtin .exit) then args.head? else none

/-- The walk behind the arguments of any other call. -/
def flowCallee (callee : Option Symbol) (flow : Flow) : Flow :=
  match callee with
  | some (.builtin id) => if builtinAlwaysTransfers id then flowTransfer scope id flow else flow
  | some (.declared _) => flow
  | none => flow

def flowCall (name : Key) (args : List ExprNode) (flow : Flow) : Flow :=
  let callee := scope.lookup name
  match exitValue callee args with
  | some value =>
      let flow := flowRead scope value flow
      { flow with st := { flow.st with resultAssigned := true, dead := true } }
  | none => flowCallee scope callee (flowArgs scope callee name 0 args flow)

/-! ### The walk -/

/-- What a for-statement leaves its control variable as: with its value where the loop was left by
Break or `keeps`, else undefined. -/
def loopVar (key : Key) (keeps : Bool) (flow : Flow) : Flow :=
  if keeps && decide (key ∈ scope.tracked) then
    { flow with
      st :=
        { flow.st with
          assigned := insert key flow.st.assigned
          undefAfterFor := flow.st.undefAfterFor.erase key } }
  else
    { flow with
      st :=
        { flow.st with
          assigned := flow.st.assigned.erase key
          undefAfterFor :=
            if key ∈ scope.tracked then insert key flow.st.undefAfterFor
            else flow.st.undefAfterFor } }

/-- Go on with the state from before a body that was walked on a copy. -/
def afterCopy (before after : Flow) : Flow :=
  { after with
    st := { before.st with undefAfterFor := before.st.undefAfterFor ∪ after.st.undefAfterFor }
    loopBroke := before.loopBroke }

/-- The body of a for-statement starts with its control variable assigned. -/
def enterFor (key : Key) (flow : Flow) : Flow :=
  { flow with
    st :=
      { flow.st with
        assigned := insert key flow.st.assigned
        undefAfterFor := flow.st.undefAfterFor.erase key }
    loopBroke := false }

/-- Merge what a branch leaves behind into what the branches before it left. -/
def takeBranch (merged : Option FlowState) (flow : Flow) : Option FlowState × Flow :=
  (some (merged.elim flow.st (·.mergeWith flow.st)), flow)

mutual

def flowStmt : StmtNode → Flow → Flow
  | .null, flow => flow
  | .compoundStmt stmts, flow => flowSeq stmts flow
  | .assignStmt target value, flow => flowAssign scope target value flow
  | .callStmt name args, flow => flowCall scope name args flow
  | .otherCallStmt _ _ _, flow => flow
  | .ifStmt cond thenPart elsePart, flow =>
      let flow := flowRead scope cond flow
      let thenFlow := flowStmt thenPart flow
      let elseFlow := flowStmt elsePart { thenFlow with st := flow.st }
      { elseFlow with st := thenFlow.st.mergeWith elseFlow.st }
  | .whileStmt cond body, flow =>
      let flow := flowRead scope cond flow
      afterCopy flow (flowStmt body { flow with loopBroke := false })
  | .repeatStmt stmts cond, flow =>
      -- the one loop whose body is walked on the state itself
      let after := flowRead scope cond (flowSeq stmts { flow with loopBroke := false })
      { after with st := { after.st with dead := flow.st.dead }, loopBroke := flow.loopBroke }
  | .forStmt var start limit body, flow =>
      let flow := flowRead scope limit (flowRead scope start flow)
      let after := flowStmt body (enterFor var flow)
      loopVar scope var (after.loopBroke || scope.turbo) (afterCopy flow after)
  | .forInStmt var setExpr body, flow =>
      let flow := flowRead scope setExpr flow
      let after := flowStmt body (enterFor var flow)
      loopVar scope var after.loopBroke (afterCopy flow after)
  | .caseStmt selector _ arms hasElse elsePart, flow =>
      let flow := flowRead scope selector flow
      let (merged, after) := flowArms flow.st arms none flow
      let (merged, after) :=
        if hasElse then takeBranch merged (flowStmt elsePart { after with st := flow.st })
        else if scope.turbo then takeBranch merged { after with st := flow.st }
        else (merged, after)
      { after with st := merged.getD flow.st }
  | .withStmt records _ body, flow => flowStmt body (flowReadAll scope records flow)
  | .gotoStmt _, flow => flow
  | .labeledStmt _ _, flow => flow

def flowSeq : List StmtNode → Flow → Flow
  | [], flow => flow
  | stmt :: stmts, flow => flowSeq stmts (flowStmt stmt flow)

/-- The arms of a case-statement, each walked on a copy of the state before it. -/
def flowArms (before : FlowState) :
    List StmtNode → Option FlowState → Flow → Option FlowState × Flow
  | [], merged, flow => (merged, flow)
  | arm :: arms, merged, flow =>
      let (merged, flow) := takeBranch merged (flowStmt arm { flow with st := before })
      flowArms before arms merged flow

end

/-! ### Entry point -/

/-- The variables of one declaration, and what the walk asks about them. -/
structure VarGroup where
  names : List Key
  /-- Declared with a value, or with a type that has one. -/
  hasInit : Bool
  isBindable : Bool
  /-- Whether the storage is that of another variable. -/
  isAbsolute : Bool
  /-- Whether the type is one that holds one value. -/
  isSimpleValue : Bool

/-- The block of a function, with its heading and what the checker found before the walk. -/
structure FunctionBlock where
  name : Key
  /-- The name the heading gives the result. -/
  resultName : Option Key
  params : List Key
  labels : List Key
  vars : List VarGroup
  procs : List ProcDecl
  body : StmtNode
  lookup : Key → Option Symbol
  turbo : Bool
  /-- Whether an error was reported before. -/
  hasErrors : Bool
  /-- Whether the result is assigned anywhere at all; where it is not, that is an error. -/
  hasResult : Bool

namespace FunctionBlock

variable (block : FunctionBlock)

/-- A block with labels or gotos is one the walk does not follow. -/
def flowIsFollowable : Bool := block.labels.isEmpty && block.body.gotoFree

/-- The names that denote the result. -/
def resultNames : List Key := block.name :: block.resultName.toList

/-- The names a nested procedure uses. -/
def hidden : List Key := collectNamesUsedIn block.procs

/-- A nested procedure that names the result may assign it out of sight. -/
def isFunc : Bool := !block.resultNames.any (block.hidden.contains ·)

/-- The variables the walk can speak for. -/
def trackedIn (group : VarGroup) : List Key :=
  if group.isBindable || group.isAbsolute || !group.isSimpleValue then []
  else group.names.filter fun name => !block.hidden.contains name

def tracked : Finset Key := (block.vars.flatMap block.trackedIn).toFinset

def preAssigned : Finset Key :=
  ((block.vars.filter (·.hasInit)).flatMap block.trackedIn).toFinset

def flowScope : FlowScope where
  lookup := block.lookup
  turbo := block.turbo
  tracked := block.tracked
  resultNames := if block.isFunc then block.resultNames else []

def startFlow : Flow where
  st := ⟨block.preAssigned, ∅, false, false⟩
  reported := ∅
  loopBroke := false
  resultMaybeUnset := false
  warnings := []

def checkDefiniteAssignment : List FlowWarning :=
  if block.hasErrors || !block.flowIsFollowable then []
  else if block.tracked = ∅ ∧ block.isFunc = false then []
  else
    let flow := flowStmt block.flowScope block.body block.startFlow
    flow.warnings.map .read ++
      if block.isFunc && (!flow.st.resultAssigned || flow.resultMaybeUnset) && block.hasResult then
        [.resultNotAlwaysSet block.name]
      else []

end FunctionBlock

end Plang.Sema
