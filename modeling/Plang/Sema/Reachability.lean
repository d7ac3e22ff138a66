import Mathlib.Data.List.Infix
import Mathlib.Logic.Relation
import Plang.Sema.Flow

/-!
# Unreachable statements

A statement behind one that always transfers control is reported, up to the next statement of its
list that has a label of its own.  Control paths go from one point of a body to the next; a goto may
go to any statement with its label.
-/

namespace Plang.Sema

/-- The place of a statement: the indices on the way to it, the last one first. -/
abbrev Place := List Nat

/-- The symbols that names stand for. -/
abbrev Lookup := Key → Option Symbol

/-- The names inside of a with-statement that opens these. -/
def Lookup.hide (lookup : Lookup) (fields : List Key) : Lookup :=
  fun name => if name ∈ fields then some (.declared []) else lookup name

namespace StmtNode

def isNull : StmtNode → Bool
  | .null => true
  | _ => false

def isLabeled : StmtNode → Bool
  | .labeledStmt _ _ => true
  | _ => false

/-! ### The analysis -/

def callsTransferBuiltin (lookup : Lookup) (name : Key) : Bool :=
  match lookup name with
  | some (.builtin id) => builtinAlwaysTransfers id
  | some (.declared _) => false
  | none => false

mutual

def alwaysTransfers (lookup : Lookup) : StmtNode → Bool
  | .gotoStmt _ => true
  | .callStmt name _ => callsTransferBuiltin lookup name
  | .compoundStmt stmts => sequenceTransfers lookup false stmts
  | .withStmt _ _ body => body.alwaysTransfers lookup
  | .ifStmt _ thenPart elsePart =>
      !elsePart.isNull && thenPart.alwaysTransfers lookup && elsePart.alwaysTransfers lookup
  | .null => false
  | .assignStmt _ _ => false
  | .otherCallStmt _ _ _ => false
  | .whileStmt _ _ => false
  | .repeatStmt _ _ => false
  | .forStmt _ _ _ _ => false
  | .forInStmt _ _ _ => false
  | .caseStmt _ _ _ _ _ => false
  | .labeledStmt _ _ => false

/-- Whether a list of statements always transfers, from one that control may not come to. -/
def sequenceTransfers (lookup : Lookup) (gone : Bool) : List StmtNode → Bool
  | [] => gone
  | stmt :: stmts =>
      if stmt.isNull then sequenceTransfers lookup gone stmts
      else
        let gone := !stmt.isLabeled && gone
        sequenceTransfers lookup (gone || stmt.alwaysTransfers lookup) stmts

end

/-- The statements of a list that are reported: the first one of each run. -/
def warnUnreachable (lookup : Lookup) (gone reported : Bool) (index : Nat) :
    List StmtNode → List Nat
  | [] => []
  | stmt :: stmts =>
      if stmt.isNull then warnUnreachable lookup gone reported (index + 1) stmts
      else
        let warned := !stmt.isLabeled && gone && !reported
        let reported := !stmt.isLabeled && (reported || gone)
        let gone := !stmt.isLabeled && gone
        (if warned then [index] else []) ++
          warnUnreachable lookup (gone || stmt.alwaysTransfers lookup) reported (index + 1) stmts

mutual

/-- The places that are reported. -/
def checkStmt (lookup : Lookup) (place : Place) : StmtNode → List Place
  | .compoundStmt stmts =>
      (warnUnreachable lookup false false 0 stmts).map (· :: place) ++
        checkAll lookup place 0 stmts
  | .repeatStmt stmts _ =>
      (warnUnreachable lookup false false 0 stmts).map (· :: place) ++
        checkAll lookup place 0 stmts
  | .ifStmt _ thenPart elsePart =>
      thenPart.checkStmt lookup (0 :: place) ++ elsePart.checkStmt lookup (1 :: place)
  | .whileStmt _ body => body.checkStmt lookup (0 :: place)
  | .forStmt _ _ _ body => body.checkStmt lookup (0 :: place)
  | .forInStmt _ _ body => body.checkStmt lookup (0 :: place)
  | .caseStmt _ _ arms _ elsePart =>
      checkAll lookup place 0 arms ++ elsePart.checkStmt lookup (arms.length :: place)
  | .withStmt _ fields body => body.checkStmt (lookup.hide fields) (0 :: place)
  | .labeledStmt _ body => body.checkStmt lookup (0 :: place)
  | .null => []
  | .assignStmt _ _ => []
  | .callStmt _ _ => []
  | .otherCallStmt _ _ _ => []
  | .gotoStmt _ => []

def checkAll (lookup : Lookup) (place : Place) (index : Nat) : List StmtNode → List Place
  | [] => []
  | stmt :: stmts =>
      stmt.checkStmt lookup (index :: place) ++ checkAll lookup place (index + 1) stmts

end

/-! ### Places -/

/-- The statements in a statement; an else part is the last one. -/
def children : StmtNode → List StmtNode
  | .compoundStmt stmts => stmts
  | .repeatStmt stmts _ => stmts
  | .ifStmt _ thenPart elsePart => [thenPart, elsePart]
  | .whileStmt _ body => [body]
  | .forStmt _ _ _ body => [body]
  | .forInStmt _ _ body => [body]
  | .caseStmt _ _ arms _ elsePart => arms ++ [elsePart]
  | .withStmt _ _ body => [body]
  | .labeledStmt _ body => [body]
  | .null => []
  | .assignStmt _ _ => []
  | .callStmt _ _ => []
  | .otherCallStmt _ _ _ => []
  | .gotoStmt _ => []

/-- The statements in it are executed one after the other. -/
def isSequence : StmtNode → Bool
  | .compoundStmt _ => true
  | .repeatStmt _ _ => true
  | _ => false

def isLoop : StmtNode → Bool
  | .whileStmt _ _ => true
  | .repeatStmt _ _ => true
  | .forStmt _ _ _ _ => true
  | .forInStmt _ _ _ => true
  | _ => false

/-- The names that a statement opens for those in it. -/
def opened : StmtNode → List Key
  | .withStmt _ fields _ => fields
  | _ => []

/-- The statement at a place. -/
def at? (root : StmtNode) : Place → Option StmtNode
  | [] => some root
  | index :: place => (root.at? place).bind fun stmt => stmt.children[index]?

/-- The symbols that names stand for at a place. -/
def lookupAt (root : StmtNode) (lookup : Lookup) : Place → Lookup
  | [] => lookup
  | _ :: place =>
      (root.lookupAt lookup place).hide ((root.at? place).map opened |>.getD [])

/-- The innermost loop around a place. -/
def loopAround (root : StmtNode) : Place → Option Place
  | [] => none
  | _ :: place => if (root.at? place).any isLoop then some place else root.loopAround place

/-! ### Control paths -/

/-- The statements that are executed first: those of a branch, or the first one of a list. -/
def firsts : StmtNode → List Nat
  | .compoundStmt stmts => if stmts = [] then [] else [0]
  | .repeatStmt stmts _ => if stmts = [] then [] else [0]
  | .ifStmt _ _ _ => [0, 1]
  | .whileStmt _ _ => [0]
  | .forStmt _ _ _ _ => [0]
  | .forInStmt _ _ _ => [0]
  | .caseStmt _ _ arms hasElse _ => List.range (arms.length + if hasElse then 1 else 0)
  | .withStmt _ _ _ => [0]
  | .labeledStmt _ _ => [0]
  | .null => []
  | .assignStmt _ _ => []
  | .callStmt _ _ => []
  | .otherCallStmt _ _ _ => []
  | .gotoStmt _ => []

/-- Control may come to the end of the statement without one of those in it: a loop may have no
round, and a case-statement of Turbo no arm. -/
def passes (turbo : Bool) (lookup : Lookup) : StmtNode → Bool
  | .compoundStmt stmts => stmts = []
  | .repeatStmt stmts _ => stmts = []
  | .ifStmt _ _ _ => false
  | .whileStmt _ _ => true
  | .forStmt _ _ _ _ => true
  | .forInStmt _ _ _ => true
  | .caseStmt _ _ _ hasElse _ => turbo && !hasElse
  | .withStmt _ _ _ => false
  | .labeledStmt _ _ => false
  | .null => true
  | .assignStmt _ _ => true
  | .callStmt name _ => !callsTransferBuiltin lookup name
  | .otherCallStmt _ _ _ => true
  | .gotoStmt _ => false

end StmtNode

/-- The points of a body: in front of a statement, and behind it. -/
inductive Point where
  | enter (place : Place)
  | leave (place : Place)
  deriving DecidableEq, Repr

def Point.place : Point → Place
  | enter place => place
  | leave place => place

/-- A body with the names that are known to it, and the labels that procedures inside of its block
jump to. -/
structure Body where
  turbo : Bool
  lookup : Lookup
  root : StmtNode
  foreign : List Key

namespace Body

variable (body : Body)

/-- The steps of control paths from a statement to another by the structure of the body. -/
inductive Flows : Point → Point → Prop
  | pass {place stmt} (here : body.root.at? place = some stmt)
      (passes : stmt.passes body.turbo (body.root.lookupAt body.lookup place) = true) :
      Flows (.enter place) (.leave place)
  | into {place stmt index} (here : body.root.at? place = some stmt)
      (first : index ∈ stmt.firsts) :
      Flows (.enter place) (.enter (index :: place))
  | next {place stmt index} (here : body.root.at? place = some stmt)
      (sequence : stmt.isSequence = true) (more : index + 1 < stmt.children.length) :
      Flows (.leave (index :: place)) (.enter ((index + 1) :: place))
  | done {place stmt index} (here : body.root.at? place = some stmt)
      (listed : index < stmt.children.length)
      (last : stmt.isSequence = true → index + 1 = stmt.children.length) :
      Flows (.leave (index :: place)) (.leave place)
  | again {place stmt index} (here : body.root.at? place = some stmt) (loop : stmt.isLoop = true)
      (last : index + 1 = stmt.children.length) :
      Flows (.leave (index :: place)) (.enter (0 :: place))
  | broke {place name args around} (here : body.root.at? place = some (.callStmt name args))
      (call : body.root.lookupAt body.lookup place name = some (.builtin .break))
      (loop : body.root.loopAround place = some around) :
      Flows (.enter place) (.leave around)
  | continued {place name args around} (here : body.root.at? place = some (.callStmt name args))
      (call : body.root.lookupAt body.lookup place name = some (.builtin .continue))
      (loop : body.root.loopAround place = some around) :
      Flows (.enter place) (.enter (0 :: around))
  | finished {place name args around} (here : body.root.at? place = some (.callStmt name args))
      (call : body.root.lookupAt body.lookup place name = some (.builtin .continue))
      (loop : body.root.loopAround place = some around) :
      Flows (.enter place) (.leave around)

/-- A jump to a statement with a label, by a goto of the body or one of a procedure that a statement
of it calls. -/
inductive Jumps : Point → Point → Prop
  | goto {place label target stmt} (here : body.root.at? place = some (.gotoStmt label))
      (there : body.root.at? target = some (.labeledStmt label stmt)) :
      Jumps (.enter place) (.enter target)
  | foreign {place label target stmt} (jumped : label ∈ body.foreign)
      (there : body.root.at? target = some (.labeledStmt label stmt)) :
      Jumps (.enter place) (.enter target)

def Step (point next : Point) : Prop := body.Flows point next ∨ body.Jumps point next

end Body

/-! ### Statements behind one that always transfers control -/

namespace StmtNode

/-- The statement of a list stands behind one that is counted as always transferring control. -/
def goneAt (lookup : Lookup) (stmts : List StmtNode) (index : Nat) : Bool :=
  (stmts[index]?.any fun stmt => !stmt.isLabeled) &&
    sequenceTransfers lookup false (stmts.take index)

variable {lookup : Lookup}

theorem sequenceTransfers_append (gone : Bool) (stmts : List StmtNode) (stmt : StmtNode) :
    sequenceTransfers lookup gone (stmts ++ [stmt]) =
      if stmt.isNull then sequenceTransfers lookup gone stmts
      else
        (!stmt.isLabeled && sequenceTransfers lookup gone stmts) ||
          stmt.alwaysTransfers lookup := by
  induction stmts generalizing gone with
  | nil => simp [sequenceTransfers]
  | cons head rest induction =>
      rw [List.cons_append, sequenceTransfers, sequenceTransfers]
      split
      · exact induction gone
      · exact induction _

/-- Control comes to the end of a list if it comes to its last statement and to the end of it. -/
theorem sequenceTransfers_take {stmts : List StmtNode} {index : Nat} {stmt : StmtNode}
    (here : stmts[index]? = some stmt) (come : goneAt lookup stmts index = false)
    (completes : stmt.alwaysTransfers lookup = false) :
    sequenceTransfers lookup false (stmts.take (index + 1)) = false := by
  rw [goneAt, here, Option.any_some] at come
  rw [List.take_add_one, here, Option.toList_some, sequenceTransfers_append, completes,
    Bool.or_false]
  split
  · rename_i null
    have unlabeled : stmt.isLabeled = false := by
      cases stmt <;> first | rfl | cases null
    simpa [unlabeled] using come
  · exact come

end StmtNode

namespace Body

variable (body : Body)

def lookupAt (place : Place) : Lookup := body.root.lookupAt body.lookup place

/-- The statement at a place stands behind one of its list that is counted as always transferring
control, by what names stand for at the list or at a statement around it. -/
def Gone (index : Nat) (place : Place) : Prop :=
  ∃ stmt around, body.root.at? place = some stmt ∧ stmt.isSequence = true ∧ around <:+ place ∧
    StmtNode.goneAt (body.lookupAt around) stmt.children index = true

/-- Control is not counted out at a place, and not around it. -/
def Alive (place : Place) : Prop :=
  ∀ index around, index :: around <:+ place → ¬ body.Gone index around

/-- The steps of control paths where no jump goes into a statement behind one that always transfers
control, unless it comes from inside of that statement, and where a call comes back only if the name
is not, around one of the with-statements around it, that of a required procedure that does not. -/
inductive Proceeds : Point → Point → Prop
  | flows {point next} (flows : body.Flows point next)
      (plain : ∀ place name args, next = .leave place →
        body.root.at? place = some (.callStmt name args) → ∀ around, around <:+ place →
          StmtNode.callsTransferBuiltin (body.lookupAt around) name = false) :
      Proceeds point next
  | jumps {point next} (jumps : body.Jumps point next)
      (inside : ∀ index around, index :: around <:+ next.place →
        index :: around <:+ point.place ∨ ¬ body.Gone index around) :
      Proceeds point next

/-- The invariant of each point that control comes to. -/
def Keeps : Point → Prop
  | .enter place => body.Alive place
  | .leave place =>
      body.Alive place ∧
        ∀ stmt around, body.root.at? place = some stmt → around <:+ place →
          stmt.alwaysTransfers (body.lookupAt around) = false

variable {body}

theorem Keeps.alive {point : Point} (keeps : body.Keeps point) : body.Alive point.place := by
  cases point with
  | enter place => exact keeps
  | leave place => exact keeps.1

theorem Alive.suffix {place around : Place} (alive : body.Alive place) (suffix : around <:+ place) :
    body.Alive around :=
  fun index list inside => alive index list (inside.trans suffix)

theorem Alive.cons {place : Place} {index : Nat} (alive : body.Alive place)
    (come : ¬ body.Gone index place) : body.Alive (index :: place) := by
  intro other around inside
  rcases List.suffix_cons_iff.mp inside with same | inside
  · obtain ⟨rfl, rfl⟩ := List.cons.inj same
    exact come
  · exact alive other around inside

/-- Control that comes to a list comes to its first statement. -/
theorem not_gone_first (place : Place) : ¬ body.Gone 0 place := by
  rintro ⟨stmt, around, -, -, -, gone⟩
  simp [StmtNode.goneAt, StmtNode.sequenceTransfers] at gone

theorem not_gone_branch {place : Place} {stmt : StmtNode} {index : Nat}
    (here : body.root.at? place = some stmt) (branch : stmt.isSequence = false) :
    ¬ body.Gone index place := by
  rintro ⟨other, around, there, sequence, -, -⟩
  obtain rfl : stmt = other := Option.some.inj (here.symm.trans there)
  exact absurd sequence (by simp [branch])

theorem goneAt_eq_false {place around : Place} {stmt : StmtNode} {index : Nat}
    (come : ¬ body.Gone index place) (here : body.root.at? place = some stmt)
    (sequence : stmt.isSequence = true) (suffix : around <:+ place) :
    StmtNode.goneAt (body.lookupAt around) stmt.children index = false := by
  by_contra gone
  exact come ⟨stmt, around, here, sequence, suffix, by simpa using gone⟩

theorem at?_cons {place : Place} {stmt child : StmtNode} {index : Nat}
    (here : body.root.at? place = some stmt) (listed : stmt.children[index]? = some child) :
    body.root.at? (index :: place) = some child := by
  rw [StmtNode.at?, here, Option.bind_some, listed]

/-- Behind a statement of a list, the list up to it is not counted as transferring control. -/
theorem Keeps.sequenceTransfers {place around : Place} {stmt : StmtNode} {index : Nat}
    (keeps : body.Keeps (.leave (index :: place))) (here : body.root.at? place = some stmt)
    (sequence : stmt.isSequence = true) (listed : index < stmt.children.length)
    (suffix : around <:+ place) :
    StmtNode.sequenceTransfers (body.lookupAt around) false (stmt.children.take (index + 1)) =
      false := by
  have child := List.getElem?_eq_getElem listed
  have come : ¬ body.Gone index place := keeps.1 index place (List.suffix_refl _)
  apply StmtNode.sequenceTransfers_take child
  · exact goneAt_eq_false come here sequence suffix
  · exact keeps.2 _ around (at?_cons here child) (suffix.trans (List.suffix_cons _ _))

/-! ### One step -/

theorem passes_alwaysTransfers {stmt : StmtNode} {place around : Place} {lookup : Lookup}
    (passes : stmt.passes body.turbo lookup = true)
    (plain : ∀ name args, stmt = .callStmt name args → ∀ around, around <:+ place →
      StmtNode.callsTransferBuiltin (body.lookupAt around) name = false)
    (suffix : around <:+ place) : stmt.alwaysTransfers (body.lookupAt around) = false := by
  cases stmt with
  | compoundStmt stmts =>
      obtain rfl : stmts = [] := by simpa [StmtNode.passes] using passes
      rfl
  | callStmt name args => exact plain name args rfl around suffix
  | ifStmt | withStmt | gotoStmt => simp [StmtNode.passes] at passes
  | _ => rfl

theorem first_not_gone {place : Place} {stmt : StmtNode} {index : Nat}
    (here : body.root.at? place = some stmt) (first : index ∈ stmt.firsts) :
    ¬ body.Gone index place := by
  by_cases sequence : stmt.isSequence = true
  · have zero : index = 0 := by
      cases stmt with
      | compoundStmt stmts | repeatStmt stmts =>
          rw [StmtNode.firsts] at first
          split at first <;> simp_all
      | _ => cases sequence
    rw [zero]
    exact not_gone_first place
  · exact not_gone_branch here (by simpa using sequence)

/-- A statement ends only behind one in it that control comes to the end of. -/
theorem done_alwaysTransfers {place around : Place} {stmt : StmtNode} {index : Nat}
    (keeps : body.Keeps (.leave (index :: place))) (here : body.root.at? place = some stmt)
    (listed : index < stmt.children.length)
    (last : stmt.isSequence = true → index + 1 = stmt.children.length)
    (suffix : around <:+ place) : stmt.alwaysTransfers (body.lookupAt around) = false := by
  have child := at?_cons here (List.getElem?_eq_getElem listed)
  have completes := keeps.2 _ around child (suffix.trans (List.suffix_cons _ _))
  cases stmt with
  | compoundStmt stmts =>
      have ends := keeps.sequenceTransfers here rfl listed suffix
      rwa [last rfl, List.take_length] at ends
  | withStmt records fields inner =>
      obtain rfl : index = 0 := by simpa [StmtNode.children] using listed
      exact completes
  | ifStmt cond thenPart elsePart =>
      have which : index = 0 ∨ index = 1 := by
        simp only [StmtNode.children, List.length_cons, List.length_nil] at listed
        omega
      rw [StmtNode.alwaysTransfers]
      rcases which with rfl | rfl
      · have thenEnds : thenPart.alwaysTransfers (body.lookupAt around) = false := completes
        rw [thenEnds, Bool.and_false, Bool.false_and]
      · have elseEnds : elsePart.alwaysTransfers (body.lookupAt around) = false := completes
        rw [elseEnds, Bool.and_false]
  | null | assignStmt | callStmt | otherCallStmt | gotoStmt =>
      exact absurd listed (Nat.not_lt_zero _)
  | _ => rfl

theorem loopAround_spec {root : StmtNode} {place around : Place}
    (loop : root.loopAround place = some around) :
    around <:+ place ∧ ∃ stmt, root.at? around = some stmt ∧ stmt.isLoop = true := by
  induction place with
  | nil => cases loop
  | cons index place induction =>
      rw [StmtNode.loopAround] at loop
      split at loop
      · rename_i found
        obtain rfl := Option.some.inj loop
        obtain ⟨stmt, here, isLoop⟩ := Option.any_eq_true _ _ |>.mp found
        exact ⟨List.suffix_cons _ _, stmt, here, isLoop⟩
      · obtain ⟨suffix, loop⟩ := induction loop
        exact ⟨suffix.trans (List.suffix_cons _ _), loop⟩

theorem loop_alwaysTransfers {stmt : StmtNode} {lookup : Lookup} (loop : stmt.isLoop = true) :
    stmt.alwaysTransfers lookup = false := by
  cases stmt <;> first | rfl | cases loop

/-- Control that leaves a loop from inside. -/
theorem keeps_leave_loop {place around : Place} (alive : body.Alive place)
    (loop : body.root.loopAround place = some around) : body.Keeps (.leave around) := by
  obtain ⟨suffix, stmt, here, isLoop⟩ := loopAround_spec loop
  refine ⟨alive.suffix suffix, ?_⟩
  intro other list there inside
  obtain rfl : stmt = other := Option.some.inj (here.symm.trans there)
  exact loop_alwaysTransfers isLoop

theorem keeps_flows {point next : Point} (keeps : body.Keeps point)
    (flows : body.Flows point next)
    (plain : ∀ place name args, next = .leave place →
      body.root.at? place = some (.callStmt name args) → ∀ around, around <:+ place →
        StmtNode.callsTransferBuiltin (body.lookupAt around) name = false) :
    body.Keeps next := by
  cases flows with
  | @pass place stmt here passes =>
      refine ⟨keeps.alive, ?_⟩
      intro other around there suffix
      obtain rfl : stmt = other := Option.some.inj (here.symm.trans there)
      apply passes_alwaysTransfers passes _ suffix
      rintro name args rfl
      exact plain place name args rfl here
  | into here first => exact keeps.alive.cons (first_not_gone here first)
  | @next place stmt index here sequence more =>
      apply (keeps.alive.suffix (List.suffix_cons _ _)).cons
      rintro ⟨other, around, there, -, suffix, gone⟩
      obtain rfl : stmt = other := Option.some.inj (here.symm.trans there)
      have ends := keeps.sequenceTransfers here sequence (by omega) suffix
      rw [StmtNode.goneAt, ends, Bool.and_false] at gone
      cases gone
  | @done place stmt index here listed last =>
      refine ⟨keeps.alive.suffix (List.suffix_cons _ _), ?_⟩
      intro other around there suffix
      obtain rfl : stmt = other := Option.some.inj (here.symm.trans there)
      exact done_alwaysTransfers keeps here listed last suffix
  | again here loop last =>
      exact (keeps.alive.suffix (List.suffix_cons _ _)).cons (not_gone_first _)
  | broke here call loop => exact keeps_leave_loop keeps.alive loop
  | continued here call loop =>
      exact (keeps.alive.suffix (loopAround_spec loop).1).cons (not_gone_first _)
  | finished here call loop => exact keeps_leave_loop keeps.alive loop

theorem keeps_jumps {point next : Point} (keeps : body.Keeps point)
    (jumps : body.Jumps point next)
    (inside : ∀ index around, index :: around <:+ next.place →
      index :: around <:+ point.place ∨ ¬ body.Gone index around) :
    body.Keeps next := by
  have alive : body.Alive next.place := by
    intro index around suffix
    rcases inside index around suffix with before | come
    · exact keeps.alive index around before
    · exact come
  cases jumps with
  | goto => exact alive
  | foreign => exact alive

theorem keeps_step {point next : Point} (keeps : body.Keeps point)
    (step : body.Proceeds point next) : body.Keeps next := by
  cases step with
  | flows flows plain => exact keeps_flows keeps flows plain
  | jumps jumps inside => exact keeps_jumps keeps jumps inside

theorem keeps_run {point : Point}
    (run : Relation.ReflTransGen body.Proceeds (.enter []) point) : body.Keeps point := by
  induction run with
  | refl =>
      intro index around suffix
      exact absurd suffix (by simp)
  | tail before step induction => exact keeps_step induction step

/-! ### What is reported -/

theorem warnUnreachable_goneAt {lookup : Lookup} {stmts : List StmtNode} {gone reported : Bool}
    {first index : Nat}
    (warned : index ∈ StmtNode.warnUnreachable lookup gone reported first stmts) :
    ∃ offset, index = first + offset ∧ (stmts[offset]?.any fun stmt => !stmt.isLabeled) = true ∧
      StmtNode.sequenceTransfers lookup gone (stmts.take offset) = true := by
  induction stmts generalizing gone reported first with
  | nil => cases warned
  | cons stmt stmts induction =>
      rw [StmtNode.warnUnreachable] at warned
      split at warned
      · rename_i null
        obtain ⟨offset, same, unlabeled, transfers⟩ := induction warned
        refine ⟨offset + 1, by omega, unlabeled, ?_⟩
        rw [List.take_succ_cons, StmtNode.sequenceTransfers, if_pos null]
        exact transfers
      · rename_i null
        rcases List.mem_append.mp warned with warned | warned
        · split at warned
          · rename_i holds
            rw [Bool.and_eq_true, Bool.and_eq_true] at holds
            refine ⟨0, List.mem_singleton.mp warned, holds.1.1, ?_⟩
            rw [List.take_zero, StmtNode.sequenceTransfers, holds.1.2]
          · cases warned
        · obtain ⟨offset, same, unlabeled, transfers⟩ := induction warned
          refine ⟨offset + 1, by omega, unlabeled, ?_⟩
          rw [List.take_succ_cons, StmtNode.sequenceTransfers, if_neg null]
          exact transfers

theorem lookupAt_cons {place : Place} {stmt : StmtNode} (index : Nat)
    (here : body.root.at? place = some stmt) :
    body.lookupAt (index :: place) = (body.lookupAt place).hide stmt.opened := by
  simp [lookupAt, StmtNode.lookupAt, here]

@[simp] theorem hide_nil (lookup : Lookup) : lookup.hide [] = lookup := by
  funext name
  simp [Lookup.hide]

theorem lookupAt_branch {place : Place} {stmt : StmtNode} (index : Nat)
    (here : body.root.at? place = some stmt) (plain : stmt.opened = []) :
    body.lookupAt (index :: place) = body.lookupAt place := by
  rw [lookupAt_cons index here, plain, hide_nil]

theorem mem_checkAll {lookup : Lookup} {place reported : Place} {stmts : List StmtNode}
    {first : Nat} (mem : reported ∈ StmtNode.checkAll lookup place first stmts) :
    ∃ (offset : Nat) (stmt : StmtNode), stmts[offset]? = some stmt ∧
      reported ∈ stmt.checkStmt lookup ((first + offset) :: place) := by
  induction stmts generalizing first with
  | nil => cases mem
  | cons stmt stmts induction =>
      rw [StmtNode.checkAll] at mem
      rcases List.mem_append.mp mem with mem | mem
      · exact ⟨0, stmt, rfl, mem⟩
      · obtain ⟨offset, other, here, mem⟩ := induction mem
        refine ⟨offset + 1, other, here, ?_⟩
        rwa [Nat.add_right_comm, Nat.add_assoc] at mem

theorem gone_of_warned {place : Place} {stmt : StmtNode} {index : Nat}
    (here : body.root.at? place = some stmt) (sequence : stmt.isSequence = true)
    (warned : index ∈
      StmtNode.warnUnreachable (body.lookupAt place) false false 0 stmt.children) :
    body.Gone index place := by
  obtain ⟨offset, same, unlabeled, transfers⟩ := warnUnreachable_goneAt warned
  rw [Nat.zero_add] at same
  subst same
  refine ⟨stmt, place, here, sequence, List.suffix_refl _, ?_⟩
  rw [StmtNode.goneAt, unlabeled, transfers, Bool.and_self]

/-- A statement that is reported in a list, or in a statement of it. -/
theorem gone_of_reported_list {place reported : Place} {stmt : StmtNode} {stmts : List StmtNode}
    (here : body.root.at? place = some stmt) (sequence : stmt.isSequence = true)
    (plain : stmt.opened = []) (list : stmt.children = stmts)
    (induction : ∀ child ∈ stmts, ∀ {place : Place}, body.root.at? place = some child →
      reported ∈ child.checkStmt (body.lookupAt place) place →
      ∃ index around, reported = index :: around ∧ body.Gone index around)
    (mem : reported ∈
      (StmtNode.warnUnreachable (body.lookupAt place) false false 0 stmts).map (· :: place) ++
        StmtNode.checkAll (body.lookupAt place) place 0 stmts) :
    ∃ index around, reported = index :: around ∧ body.Gone index around := by
  subst list
  rcases List.mem_append.mp mem with warned | mem
  · obtain ⟨index, listed, rfl⟩ := List.mem_map.mp warned
    exact ⟨index, place, rfl, gone_of_warned here sequence listed⟩
  · obtain ⟨offset, child, listed, mem⟩ := mem_checkAll mem
    rw [Nat.zero_add, ← lookupAt_branch offset here plain] at mem
    exact induction child (List.mem_of_getElem? listed) (at?_cons here listed) mem

/-- A statement that is reported stands behind one that is counted as always transferring
control. -/
theorem gone_of_reported {stmt : StmtNode} {place reported : Place}
    (here : body.root.at? place = some stmt)
    (mem : reported ∈ stmt.checkStmt (body.lookupAt place) place) :
    ∃ index around, reported = index :: around ∧ body.Gone index around := by
  induction stmt generalizing place with
  | null | assignStmt | callStmt | otherCallStmt | gotoStmt => cases mem
  | compoundStmt stmts induction =>
      exact gone_of_reported_list here rfl rfl rfl induction mem
  | repeatStmt stmts cond induction =>
      exact gone_of_reported_list here rfl rfl rfl induction mem
  | ifStmt cond thenPart elsePart inThen inElse =>
      rw [StmtNode.checkStmt] at mem
      rcases List.mem_append.mp mem with mem | mem
      · rw [← lookupAt_branch 0 here rfl] at mem
        exact inThen (at?_cons here rfl) mem
      · rw [← lookupAt_branch 1 here rfl] at mem
        exact inElse (at?_cons here rfl) mem
  | caseStmt selector labels arms hasElse elsePart inArm inElse =>
      rw [StmtNode.checkStmt] at mem
      rcases List.mem_append.mp mem with mem | mem
      · obtain ⟨offset, stmt, listed, mem⟩ := mem_checkAll mem
        have child : (arms ++ [elsePart])[offset]? = some stmt := by
          rw [List.getElem?_append_left (List.getElem?_eq_some_iff.mp listed).1, listed]
        rw [Nat.zero_add, ← lookupAt_branch offset here rfl] at mem
        exact inArm stmt (List.mem_of_getElem? listed) (at?_cons here child) mem
      · have child : (arms ++ [elsePart])[arms.length]? = some elsePart := by simp
        rw [← lookupAt_branch arms.length here rfl] at mem
        exact inElse (at?_cons here child) mem
  | withStmt records fields inner induction =>
      have opens : body.lookupAt (0 :: place) = (body.lookupAt place).hide fields :=
        lookupAt_cons 0 here
      rw [StmtNode.checkStmt, ← opens] at mem
      exact induction (at?_cons here rfl) mem
  | whileStmt cond inner induction =>
      rw [StmtNode.checkStmt, ← lookupAt_branch 0 here rfl] at mem
      exact induction (at?_cons here rfl) mem
  | forStmt var start limit inner induction =>
      rw [StmtNode.checkStmt, ← lookupAt_branch 0 here rfl] at mem
      exact induction (at?_cons here rfl) mem
  | forInStmt var setExpr inner induction =>
      rw [StmtNode.checkStmt, ← lookupAt_branch 0 here rfl] at mem
      exact induction (at?_cons here rfl) mem
  | labeledStmt label inner induction =>
      rw [StmtNode.checkStmt, ← lookupAt_branch 0 here rfl] at mem
      exact induction (at?_cons here rfl) mem

/-! ### No control path comes to a statement that is reported -/

/-- A statement that is reported is reached by no control path of the body whose jumps do not go
into statements behind one that always transfers control, nor is any statement in it. -/
theorem reported_not_reached {reported : Place} {point : Point}
    (mem : reported ∈ body.root.checkStmt body.lookup [])
    (run : Relation.ReflTransGen body.Proceeds (.enter []) point) :
    ¬ reported <:+ point.place := by
  have gone : ∃ index around, reported = index :: around ∧ body.Gone index around :=
    gone_of_reported (show body.root.at? [] = some body.root from rfl) mem
  obtain ⟨index, around, rfl, gone⟩ := gone
  intro inside
  exact (keeps_run run).alive index around inside gone

end Body

/-- A body without required procedures, with these statements. -/
def Body.ofStmts (stmts : List StmtNode) : Body where
  turbo := false
  lookup := fun _ => none
  root := .compoundStmt stmts
  foreign := []

/-- A statement that a goto jumps over. -/
def jumpOver : Body :=
  .ofStmts [.gotoStmt "1", .assignStmt (.ident "x") (.other []), .labeledStmt "1" .null]

theorem jumpOver_run :
    Relation.ReflTransGen jumpOver.Proceeds (.enter []) (.enter [2]) := by
  have into : jumpOver.Proceeds (.enter []) (.enter [0]) := by
    apply Body.Proceeds.flows
    · exact .into rfl (List.mem_singleton.mpr rfl)
    · intro place name args same
      cases same
  have jump : jumpOver.Proceeds (.enter [0]) (.enter [2]) := by
    apply Body.Proceeds.jumps
    · exact .goto rfl rfl
    · intro index around inside
      rcases List.suffix_cons_iff.mp inside with same | inside
      · obtain ⟨rfl, rfl⟩ := List.cons.inj same
        right
        rintro ⟨stmt, around, here, -, -, gone⟩
        obtain rfl := Option.some.inj here
        cases gone
      · cases List.suffix_nil.mp inside
  exact .tail (.single into) jump

theorem reported_not_reached_jumpOver :
    [1] ∈ jumpOver.root.checkStmt jumpOver.lookup [] ∧ ¬ [1] <:+ (Point.enter [2]).place :=
  have mem : [1] ∈ jumpOver.root.checkStmt jumpOver.lookup [] := by decide
  ⟨mem, Body.reported_not_reached mem jumpOver_run⟩

/-- The goto behind the statements jumps to a label in the compound statement that stands behind
the goto of the first one: control goes on behind that. -/
def jumpBack : Body :=
  .ofStmts
    [.compoundStmt [.gotoStmt "2", .compoundStmt [.labeledStmt "1" .null]],
      .assignStmt (.ident "x") (.other []), .labeledStmt "2" (.gotoStmt "1")]

theorem reported_reached :
    [1] ∈ jumpBack.root.checkStmt jumpBack.lookup [] ∧
      Relation.ReflTransGen jumpBack.Step (.enter []) (.enter [1]) := by
  refine ⟨by decide, ?_⟩
  have out : Relation.ReflTransGen jumpBack.Step (.enter []) (.enter [2]) :=
    .tail (.tail (.single (.inl (.into rfl (List.mem_singleton.mpr rfl))))
      (.inl (.into rfl (List.mem_singleton.mpr rfl)))) (.inr (.goto rfl rfl))
  have back : Relation.ReflTransGen jumpBack.Step (.enter [2]) (.enter [0, 1, 0]) :=
    .tail (.single (.inl (.into rfl (List.mem_singleton.mpr rfl)))) (.inr (.goto rfl rfl))
  have landed : Relation.ReflTransGen jumpBack.Step (.enter [0, 1, 0]) (.leave [0, 1, 0]) :=
    .tail (.tail (.single (.inl (.into rfl (List.mem_singleton.mpr rfl)))) (.inl (.pass rfl rfl)))
      (.inl (.done rfl (by decide) (by decide)))
  have through : Relation.ReflTransGen jumpBack.Step (.leave [0, 1, 0]) (.enter [1]) :=
    .tail (.tail (.single (.inl (.done rfl (by decide) (by decide))))
      (.inl (.done rfl (by decide) (by decide)))) (.inl (.next rfl rfl (by decide)))
  exact ((out.trans back).trans landed).trans through

end Plang.Sema
