import Plang.CodeGen.StatementEmission

/-!
# The code of a procedure does what its statements do

The jumps of legal statements stay inside of the procedure: a goto goes to a label of a list around
it, or to one that it stands behind.  The code of such statements ends exactly where they do.
-/

namespace Plang.CodeGen.Statements

open BasicBlocks Labels Builder

universe u

variable {σ : Type u} {label : Label} {inLoop : Bool} {visible more : List Label}

/-! ### Legal statements -/

theorem append_marks (marks : List Label) (subset : visible ⊆ more) :
    marks ++ visible ⊆ marks ++ more :=
  List.append_subset.mpr
    ⟨List.subset_append_left .., List.Subset.trans subset (List.subset_append_right ..)⟩

mutual

theorem legal_mono (stmt : StmtNode σ) {visible more : List Label} {inLoop : Bool}
    (subset : visible ⊆ more) (legal : stmt.Legal inLoop visible) : stmt.Legal inLoop more := by
  cases stmt with
  | empty | simple run | halt run | exitStmt assign => trivial
  | compound stmts =>
      have legal : stmts.Legal inLoop (stmts.marks ++ visible) := legal
      exact legal_mono_list stmts (append_marks stmts.marks subset) legal
  | ifThen cond thenPart =>
      have legal : thenPart.Legal inLoop visible := legal
      exact legal_mono thenPart subset legal
  | ifElse cond thenPart elsePart =>
      have legal : thenPart.Legal inLoop visible ∧ elsePart.Legal inLoop visible := legal
      exact ⟨legal_mono thenPart subset legal.1, legal_mono elsePart subset legal.2⟩
  | whileStmt cond body | forStmt control start limit body | forInStmt control setExpr body =>
      have legal : body.Legal true visible := legal
      exact legal_mono body subset legal
  | withStmt records body =>
      have legal : body.Legal inLoop visible := legal
      exact legal_mono body subset legal
  | repeatStmt stmts cond =>
      have legal : stmts.Legal true (stmts.marks ++ visible) := legal
      exact legal_mono_list stmts (append_marks stmts.marks subset) legal
  | caseStmt selector arms =>
      have legal : arms.Legal inLoop visible := legal
      exact legal_mono_arms arms subset legal
  | gotoStmt label => exact subset legal
  | labeled label stmt =>
      have legal : stmt.Legal inLoop (label :: visible) := legal
      exact legal_mono stmt (List.cons_subset_cons label subset) legal
  | breakStmt | continueStmt => exact legal

theorem legal_mono_list (stmts : StmtList σ) {visible more : List Label} {inLoop : Bool}
    (subset : visible ⊆ more) (legal : stmts.Legal inLoop visible) : stmts.Legal inLoop more := by
  cases stmts with
  | nil => trivial
  | cons stmt rest =>
      exact ⟨legal_mono stmt subset legal.1, legal_mono_list rest subset legal.2⟩

theorem legal_mono_arms (arms : ArmList σ) {visible more : List Label} {inLoop : Bool}
    (subset : visible ⊆ more) (legal : arms.Legal inLoop visible) : arms.Legal inLoop more := by
  cases arms with
  | otherwise stmt =>
      have legal : stmt.Legal inLoop visible := legal
      exact legal_mono stmt subset legal
  | plang_err_no_case report => trivial
  | arm labels body rest =>
      exact ⟨legal_mono body subset legal.1, legal_mono_arms rest subset legal.2⟩

end

mutual

/-- A label that a list would come to is one of the marks. -/
theorem behind_of_mem (stmt : StmtNode σ) (mem : label ∈ stmt.marks) :
    (stmt.behind label).isSome = true := by
  cases stmt with
  | labeled own stmt =>
      rw [StmtNode.behind]
      split
      · rfl
      · rename_i other
        exact behind_of_mem stmt ((List.mem_cons.mp mem).resolve_left (Ne.symm other))
  | compound stmts =>
      rw [StmtNode.behind, Option.isSome_map]
      exact goingOn_of_mem stmts mem
  | _ => cases mem

theorem goingOn_of_mem (stmts : StmtList σ) (mem : label ∈ stmts.marks) :
    (stmts.goingOn label).isSome = true := by
  cases stmts with
  | nil => cases mem
  | cons stmt rest =>
      rw [StmtList.goingOn]
      split
      · rfl
      · rename_i none
        refine goingOn_of_mem rest ((List.mem_append.mp mem).resolve_left fun head => ?_)
        have some := behind_of_mem stmt head
        rw [none] at some
        cases some

end

mutual

/-- What is left of a legal statement is legal where its labels are visible. -/
theorem behind_legal (stmt : StmtNode σ) {target : StmtNode σ} {visible : List Label}
    {inLoop : Bool}
    (found : stmt.behind label = some target) (marks : stmt.marks ⊆ visible)
    (legal : stmt.Legal inLoop visible) : target.Legal inLoop visible := by
  cases stmt with
  | labeled own stmt =>
      have legal : stmt.Legal inLoop (own :: visible) := legal
      have own_visible : own ∈ visible := marks List.mem_cons_self
      have inner := legal_mono stmt (List.cons_subset.mpr ⟨own_visible, List.Subset.refl _⟩) legal
      rw [StmtNode.behind] at found
      split at found
      · exact Option.some.inj found ▸ inner
      · exact behind_legal stmt found (fun _ mem => marks (List.mem_cons_of_mem own mem)) inner
  | compound stmts =>
      have legal : stmts.Legal inLoop (stmts.marks ++ visible) := legal
      have marks : stmts.marks ⊆ visible := marks
      rw [StmtNode.behind] at found
      obtain ⟨rest, caught, rfl⟩ := Option.map_eq_some_iff.mp found
      have inner := legal_mono_list stmts (List.append_subset.mpr ⟨marks, List.Subset.refl _⟩) legal
      exact legal_mono_list rest (List.subset_append_right ..)
        (goingOn_legal stmts caught marks inner)
  | _ => cases found

theorem goingOn_legal (stmts : StmtList σ) {target : StmtList σ} {visible : List Label}
    {inLoop : Bool} (found : stmts.goingOn label = some target) (marks : stmts.marks ⊆ visible)
    (legal : stmts.Legal inLoop visible) : target.Legal inLoop visible := by
  cases stmts with
  | nil => cases found
  | cons stmt rest =>
      obtain ⟨head, tail⟩ := List.append_subset.mp marks
      rw [StmtList.goingOn] at found
      split at found
      · rename_i body behind
        obtain rfl := Option.some.inj found
        exact ⟨behind_legal stmt behind head legal.1, legal.2⟩
      · exact goingOn_legal rest found tail legal.2

end

/-- Something that is executed has legal jumps. -/
def Node.Legal (inLoop : Bool) (visible : List Label) : Node σ → Prop
  | .stmt body => body.Legal inLoop visible
  | .within label body => body.Legal inLoop (label :: visible)
  | .seq whole rest =>
      whole.Legal inLoop (whole.marks ++ visible) ∧ rest.Legal inLoop (whole.marks ++ visible)
  | .whileAt _ body => body.Legal true visible
  | .repeatAt stmts _ => stmts.Legal true (stmts.marks ++ visible)
  | .forAt _ _ body => body.Legal true visible
  | .forInAt _ _ _ body => body.Legal true visible
  | .arms _ rest => rest.Legal inLoop visible

/-- A jump out of a statement is one that it may take. -/
def Outcome.Allowed (inLoop : Bool) (visible : List Label) : Outcome → Prop
  | .jumped label => label ∈ visible
  | .broke | .continued => inLoop = true
  | _ => True

theorem Outcome.Allowed.leaves {o : Outcome} (allowed : o.Allowed true visible)
    (out : o.leaves = true) : o.Allowed inLoop visible := by
  cases o with
  | broke | continued => cases out
  | _ => exact allowed

theorem Exec.allowed {node : Node σ} {s s' : σ} {o : Outcome} (exec : Exec node s o s') :
    ∀ {inLoop : Bool} {visible : List Label}, node.Legal inLoop visible →
      o.Allowed inLoop visible := by
  induction exec with
  | empty | simple | simpleStops | halt | thenStops | thenSkipped | elseStops | whileStops
  | whileEnds | whileBroke | repeatStops | repeatEnds | repeatBroke | startStops | limitStops
    | forEnds
  | forLast | forBroke | selectorStops | setStops | forInEnds
  | forInBroke | recordsStop | noCase | exitStmt | exitStops | seqNil =>
      exact fun _ => trivial
  | compound _ list => exact fun legal => list ⟨legal, legal⟩
  | thenTaken _ _ _ part => exact fun legal => part legal
  | elseThen _ _ _ part => exact fun legal => part legal.1
  | elseTaken _ _ part => exact fun legal => part legal.2
  | whileStmt _ loop => exact fun legal => loop legal
  | whileAround _ _ _ _ _ _ again => exact fun legal => again legal
  | whileLeft _ _ _ out round => exact fun legal => (round legal).leaves out
  | repeatStmt _ loop => exact fun legal => loop legal
  | repeatAround _ _ _ _ _ again => exact fun legal => again legal
  | repeatLeft _ out round => exact fun legal => (round ⟨legal, legal⟩).leaves out
  | forStmt _ _ _ loop => exact fun legal => loop legal
  | forAround _ _ _ _ _ _ again => exact fun legal => again legal
  | forLeft _ _ out round => exact fun legal => (round legal).leaves out
  | forInStmt _ _ loop => exact fun legal => loop legal
  | forInSkips _ _ _ again => exact fun legal => again legal
  | forInAround _ _ _ _ _ _ again => exact fun legal => again legal
  | forInLeft _ _ _ out round => exact fun legal => (round legal).leaves out
  | withStmt _ _ part => exact fun legal => part legal
  | caseStmt _ _ chosen => exact fun legal => chosen legal
  | otherwise _ part => exact fun legal => part legal
  | armTaken _ _ part => exact fun legal => part legal.1
  | armPassed _ _ others => exact fun legal => others legal.2
  | gotoStmt label s => exact fun legal => legal
  | labeled _ inner => exact fun legal => inner legal
  | @withinOnce label stmt s s' o _ other part =>
      intro inLoop visible legal
      have allowed := part legal
      cases o with
      | jumped target =>
          exact (List.mem_cons.mp allowed).resolve_left fun same => other (congrArg _ same)
      | _ => exact allowed
  | withinAgain _ _ _ again => exact fun legal => again legal
  | breakStmt | continueStmt => exact fun legal => legal
  | seqOn _ _ _ tail => exact fun legal => tail ⟨legal.1, legal.2.2⟩
  | @seqJump whole rest target _ _ _ _ _ _ _ caught _ _ tail =>
      exact fun legal => tail
        ⟨legal.1, goingOn_legal whole caught (List.subset_append_left ..) legal.1⟩
  | @seqOut whole rest stmt s s' o _ out free head =>
      intro inLoop visible legal
      have allowed := head legal.2.1
      cases o with
      | jumped target =>
          refine (List.mem_append.mp allowed).resolve_left fun mem => ?_
          have some := goingOn_of_mem whole mem
          rw [free target rfl] at some
          cases some
      | _ => exact allowed

/-! ### The code of a procedure -/

theorem Ends.unique {code : Code σ Label} {before final final' : Config σ Label}
    {steps steps' : Nat}
    (ends : Ends code steps before final) (ends' : Ends code steps' before final') :
    final = final' := by
  induction ends generalizing steps' with
  | returned state =>
      cases ends' with
      | returned => rfl
      | step one => cases one
  | stopped state =>
      cases ends' with
      | stopped => rfl
      | step one => cases one
  | step one _ induction =>
      obtain ⟨fewer, -, rest⟩ := ends'.after one
      exact induction rest

/-- Where the statements of a procedure stand in its code. -/
theorem body_stands {stmts : StmtList σ} (nodup : stmts.labels.Nodup)
    (legal : (StmtNode.compound stmts).Legal false []) :
    ∃ left, stmts.Stands (emitBody stmts) [] 0 (some (BlockId.start (.fresh 0))) left ∧
      Joins (emitBody stmts) left exitBlock ∧
      Terminator.ret.At (emitBody stmts) exitBlock.start := by
  let b : Builder σ Label :=
    { code := fun _ => emptyBlock, cur := .fresh 0, blocks := 2, temps := 0 }
  have fit : Fit stmts.labels b :=
    ⟨⟨fun _ _ => rfl, Nat.two_pos⟩, nodup, fun _ _ => ⟨rfl, fun same => by cases same⟩⟩
  have exit_kept : b.Reserved exitBlock :=
    ⟨rfl, fun same => absurd (BlockId.fresh.inj same) Nat.one_ne_zero⟩
  have list : ListEmits [] stmts :=
    list_emits stmts legal fun inLoop => absurd inLoop Bool.false_ne_true
  have emitted := list b fit
  let b₁ := stmts.emit [] b
  have enters : b₁.Enters exitBlock ((b₁.brIfNeeded exitBlock).goTo exitBlock) :=
    enters_br emitted.since.clean
      (emitted.since.reserved exit_kept Nat.one_lt_two (by simp [exitBlock]))
      (Nat.lt_of_lt_of_le Nat.one_lt_two emitted.since.blocks) exitBlock
  have closes : ((b₁.brIfNeeded exitBlock).goTo exitBlock).Since 0 [] _ :=
    since_close enters.clean enters.ready .ret
  refine ⟨b₁.left, emitted.stands _ ((enters.since 0).grown.trans closes.grown), ?_, ?_⟩
  · have joins : Joins (b₁.brIfNeeded exitBlock).code b₁.left exitBlock := joins_brIfNeeded _
    exact joins.grow closes.grown
  · rw [← enters.here]
    exact at_close .ret

/-- The code of a procedure ends exactly where its statements do, and with the same state. -/
theorem ends_iff_runs {stmts : StmtList σ} (nodup : stmts.labels.Nodup)
    (legal : (StmtNode.compound stmts).Legal false []) (temps : Temps) (s : σ)
    (final : Config σ Label) :
    (∃ steps, Ends (emitBody stmts) steps (.at (BlockId.start (.fresh 0)) temps s) final) ↔
      Runs stmts s final := by
  obtain ⟨left, stands, joins, returns⟩ := body_stands nodup legal
  have epilogue : ∀ temps' s',
      Ends (emitBody stmts) 1 (.at exitBlock.start temps' s') (.returned s') :=
    fun temps' s' => .step (returns.step temps' s') (.returned s')
  have arrive : ∀ {o s'}, Exec (.seq stmts stmts) s o s' →
      Arrives (emitBody stmts) [] 0 (BlockId.start (.fresh 0)) (some exitBlock.start) temps s o
        s' :=
    fun exec => (arrives_of_exec exec (whole_stands stands)).joins joins
  constructor
  · rintro ⟨steps, ends⟩
    obtain ⟨o, s', exec⟩ := exec_of_ends (emitBody stmts) steps (.seq stmts stmts)
      (whole_stands stands) ends
    obtain ⟨temps', c, there, -, reaches, -⟩ := arrive exec
    obtain ⟨fewer, -, rest⟩ := ends.rest reaches
    cases o with
    | done | exited =>
        obtain rfl := Option.some.inj there
        rw [Ends.unique rest (epilogue temps' s')]
        exact .returned exec (by simp)
    | broke | continued => cases there
    | jumped label => exact absurd (exec.allowed ⟨legal, legal⟩) List.not_mem_nil
    | stopped =>
        obtain rfl := Option.some.inj there
        rw [Ends.unique rest (.stopped s')]
        exact .stopped exec
  · rintro (⟨exec, rfl | rfl⟩ | exec)
    · obtain ⟨temps', c, there, -, reaches, -⟩ := arrive exec
      obtain rfl := Option.some.inj there
      exact reaches.ends (epilogue temps' _)
    · obtain ⟨temps', c, there, -, reaches, -⟩ := arrive exec
      obtain rfl := Option.some.inj there
      exact reaches.ends (epilogue temps' _)
    · obtain ⟨temps', c, there, -, reaches, -⟩ := arrive exec
      obtain rfl := Option.some.inj there
      exact reaches.ends (.stopped _)

/-- Counting down to zero, with a goto back to the test. -/
def countDown : StmtList Int :=
  .cons (.labeled (.number 1) (.ifThen (fun n => .ok (n, n))
    (.compound (.cons (.simple fun n => .ok (n - 1)) (.cons (.gotoStmt (.number 1)) .nil))))) .nil

theorem countDown_legal :
    countDown.labels.Nodup ∧ (StmtNode.compound countDown).Legal false [] := by
  constructor
  · simp [countDown, StmtList.labels, StmtNode.labels]
  · simp [countDown, StmtNode.Legal, StmtList.Legal]

theorem countDown_runs : Runs countDown 1 (.returned 0) := by
  refine .returned (.seqOn (.labeled (.withinAgain (.thenTaken rfl Int.one_ne_zero (.compound
    (.seqOn (.simple rfl) (.seqOut (.gotoStmt _ _) Outcome.noConfusion ?_)))) (.withinOnce
    (.thenSkipped rfl) Outcome.noConfusion))) (.seqNil _ _)) (.inl rfl)
  rintro label -
  rfl

theorem ends_countDown : ∃ steps,
    Ends (emitBody countDown) steps (.at (BlockId.start (.fresh 0)) (fun _ => 0) 1) (.returned 0) :=
  (ends_iff_runs countDown_legal.1 countDown_legal.2 (fun _ => 0) 1 (.returned 0)).mpr
    countDown_runs

end Plang.CodeGen.Statements
