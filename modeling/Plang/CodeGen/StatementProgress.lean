import Plang.CodeGen.StatementPreservation

/-!
# The code of a procedure does not get stuck

Code that does not end runs on: it never comes to the end of a block that is not closed, or to one
that it should not reach.  Where a statement stands, its code goes on for a number of steps if
everything that it may come to does, for fewer steps wherever it takes one to come there.
-/

namespace Plang.CodeGen.Statements

open BasicBlocks Labels

universe u

variable {σ : Type u} {code : Code σ Label} {steps : Nat}

variable (code) in
/-- Where a statement may come to, its code goes on. -/
structure Onward (steps : Nat) (inLoop : Bool) (visible : List Label) (loops : List LoopTargets)
    (q : Option (Place Label)) : Prop where
  done : ∀ place, q = some place → ∀ fewer ≤ steps, ∀ (temps : Temps) (s : σ),
    GoesOn code fewer (.at place temps s)
  labels : ∀ label ∈ visible, ∀ fewer < steps, ∀ (temps : Temps) (s : σ),
    GoesOn code fewer (.at (BlockId.named label).start temps s)
  loop : inLoop = true → ∀ targets ∈ loops.head?, ∀ fewer < steps, ∀ (temps : Temps) (s : σ),
    GoesOn code fewer (.at targets.continueBB.start temps s) ∧
      GoesOn code fewer (.at targets.breakBB.start temps s)
  exit : ∀ fewer < steps, ∀ (temps : Temps) (s : σ), GoesOn code fewer (.at exitBlock.start temps s)

variable (code) in
/-- The code of something goes on for so many steps. -/
def Proceeds (steps : Nat) (node : Node σ) : Prop :=
  ∀ ⦃inLoop : Bool⦄ ⦃visible : List Label⦄ ⦃loops : List LoopTargets⦄ ⦃low : Nat⦄ ⦃p : Place Label⦄
    ⦃q : Option (Place Label)⦄ ⦃temps : Temps⦄, node.Stands code loops low p q temps →
    node.Legal inLoop visible → Onward code steps inLoop visible loops q →
    ∀ s : σ, GoesOn code steps (.at p temps s)

variable (code) in
/-- Everything does, for fewer steps. -/
def Before (steps : Nat) : Prop := ∀ fewer < steps, ∀ node : Node σ, Proceeds code fewer node

theorem Proceeds.upto {node : Node σ} (proceeds : Proceeds code steps node)
    (before : Before code steps) {fewer : Nat} (le : fewer ≤ steps) : Proceeds code fewer node := by
  rcases Nat.lt_or_eq_of_le le with lt | rfl
  · exact before fewer lt node
  · exact proceeds

section Onwards

variable {inLoop : Bool} {visible : List Label} {loops : List LoopTargets}
  {q left : Option (Place Label)} {target : BlockId Label}

theorem Onward.mono (onward : Onward code steps inLoop visible loops q) {fewer : Nat}
    (le : fewer ≤ steps) : Onward code fewer inLoop visible loops q where
  done place at_place few le' := onward.done place at_place few (le'.trans le)
  labels label mem few lt := onward.labels label mem few (lt.trans_le le)
  loop inside targets head few lt := onward.loop inside targets head few (lt.trans_le le)
  exit few lt := onward.exit few (lt.trans_le le)

/-- A place that is left for a block goes on as the block does. -/
theorem goesOn_joins (joins : Joins code left target)
    (goes : ∀ fewer < steps, ∀ (temps : Temps) (s : σ),
      GoesOn code fewer (.at target.start temps s)) :
    ∀ place, left = some place → ∀ fewer ≤ steps, ∀ (temps : Temps) (s : σ),
      GoesOn code fewer (.at place temps s) :=
  fun place at_place _ le temps s =>
    goesOn_of_step (joins place at_place).goes fun few lt => goes few (lt.trans_le le) temps s

/-- A part that is left for the block where the statement is left. -/
theorem Onward.part (onward : Onward code steps inLoop visible loops (some target.start))
    (joins : Joins code left target) : Onward code steps inLoop visible loops left where
  done := goesOn_joins joins fun fewer lt => onward.done _ rfl fewer lt.le
  labels := onward.labels
  loop := onward.loop
  exit := onward.exit

/-- The body of a loop. -/
theorem Onward.round {targets : LoopTargets}
    (onward : Onward code steps inLoop visible loops (some targets.breakBB.start))
    (joins : Joins code left targets.continueBB)
    (again : ∀ fewer < steps, ∀ (temps : Temps) (s : σ),
      GoesOn code fewer (.at targets.continueBB.start temps s)) :
    Onward code steps true visible (targets :: loops) left where
  done := goesOn_joins joins again
  labels := onward.labels
  loop := by
    rintro - _ ⟨⟩ fewer lt temps s
    exact ⟨again fewer lt temps s, onward.done _ rfl fewer lt.le temps s⟩
  exit := onward.exit

/-- More labels. -/
theorem Onward.within (onward : Onward code steps inLoop visible loops q) (more : List Label)
    (goes : ∀ label ∈ more, ∀ fewer < steps, ∀ (temps : Temps) (s : σ),
      GoesOn code fewer (.at (BlockId.named label).start temps s)) :
    Onward code steps inLoop (more ++ visible) loops q where
  done := onward.done
  labels label mem := (List.mem_append.mp mem).elim (goes label) (onward.labels label)
  loop := onward.loop
  exit := onward.exit

end Onwards

section Rounds

theorem proceeds_while (before : Before code steps) (cond : ExprNode σ) (body : StmtNode σ) :
    Proceeds code steps (.whileAt cond body) := by
  rintro inLoop visible loops low p q temps
    ⟨temp, inner, condBB, bodyBB, endBB, left, le, rfl, evals, branches, stands, joins, rfl⟩ legal
      onward s
  rcases test : cond s with s' | ⟨v, s₁⟩
  · exact goesOn_stops (evals.fails test)
  by_cases zero : v = 0
  · subst zero
    exact goesOn_of_moves (moves_false evals branches test isTrue_update_zero)
      fun fewer lt => onward.done _ rfl fewer lt.le _ _
  · refine goesOn_of_moves (moves_true evals branches test (isTrue_update zero)) fun fewer lt => ?_
    refine before fewer lt (.stmt body) stands legal ?_ s₁
    refine (onward.mono lt.le).round joins fun few lt' temps' s' => ?_
    exact before few (lt'.trans lt) (.whileAt cond body)
      ⟨temp, inner, condBB, bodyBB, endBB, left, le, rfl, evals, branches, stands, joins, rfl⟩ legal
      (onward.mono (lt'.trans lt).le) s'

theorem proceeds_for (before : Before code steps) (control : Control σ) (limit : Int)
    (body : StmtNode σ) : Proceeds code steps (.forAt control limit body) := by
  rintro inLoop visible loops low p q temps ⟨limitVal, rfl, cur, cur2, inner, condBB, bodyBB, incBB,
    stepBB, endBB, left, le, apart, rfl, evals, branches, stands, joins, evals', branches', stores,
    goes, rfl⟩ legal onward s
  have ended : ∀ fewer < steps, ∀ (temps : Temps) (s : σ),
      GoesOn code fewer (.at endBB.start temps s) := fun fewer lt => onward.done _ rfl fewer lt.le
  cases inside : control.cmp (control.load s) (temps limitVal) with
  | false =>
      refine goesOn_of_moves (moves_false evals branches rfl ?_) fun fewer lt => ended fewer lt _ _
      rw [Function.update_self, Function.update_of_ne apart.2.1]
      exact inside
  | true =>
      obtain ⟨start, -⟩ := moves_body temps evals branches apart.2.1 inside
      refine goesOn_of_moves start fun fewer lt => before fewer lt (.stmt body) stands legal ?_ s
      refine (onward.mono lt.le).round joins fun few lt' temps' s' => ?_
      by_cases at_limit : control.load s' = temps' limitVal
      · refine goesOn_of_moves (moves_true evals' branches' rfl ?_)
          fun fewest lt'' => ended fewest (lt''.trans (lt'.trans lt)) _ _
        rw [Function.update_self, Function.update_of_ne apart.2.2]
        exact beq_iff_eq.mpr at_limit
      · obtain ⟨next, kept⟩ :=
          moves_around temps' evals' branches' stores goes apart.2.2 at_limit
        refine goesOn_of_moves next fun fewest lt'' => ?_
        exact before fewest (lt''.trans (lt'.trans lt)) (.forAt control (temps' limitVal) body)
          ⟨limitVal, kept, cur, cur2, inner, condBB, bodyBB, incBB, stepBB, endBB, left, le, apart,
            rfl, evals, branches, stands, joins, evals', branches', stores, goes, rfl⟩ legal
          (onward.mono (lt''.trans (lt'.trans lt)).le) _

theorem proceeds_forIn (before : Before code steps) (control : SetControl σ) (set bit : Int)
    (body : StmtNode σ) : Proceeds code steps (.forInAt control set bit body) := by
  rintro inLoop visible loops low p q temps ⟨setVal, bitAlloca, ⟨rfl, rfl⟩, stands⟩ legal onward s
  obtain ⟨inner, start, incBB, endBB, left, le, below, body_stands, joins, rfl, loop⟩ :=
    forIn_loop stands
  have again : ∀ fewer < steps, ∀ (temps : Temps) (s : σ),
      GoesOn code fewer (.at incBB.start temps s) := by
    intro fewer lt temps s
    obtain ⟨temps', -, -, moves⟩ := loop.around temps s
    refine goesOn_of_moves moves fun few lt' => ?_
    exact before few (lt'.trans lt)
      (.forInAt control (temps' setVal) (temps' bitAlloca) body)
      ⟨setVal, bitAlloca, ⟨rfl, rfl⟩, stands⟩ legal (onward.mono (lt'.trans lt).le) s
  by_cases more : temps bitAlloca < PlangMaxSetElements
  case neg =>
    obtain ⟨temps', -, moves⟩ := loop.ends temps s more
    exact goesOn_of_moves moves fun fewer lt => onward.done _ rfl fewer lt.le temps' s
  cases isMem : control.isMem (temps setVal) (temps bitAlloca) with
  | false =>
      obtain ⟨temps', -, -, moves⟩ := loop.skips temps s more isMem
      exact goesOn_of_moves moves fun fewer lt => again fewer lt temps' s
  | true =>
      obtain ⟨temps', -, -, moves⟩ := loop.enters temps s more isMem
      refine goesOn_of_moves moves fun fewer lt => ?_
      exact before fewer lt (.stmt body) body_stands legal
        ((onward.mono lt.le).round joins fun few lt' => again few (lt'.trans lt)) _

end Rounds

/-! ### Statements and lists -/

mutual

theorem proceeds_stmt (before : Before code steps) (stmt : StmtNode σ) :
    Proceeds code steps (.stmt stmt) := by
  cases stmt with
  | empty =>
      rintro inLoop visible loops low p q temps rfl - onward s
      exact onward.done p rfl steps (Nat.le_refl steps) temps s
  | simple run =>
      rintro inLoop visible loops low p q temps ⟨acts, rfl⟩ - onward s
      rcases result : run s with s' | s'
      · exact goesOn_stops (acts.stops result)
      · exact goesOn_of_step (acts.acts result) fun fewer lt => onward.done _ rfl fewer lt.le
          temps s'
  | halt run =>
      rintro inLoop visible loops low p q temps ⟨acts, rfl⟩ - - s
      exact goesOn_stops (acts.stops rfl)
  | compound stmts =>
      rintro inLoop visible loops low p q temps stands legal onward s
      exact proceeds_list before stmts stmts (whole_stands stands) ⟨legal, legal⟩ onward s
  | ifThen cond thenPart =>
      rintro inLoop visible loops low p q temps
        ⟨temp, inner, thenBB, endBB, left, -, evals, branches, stands, joins, rfl⟩ legal onward s
      rcases test : cond s with s' | ⟨v, s₁⟩
      · exact goesOn_stops (evals.fails test)
      by_cases zero : v = 0
      · subst zero
        exact goesOn_of_moves (moves_false evals branches test isTrue_update_zero)
          fun fewer lt => onward.done _ rfl fewer lt.le _ _
      · exact goesOn_of_moves (moves_true evals branches test (isTrue_update zero)) fun fewer lt =>
          before fewer lt (.stmt thenPart) stands legal ((onward.mono lt.le).part joins) s₁
  | ifElse cond thenPart elsePart =>
      rintro inLoop visible loops low p q temps ⟨temp, inner, inner', thenBB, elseBB, endBB,
        left, left', -, evals, branches, ⟨then_stands, joins⟩, ⟨else_stands, joins'⟩, rfl⟩ legal
          onward s
      rcases test : cond s with s' | ⟨v, s₁⟩
      · exact goesOn_stops (evals.fails test)
      by_cases zero : v = 0
      · subst zero
        exact goesOn_of_moves (moves_false evals branches test isTrue_update_zero) fun fewer lt =>
          before fewer lt (.stmt elsePart) else_stands legal.2 ((onward.mono lt.le).part joins') s₁
      · exact goesOn_of_moves (moves_true evals branches test (isTrue_update zero)) fun fewer lt =>
          before fewer lt (.stmt thenPart) then_stands legal.1 ((onward.mono lt.le).part joins) s₁
  | whileStmt cond body =>
      rintro inLoop visible loops low p q temps ⟨condBB, goes, stands⟩ legal onward s
      exact goesOn_of_step goes.goes fun fewer lt =>
        before fewer lt (.whileAt cond body) stands legal (onward.mono lt.le) s
  | repeatStmt stmts cond =>
      rintro inLoop visible loops low p q temps ⟨bodyBB, goes, stands⟩ legal onward s
      exact goesOn_of_step goes.goes fun fewer lt =>
        before fewer lt (.repeatAt stmts cond) stands legal (onward.mono lt.le) s
  | forStmt control start limit body =>
      rintro inLoop visible loops low p q temps
        ⟨fromVal, limitVal, inner, condBB, le, apart, evals, evals', stores, goes, stands⟩ legal
          onward s
      rcases from_value : start s with s' | ⟨first, s₁⟩
      · exact goesOn_stops (evals.fails from_value)
      rcases limit_value : limit s₁ with s' | ⟨last, s₂⟩
      · exact goesOn_of_step (evals.evals from_value) fun fewer _ =>
          goesOn_stops (evals'.fails limit_value)
      · exact goesOn_of_moves
          (moves_start temps evals evals' stores goes apart from_value limit_value) fun fewer lt =>
            before fewer lt (.forAt control last body) ⟨limitVal, Function.update_self ..,
              stands⟩ legal
              (onward.mono lt.le) _
  | forInStmt control setExpr body =>
      rintro inLoop visible loops low p q temps
        ⟨setVal, bitAlloca, inner, condBB, le, apart, evals, clears, goes, stands⟩ legal onward s
      rcases value : setExpr s with s' | ⟨set, s₁⟩
      · exact goesOn_stops (evals.fails value)
      obtain ⟨temps', start, -, moves⟩ := moves_first temps evals clears goes le apart value
      exact goesOn_of_moves moves fun fewer lt => before fewer lt (.forInAt control set 0 body)
        ⟨setVal, bitAlloca, start, stands⟩ legal (onward.mono lt.le) s₁
  | withStmt records body =>
      rintro inLoop visible loops low p q temps ⟨acts, stands⟩ legal onward s
      rcases result : records s with s' | s₁
      · exact goesOn_stops (acts.stops result)
      · exact goesOn_of_step (acts.acts result) fun fewer lt =>
          before fewer lt (.stmt body) stands legal (onward.mono lt.le) s₁
  | caseStmt selector arms =>
      rintro inLoop visible loops low p q temps
        ⟨temp, inner, nextBB, endBB, le, evals, goes, stands, rfl⟩ legal onward s
      rcases value : selector s with s' | ⟨sel, s₁⟩
      · exact goesOn_stops (evals.fails value)
      · exact goesOn_of_moves (.head (evals.evals value) (.single goes.goes)) fun fewer lt =>
          before fewer lt (.arms sel arms) ⟨temp, endBB, Function.update_self .., stands, rfl⟩ legal
            (onward.mono lt.le) s₁
  | gotoStmt label =>
      rintro inLoop visible loops low p q temps ⟨goes, rfl⟩ legal onward s
      exact goesOn_of_step goes.goes fun fewer lt => onward.labels label legal fewer lt temps s
  | labeled label stmt =>
      rintro inLoop visible loops low p q temps ⟨goes, stands⟩ legal onward s
      exact goesOn_of_step goes.goes fun fewer lt =>
        before fewer lt (.within label stmt) ⟨rfl, stands⟩ legal (onward.mono lt.le) s
  | breakStmt =>
      rintro inLoop visible loops low p q temps ⟨targets, outer, rfl, goes, rfl⟩ legal onward s
      exact goesOn_of_step goes.goes fun fewer lt =>
        (onward.loop legal targets rfl fewer lt temps s).2
  | continueStmt =>
      rintro inLoop visible loops low p q temps ⟨targets, outer, rfl, goes, rfl⟩ legal onward s
      exact goesOn_of_step goes.goes fun fewer lt =>
        (onward.loop legal targets rfl fewer lt temps s).1
  | exitStmt assign =>
      rintro inLoop visible loops low p q temps ⟨acts, goes, rfl⟩ - onward s
      rcases result : assign s with s' | s'
      · exact goesOn_stops (acts.stops result)
      · exact goesOn_of_moves (.head (acts.acts result) (.single goes.goes))
          fun fewer lt => onward.exit fewer lt temps s'

theorem proceeds_list (before : Before code steps) (whole rest : StmtList σ) :
    Proceeds code steps (.seq whole rest) := by
  cases rest with
  | nil =>
      rintro inLoop visible loops low p q temps ⟨-, inner, le, rfl⟩ - onward s
      exact onward.done p rfl steps (Nat.le_refl steps) temps s
  | cons stmt rest =>
      rintro inLoop visible loops low p q temps
        ⟨⟨more, start, below, stands⟩, inner, le, first, inner', p', q', le', same, head_stands,
          tail_stands⟩ legal onward s
      obtain rfl := same p rfl
      have outer : Onward code steps inLoop (whole.marks ++ visible) loops q := by
        refine onward.within whole.marks fun label mem fewer lt temps' s' => ?_
        obtain ⟨target, found⟩ := Option.isSome_iff_exists.mp (goingOn_of_mem whole mem)
        obtain ⟨last, le'', target_stands⟩ := goingOn_stands whole found stands
        exact before fewer lt (.seq whole target)
          ⟨⟨more, start, below, stands⟩, last, below.trans le'', target_stands⟩
          ⟨legal.1, goingOn_legal whole found (List.subset_append_left ..) legal.1⟩
          (onward.mono lt.le) s'
      refine proceeds_stmt before stmt head_stands legal.2.1 ?_ s
      refine ⟨fun place at_place fewer le'' temps' s' => ?_, outer.labels, outer.loop, outer.exit⟩
      -- the rest of the list follows, in no more steps
      have tail := (proceeds_list before whole rest).upto before le''
      exact tail ⟨⟨more, start, below, stands⟩, inner', le.trans le'.2, at_place ▸ tail_stands⟩
        ⟨legal.1, legal.2.2⟩ (onward.mono le'') s'

end

theorem proceeds_repeat (before : Before code steps) (stmts : StmtList σ) (cond : ExprNode σ) :
    Proceeds code steps (.repeatAt stmts cond) := by
  rintro inLoop visible loops low p q temps
    ⟨temp, inner, condBB, bodyBB, endBB, left, le, rfl, stands, joins, evals, branches, rfl⟩ legal
      onward s
  refine proceeds_list before stmts stmts (whole_stands stands) ⟨legal, legal⟩ ?_ s
  refine onward.round joins fun fewer lt temps' s' => ?_
  rcases test : cond s' with s₁ | ⟨v, s₁⟩
  · exact goesOn_stops (evals.fails test)
  by_cases zero : v = 0
  · subst zero
    exact goesOn_of_moves (moves_false evals branches test isTrue_update_zero) fun few lt' =>
      before few (lt'.trans lt) (.repeatAt stmts cond)
        ⟨temp, inner, condBB, bodyBB, endBB, left, le, rfl, stands, joins, evals, branches,
          rfl⟩ legal
        (onward.mono (lt'.trans lt).le) s₁
  · exact goesOn_of_moves (moves_true evals branches test (isTrue_update zero)) fun few lt' =>
      onward.done _ rfl few (lt'.trans lt).le _ s₁

theorem proceeds_within (before : Before code steps) (label : Label) (stmt : StmtNode σ) :
    Proceeds code steps (.within label stmt) := by
  rintro inLoop visible loops low p q temps ⟨rfl, stands⟩ legal onward s
  refine proceeds_stmt before stmt stands legal ?_ s
  refine onward.within [label] fun other mem fewer lt temps' s' => ?_
  obtain rfl := List.mem_singleton.mp mem
  exact before fewer lt (.within other stmt) ⟨rfl, stands⟩ legal (onward.mono lt.le) s'

theorem proceeds_arms (before : Before code steps) (sel : Int) (arms : ArmList σ) :
    Proceeds code steps (.arms sel arms) := by
  cases arms with
  | otherwise stmt =>
      rintro inLoop visible loops low p q temps ⟨temp, endBB, rfl, ⟨left, stands, joins⟩, rfl⟩
        legal onward
      exact proceeds_stmt before stmt stands legal (onward.part joins)
  | plang_err_no_case report =>
      rintro inLoop visible loops low p q temps ⟨temp, endBB, rfl, acts, rfl⟩ - - s
      exact goesOn_stops (acts.stops rfl)
  | arm labels body rest =>
      rintro inLoop visible loops low p q temps
        ⟨temp, endBB, rfl, ⟨inner, armBB, testBB, left, le, branches, ⟨stands, joins⟩, others⟩,
          rfl⟩ legal
        onward s
      refine goesOn_of_step branches.branches fun fewer lt => ?_
      cases hit : labels.any (CaseLabel.matches (temps temp)) with
      | true =>
          rw [if_pos rfl]
          exact before fewer lt (.stmt body) stands legal.1 ((onward.mono lt.le).part joins) s
      | false =>
          rw [if_neg Bool.false_ne_true]
          exact before fewer lt (.arms (temps temp) rest) ⟨temp, endBB, rfl, others, rfl⟩ legal.2
            (onward.mono lt.le) s

/-- The code of anything goes on as long as what it comes to does. -/
theorem proceeds (code : Code σ Label) (steps : Nat) (node : Node σ) :
    Proceeds code steps node := by
  induction steps using Nat.strong_induction_on generalizing node with
  | _ steps before =>
      cases node with
      | stmt stmt => exact proceeds_stmt before stmt
      | within label stmt => exact proceeds_within before label stmt
      | seq whole rest => exact proceeds_list before whole rest
      | whileAt cond body => exact proceeds_while before cond body
      | repeatAt stmts cond => exact proceeds_repeat before stmts cond
      | forAt control limit body => exact proceeds_for before control limit body
      | forInAt control set bit body => exact proceeds_forIn before control set bit body
      | arms sel arms => exact proceeds_arms before sel arms

/-- Wherever the code of a procedure comes to, it has ended or takes a step. -/
theorem never_stuck {stmts : StmtList σ} (nodup : stmts.labels.Nodup)
    (legal : (StmtNode.compound stmts).Legal false []) (temps : Temps) (s : σ)
    {after : Config σ Label}
    (reaches : Reaches (emitBody stmts) (.at (BlockId.start (.fresh 0)) temps s) after) :
    after.IsEnd ∨ ∃ next, step (emitBody stmts) after = some next := by
  obtain ⟨left, stands, joins, returns⟩ := body_stands nodup legal
  have epilogue : ∀ fewer (temps : Temps) (s : σ),
      GoesOn (emitBody stmts) fewer (.at exitBlock.start temps s) := fun fewer temps s =>
    goesOn_returns (returns.step temps s)
  refine ended_or_steps (fun steps => ?_) reaches
  refine proceeds (emitBody stmts) steps (.seq stmts stmts) (whole_stands stands)
    ⟨legal, legal⟩ ?_ s
  exact ⟨goesOn_joins joins fun fewer _ => epilogue fewer,
    fun label mem => absurd mem List.not_mem_nil, fun inside => absurd inside Bool.false_ne_true,
    fun fewer _ => epilogue fewer⟩

/-- Where it has counted down to zero, it goes on. -/
theorem countDown_steps : ∃ place temps,
    Reaches (emitBody countDown) (.at (BlockId.start (.fresh 0)) (fun _ => 0) 1)
        (.at place temps 0) ∧
      ((Config.at place temps 0 : Config Int Label).IsEnd ∨
        ∃ next, step (emitBody countDown) (.at place temps 0) = some next) := by
  have counted : ∃ place temps, Reaches (emitBody countDown)
      (.at (BlockId.start (.fresh 0)) (fun _ => 0) 1) (.at place temps 0) :=
    ⟨_, _, .head rfl (.head rfl (.head rfl (.single (show step _ _ = some (.at _ _ 0) from rfl))))⟩
  obtain ⟨place, temps, reaches⟩ := counted
  exact ⟨place, temps, reaches,
    never_stuck countDown_legal.1 countDown_legal.2 (fun _ => 0) 1 reaches⟩

end Plang.CodeGen.Statements
