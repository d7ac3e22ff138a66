import Plang.CodeGen.StatementForward

/-!
# Statements account for their code

Where the code of something that is executed ends, it is executed to an end.  The number of steps
that the code takes carries the rounds of loops and the jumps.
-/

namespace Plang.CodeGen.Statements

open BasicBlocks Labels

universe u

variable {σ : Type u} {code : Code σ Label} {steps : Nat}

variable (code) in
/-- Statements whose code ends after so many steps are executed to an end. -/
def Executes (steps : Nat) (node : Node σ) : Prop :=
  ∀ {loops : List LoopTargets} {low : Nat} {p : Place Label} {q : Option (Place Label)}
    {temps : Temps} {s : σ} {final : Config σ Label}, node.Stands code loops low p q temps →
    Ends code steps (.at p temps s) final → ∃ o s', Exec node s o s'

variable (code) in
/-- Everything with a shorter run is. -/
def Shorter (steps : Nat) : Prop := ∀ fewer < steps, ∀ node : Node σ, Executes code fewer node

theorem Executes.upto {node : Node σ} (executes : Executes code steps node)
    (shorter : Shorter code steps) {fewer : Nat} (le : fewer ≤ steps) :
    Executes code fewer node := by
  rcases Nat.lt_or_eq_of_le le with lt | rfl
  · exact shorter fewer lt node
  · exact executes

theorem Outcome.cases (o : Outcome) : o.goesOn = true ∨ o = .broke ∨ o.leaves = true := by
  cases o with
  | done => exact .inl rfl
  | continued => exact .inl rfl
  | broke => exact .inr (.inl rfl)
  | _ => exact .inr (.inr rfl)

section Rounds

variable {control : Control σ} {cond : ExprNode σ} {limit sel : Int} {body : StmtNode σ}

theorem executes_while (shorter : Shorter code steps) (cond : ExprNode σ) (body : StmtNode σ) :
    Executes code steps (.whileAt cond body) := by
  rintro loops low p q temps s final
    ⟨temp, inner, condBB, bodyBB, endBB, left, le, rfl, evals, branches, stands, joins, rfl⟩ ends
  rcases test : cond s with s' | ⟨v, s₁⟩
  · exact ⟨_, _, .whileStops test⟩
  by_cases zero : v = 0
  · exact ⟨_, _, .whileEnds (zero ▸ test)⟩
  obtain ⟨fewer, lt, rest⟩ := ends.restMoves (moves_true evals branches test (isTrue_update zero))
  obtain ⟨o, s₂, round⟩ := shorter fewer lt (.stmt body) stands rest
  rcases o.cases with on | rfl | out
  · obtain ⟨temps', -, reaches⟩ := (arrives_of_exec round stands).around joins on
    obtain ⟨last, le', behind⟩ := rest.rest reaches
    obtain ⟨o', s', again⟩ := shorter last (le'.trans_lt lt) (.whileAt cond body)
      (q := some endBB.start)
      ⟨temp, inner, condBB, bodyBB, endBB, left, le, rfl, evals, branches, stands, joins,
        rfl⟩ behind
    exact ⟨o', s', .whileAround test zero round on again⟩
  · exact ⟨_, _, .whileBroke test zero round⟩
  · exact ⟨_, _, .whileLeft test zero round out⟩

theorem executes_for (shorter : Shorter code steps) (control : Control σ) (limit : Int)
    (body : StmtNode σ) : Executes code steps (.forAt control limit body) := by
  rintro loops low p q temps s final ⟨limitVal, rfl, cur, cur2, inner, condBB, bodyBB, incBB,
    stepBB, endBB, left, le, apart, rfl, evals, branches, stands, joins, evals', branches', stores,
    goes, rfl⟩
    ends
  cases inside : control.cmp (control.load s) (temps limitVal) with
  | false => exact ⟨_, _, .forEnds inside⟩
  | true =>
      obtain ⟨start, kept⟩ := moves_body temps evals branches apart.2.1 inside
      obtain ⟨fewer, lt, rest⟩ := ends.restMoves start
      obtain ⟨o, s₁, round⟩ := shorter fewer lt (.stmt body) stands rest
      rcases o.cases with on | rfl | out
      · by_cases at_limit : control.load s₁ = temps limitVal
        · exact ⟨_, _, .forLast inside round on at_limit⟩
        obtain ⟨temps', alike, reaches⟩ := (arrives_of_exec round stands).around joins on
        have same := (alike limitVal apart.1).trans kept
        obtain ⟨next, kept'⟩ :=
          moves_around temps' evals' branches' stores goes apart.2.2 (same ▸ at_limit)
        obtain ⟨last, le', behind⟩ := rest.rest (reaches.trans next.reaches)
        obtain ⟨o', s', again⟩ := shorter last (le'.trans_lt lt)
          (.forAt control (temps limitVal) body)
          (q := some endBB.start) ⟨limitVal, kept'.trans same, cur, cur2, inner, condBB, bodyBB,
            incBB, stepBB, endBB, left, le, apart, rfl, evals, branches, stands, joins, evals',
            branches', stores, goes, rfl⟩ behind
        exact ⟨o', s', .forAround inside round on at_limit again⟩
      · exact ⟨_, _, .forBroke inside round⟩
      · exact ⟨_, _, .forLeft inside round out⟩

theorem executes_forIn (shorter : Shorter code steps) (control : SetControl σ) (set bit : Int)
    (body : StmtNode σ) : Executes code steps (.forInAt control set bit body) := by
  rintro loops low p q temps s final ⟨setVal, bitAlloca, ⟨rfl, rfl⟩, stands⟩ ends
  obtain ⟨inner, start, incBB, endBB, left, le, below, body_stands, joins, rfl, loop⟩ :=
    forIn_loop stands
  by_cases more : temps bitAlloca < PlangMaxSetElements
  case neg => exact ⟨_, _, .forInEnds more⟩
  cases isMem : control.isMem (temps setVal) (temps bitAlloca) with
  | false =>
      obtain ⟨temps₁, -, ⟨set₁, bit₁⟩, moves₁⟩ := loop.skips temps s more isMem
      obtain ⟨temps₂, -, ⟨set₂, bit₂⟩, moves₂⟩ := loop.around temps₁ s
      obtain ⟨fewer, lt, rest⟩ := ends.restMoves (moves₁.reaches.moves moves₂)
      obtain ⟨o, s', again⟩ := shorter fewer lt
        (.forInAt control (temps setVal) (temps bitAlloca + 1) body)
        ⟨setVal, bitAlloca, ⟨set₂.trans set₁, bit₁ ▸ bit₂⟩, stands⟩ rest
      exact ⟨o, s', .forInSkips more isMem again⟩
  | true =>
      obtain ⟨temps₁, -, ⟨set₁, bit₁⟩, moves₁⟩ := loop.enters temps s more isMem
      obtain ⟨fewer, lt, rest⟩ := ends.restMoves moves₁
      obtain ⟨o, s₁, round⟩ := shorter fewer lt (.stmt body) body_stands rest
      rcases o.cases with on | rfl | out
      · obtain ⟨temps₂, alike, reaches⟩ := (arrives_of_exec round body_stands).around joins on
        obtain ⟨temps₃, -, ⟨set₃, bit₃⟩, moves₃⟩ := loop.around temps₂ s₁
        obtain ⟨last, le', behind⟩ := rest.rest (reaches.trans moves₃.reaches)
        have set := set₃.trans ((alike setVal below.1).trans set₁)
        have bit : temps₃ bitAlloca = temps bitAlloca + 1 := by
          rw [bit₃, alike bitAlloca below.2, bit₁]
        obtain ⟨o', s', again⟩ := shorter last (le'.trans_lt lt)
          (.forInAt control (temps setVal) (temps bitAlloca + 1) body)
          ⟨setVal, bitAlloca, ⟨set, bit⟩, stands⟩ behind
        exact ⟨o', s', .forInAround more isMem round on again⟩
      · exact ⟨_, _, .forInBroke more isMem round⟩
      · exact ⟨_, _, .forInLeft more isMem round out⟩

end Rounds

/-! ### Statements and lists -/

mutual

theorem executes_stmt (shorter : Shorter code steps) (stmt : StmtNode σ) :
    Executes code steps (.stmt stmt) := by
  cases stmt with
  | empty => exact fun _ _ => ⟨_, _, .empty _⟩
  | simple run =>
      rintro loops low p q temps s final - -
      rcases result : run s with s' | s'
      · exact ⟨_, _, .simpleStops result⟩
      · exact ⟨_, _, .simple result⟩
  | halt run => exact fun _ _ => ⟨_, _, .halt run _⟩
  | compound stmts =>
      rintro loops low p q temps s final stands ends
      obtain ⟨o, s', list⟩ := executes_list shorter stmts stmts (whole_stands stands) ends
      exact ⟨o, s', .compound list⟩
  | ifThen cond thenPart =>
      rintro loops low p q temps s final
        ⟨temp, inner, thenBB, endBB, left, -, evals, branches, stands, -⟩ ends
      rcases test : cond s with s' | ⟨v, s₁⟩
      · exact ⟨_, _, .thenStops test⟩
      by_cases zero : v = 0
      · exact ⟨_, _, .thenSkipped (zero ▸ test)⟩
      obtain ⟨fewer, lt, rest⟩ := ends.restMoves (moves_true evals branches test
        (isTrue_update zero))
      obtain ⟨o, s', part⟩ := shorter fewer lt (.stmt thenPart) stands rest
      exact ⟨o, s', .thenTaken test zero part⟩
  | ifElse cond thenPart elsePart =>
      rintro loops low p q temps s final ⟨temp, inner, inner', thenBB, elseBB, endBB, left,
        left', -, evals, branches, ⟨then_stands, -⟩, ⟨else_stands, -⟩, -⟩ ends
      rcases test : cond s with s' | ⟨v, s₁⟩
      · exact ⟨_, _, .elseStops test⟩
      by_cases zero : v = 0
      · subst zero
        obtain ⟨fewer, lt, rest⟩ :=
          ends.restMoves (moves_false evals branches test isTrue_update_zero)
        obtain ⟨o, s', part⟩ := shorter fewer lt (.stmt elsePart) else_stands rest
        exact ⟨o, s', .elseTaken test part⟩
      · obtain ⟨fewer, lt, rest⟩ :=
          ends.restMoves (moves_true evals branches test (isTrue_update zero))
        obtain ⟨o, s', part⟩ := shorter fewer lt (.stmt thenPart) then_stands rest
        exact ⟨o, s', .elseThen test zero part⟩
  | whileStmt cond body =>
      rintro loops low p q temps s final ⟨condBB, goes, stands⟩ ends
      obtain ⟨fewer, lt, rest⟩ := ends.restMoves (.single goes.goes)
      obtain ⟨o, s', loop⟩ := shorter fewer lt (.whileAt cond body) stands rest
      exact ⟨o, s', .whileStmt loop⟩
  | repeatStmt stmts cond =>
      rintro loops low p q temps s final ⟨bodyBB, goes, stands⟩ ends
      obtain ⟨fewer, lt, rest⟩ := ends.restMoves (.single goes.goes)
      obtain ⟨o, s', loop⟩ := shorter fewer lt (.repeatAt stmts cond) stands rest
      exact ⟨o, s', .repeatStmt loop⟩
  | forStmt control start limit body =>
      rintro loops low p q temps s final
        ⟨fromVal, limitVal, inner, condBB, le, apart, evals, evals', stores, goes, stands⟩ ends
      rcases from_value : start s with s' | ⟨first, s₁⟩
      · exact ⟨_, _, .startStops from_value⟩
      rcases limit_value : limit s₁ with s' | ⟨last, s₂⟩
      · exact ⟨_, _, .limitStops from_value limit_value⟩
      obtain ⟨fewer, lt, rest⟩ := ends.restMoves
        (moves_start temps evals evals' stores goes apart from_value limit_value)
      obtain ⟨o, s', loop⟩ := shorter fewer lt (.forAt control last body)
        ⟨limitVal, Function.update_self .., stands⟩ rest
      exact ⟨o, s', .forStmt from_value limit_value loop⟩
  | forInStmt control setExpr body =>
      rintro loops low p q temps s final
        ⟨setVal, bitAlloca, inner, condBB, le, apart, evals, clears, goes, stands⟩ ends
      rcases value : setExpr s with s' | ⟨set, s₁⟩
      · exact ⟨_, _, .setStops value⟩
      obtain ⟨temps', start, -, moves⟩ := moves_first temps evals clears goes le apart value
      obtain ⟨fewer, lt, rest⟩ := ends.restMoves moves
      obtain ⟨o, s', loop⟩ := shorter fewer lt (.forInAt control set 0 body)
        ⟨setVal, bitAlloca, start, stands⟩ rest
      exact ⟨o, s', .forInStmt value loop⟩
  | withStmt records body =>
      rintro loops low p q temps s final ⟨acts, stands⟩ ends
      rcases result : records s with s' | s₁
      · exact ⟨_, _, .recordsStop result⟩
      obtain ⟨fewer, lt, rest⟩ := ends.restMoves (.single (acts.acts result))
      obtain ⟨o, s', part⟩ := shorter fewer lt (.stmt body) stands rest
      exact ⟨o, s', .withStmt result part⟩
  | caseStmt selector arms =>
      rintro loops low p q temps s final ⟨temp, inner, nextBB, endBB, le, evals, goes, stands,
        rfl⟩ ends
      rcases value : selector s with s' | ⟨sel, s₁⟩
      · exact ⟨_, _, .selectorStops value⟩
      obtain ⟨fewer, lt, rest⟩ := ends.restMoves (.head (evals.evals value) (.single goes.goes))
      obtain ⟨o, s', chosen⟩ := shorter fewer lt (.arms sel arms)
        ⟨temp, endBB, Function.update_self .., stands, rfl⟩ rest
      exact ⟨o, s', .caseStmt value chosen⟩
  | gotoStmt label => exact fun _ _ => ⟨_, _, .gotoStmt label _⟩
  | labeled label stmt =>
      rintro loops low p q temps s final ⟨goes, stands⟩ ends
      obtain ⟨fewer, lt, rest⟩ := ends.restMoves (.single goes.goes)
      obtain ⟨o, s', inner⟩ := shorter fewer lt (.within label stmt) ⟨rfl, stands⟩ rest
      exact ⟨o, s', .labeled inner⟩
  | breakStmt => exact fun _ _ => ⟨_, _, .breakStmt _⟩
  | continueStmt => exact fun _ _ => ⟨_, _, .continueStmt _⟩
  | exitStmt assign =>
      rintro loops low p q temps s final - -
      rcases result : assign s with s' | s'
      · exact ⟨_, _, .exitStops result⟩
      · exact ⟨_, _, .exitStmt result⟩

theorem executes_list (shorter : Shorter code steps) (whole rest : StmtList σ) :
    Executes code steps (.seq whole rest) := by
  cases rest with
  | nil => exact fun _ _ => ⟨_, _, .seqNil whole _⟩
  | cons stmt rest =>
      rintro loops low p q temps s final
        ⟨⟨more, start, below, stands⟩, inner, le, first, inner', p', q', le', same, head_stands,
          tail_stands⟩ ends
      obtain rfl := same p rfl
      obtain ⟨o, s₁, head⟩ := executes_stmt shorter stmt head_stands ends
      have arrives : Arrives code loops first p' q' temps s o s₁ := arrives_of_exec head head_stands
      by_cases ended : o = .done
      · -- the rest of the list follows, in no more steps
        subst ended
        obtain ⟨place, temps', rfl, -, reaches⟩ := arrives.done
        obtain ⟨fewer, le'', behind⟩ := ends.rest reaches
        have executes : Executes code fewer (.seq whole rest) :=
          Executes.upto (executes_list shorter whole rest) shorter le''
        obtain ⟨o, s', tail⟩ := executes
          ⟨⟨more, start, below, stands⟩, inner', le.trans le'.2, tail_stands⟩ behind
        exact ⟨o, s', .seqOn head tail⟩
      by_cases caught : ∃ label target, o = .jumped label ∧ whole.goingOn label = some target
      · obtain ⟨label, target, rfl, found⟩ := caught
        obtain ⟨temps', -, moves⟩ := arrives.jumped
        obtain ⟨fewer, lt, behind⟩ := ends.restMoves moves
        obtain ⟨last, le'', target_stands⟩ := goingOn_stands whole found stands
        obtain ⟨o, s', tail⟩ := shorter fewer lt (.seq whole target)
          ⟨⟨more, start, below, stands⟩, last, below.trans le'', target_stands⟩ behind
        exact ⟨o, s', .seqJump head found tail⟩
      · refine ⟨o, s₁, .seqOut head ended fun label jumped => ?_⟩
        exact Option.eq_none_iff_forall_ne_some.mpr fun target found =>
          caught ⟨label, target, jumped, found⟩

end

theorem executes_repeat (shorter : Shorter code steps) (stmts : StmtList σ) (cond : ExprNode σ) :
    Executes code steps (.repeatAt stmts cond) := by
  rintro loops low p q temps s final
    ⟨temp, inner, condBB, bodyBB, endBB, left, le, rfl, stands, joins, evals, branches, rfl⟩ ends
  obtain ⟨o, s₁, round⟩ := executes_list shorter stmts stmts (whole_stands stands) ends
  rcases o.cases with on | rfl | out
  · obtain ⟨temps', -, reaches⟩ :=
      (arrives_of_exec round (whole_stands stands)).around joins on
    rcases test : cond s₁ with s' | ⟨v, s₂⟩
    · exact ⟨_, _, .repeatStops round on test⟩
    by_cases zero : v = 0
    · subst zero
      obtain ⟨fewer, lt, rest⟩ := ends.restMoves
        (reaches.moves (moves_false evals branches test isTrue_update_zero))
      obtain ⟨o', s', again⟩ := shorter fewer lt (.repeatAt stmts cond) (q := some endBB.start)
        ⟨temp, inner, condBB, bodyBB, endBB, left, le, rfl, stands, joins, evals, branches,
          rfl⟩ rest
      exact ⟨o', s', .repeatAround round on test again⟩
    · exact ⟨_, _, .repeatEnds round on test zero⟩
  · exact ⟨_, _, .repeatBroke round⟩
  · exact ⟨_, _, .repeatLeft round out⟩

theorem executes_within (shorter : Shorter code steps) (label : Label) (stmt : StmtNode σ) :
    Executes code steps (.within label stmt) := by
  rintro loops low p q temps s final ⟨rfl, stands⟩ ends
  obtain ⟨o, s₁, part⟩ := executes_stmt shorter stmt stands ends
  by_cases back : o = .jumped label
  · subst back
    obtain ⟨temps', -, moves⟩ := (arrives_of_exec part stands).jumped
    obtain ⟨fewer, lt, rest⟩ := ends.restMoves moves
    obtain ⟨o, s', again⟩ := shorter fewer lt (.within label stmt) ⟨rfl, stands⟩ rest
    exact ⟨o, s', .withinAgain part again⟩
  · exact ⟨o, s₁, .withinOnce part back⟩

theorem executes_arms (shorter : Shorter code steps) (sel : Int) (arms : ArmList σ) :
    Executes code steps (.arms sel arms) := by
  cases arms with
  | otherwise stmt =>
      rintro loops low p q temps s final ⟨temp, endBB, rfl, ⟨left, stands, -⟩, rfl⟩ ends
      obtain ⟨o, s', part⟩ := executes_stmt shorter stmt stands ends
      exact ⟨o, s', .otherwise part⟩
  | plang_err_no_case report => exact fun _ _ => ⟨_, _, .noCase sel report _⟩
  | arm labels body rest =>
      rintro loops low p q temps s final
        ⟨temp, endBB, rfl, ⟨inner, armBB, testBB, left, le, branches, ⟨stands, -⟩, others⟩,
          rfl⟩ ends
      obtain ⟨fewer, lt, behind⟩ := ends.restMoves (.single branches.branches)
      cases hit : labels.any (CaseLabel.matches (temps temp)) with
      | true =>
          rw [hit, if_pos rfl] at behind
          obtain ⟨o, s', part⟩ := shorter fewer lt (.stmt body) stands behind
          exact ⟨o, s', .armTaken hit part⟩
      | false =>
          rw [hit, if_neg Bool.false_ne_true] at behind
          obtain ⟨o, s', rest_exec⟩ := shorter fewer lt (.arms (temps temp) rest)
            ⟨temp, endBB, rfl, others, rfl⟩ behind
          exact ⟨o, s', .armPassed hit rest_exec⟩

/-- Where the code of something ends, that is executed to an end. -/
theorem exec_of_ends (code : Code σ Label) (steps : Nat) (node : Node σ) :
    Executes code steps node := by
  induction steps using Nat.strong_induction_on generalizing node with
  | _ steps shorter =>
      cases node with
      | stmt stmt => exact executes_stmt shorter stmt
      | within label stmt => exact executes_within shorter label stmt
      | seq whole rest => exact executes_list shorter whole rest
      | whileAt cond body => exact executes_while shorter cond body
      | repeatAt stmts cond => exact executes_repeat shorter stmts cond
      | forAt control limit body => exact executes_for shorter control limit body
      | forInAt control set bit body => exact executes_forIn shorter control set bit body
      | arms sel arms => exact executes_arms shorter sel arms

end Plang.CodeGen.Statements
