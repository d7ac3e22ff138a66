import Plang.CodeGen.StatementPlaces

/-!
# Code follows statements
-/

namespace Plang.CodeGen.Statements

open BasicBlocks Labels

universe u

variable {σ : Type u} {code : Code σ Label}

/-- Where a program goes on behind a statement that is left at a place. -/
def dest (loops : List LoopTargets) (q : Option (Place Label)) (temps : Temps) (s : σ) :
    Outcome → Option (Config σ Label)
  | .done => q.map (.at · temps s)
  | .broke => loops.head?.map fun targets => .at targets.breakBB.start temps s
  | .continued => loops.head?.map fun targets => .at targets.continueBB.start temps s
  | .exited => some (.at exitBlock.start temps s)
  | .jumped label => some (.at (BlockId.named label).start temps s)
  | .stopped => some (.stopped s)

variable (code) in
/-- Where something that is executed stands, with the values that it relies on. -/
def Node.Stands (loops : List LoopTargets) (low : Nat) (p : Place Label) (q : Option (Place Label))
    (temps : Temps) : Node σ → Prop
  | .stmt body => body.Stands code loops low p q
  | .within label body =>
      p = (BlockId.named label).start ∧ body.Stands code loops low p q
  | .seq whole rest =>
      (∃ inner start, low ≤ inner ∧ whole.Stands code loops inner start q) ∧
        ∃ inner, low ≤ inner ∧ rest.Stands code loops inner (some p) q
  | .whileAt cond body => WhileStands code cond (body.Stands code) loops low p q
  | .repeatAt stmts cond => RepeatStands code cond (stmts.Stands code) loops low p q
  | .forAt control limit body =>
      ∃ limitVal, temps limitVal = limit ∧
        ForStands code control limitVal (body.Stands code) loops low p q
  | .forInAt control set bit body =>
      ∃ setVal bitAlloca, (temps setVal = set ∧ temps bitAlloca = bit) ∧
        ForInStands code control setVal bitAlloca (body.Stands code) loops low p q
  | .arms sel rest =>
      ∃ temp endBB, temps temp = sel ∧ rest.Stands code temp endBB loops low p ∧
        q = some endBB.start

/-- The values below a mark are alike. -/
def Alike (low : Nat) (temps temps' : Temps) : Prop := ∀ i < low, temps' i = temps i

theorem Alike.refl (low : Nat) (temps : Temps) : Alike low temps temps := fun _ _ => rfl

theorem Alike.trans {low : Nat} {temps temps' temps'' : Temps} (one : Alike low temps temps')
    (two : Alike low temps' temps'') : Alike low temps temps'' :=
  fun i below => (two i below).trans (one i below)

theorem Alike.mono {low inner : Nat} {temps temps' : Temps} (alike : Alike inner temps temps')
    (le : low ≤ inner) : Alike low temps temps' :=
  fun i below => alike i (Nat.lt_of_lt_of_le below le)

theorem alike_update {low temp : Nat} {temps : Temps} (le : low ≤ temp) (v : Int) :
    Alike low temps (Function.update temps temp v) :=
  fun _ below => Function.update_of_ne (Nat.ne_of_lt (Nat.lt_of_lt_of_le below le)) ..

variable (code) in
/-- The code comes from a place to where a statement goes on that ends so; a jump takes a step. -/
def Arrives (loops : List LoopTargets) (low : Nat) (p : Place Label) (q : Option (Place Label))
    (temps : Temps) (s : σ) (o : Outcome) (s' : σ) : Prop :=
  ∃ temps' c, dest loops q temps' s' o = some c ∧ Alike low temps temps' ∧
    Reaches code (.at p temps s) c ∧ (o = .done ∨ Moves code (.at p temps s) c)

section Arriving

variable {loops : List LoopTargets} {low inner : Nat} {p p' : Place Label}
  {q left : Option (Place Label)} {temps temps' : Temps} {s s₁ s' : σ} {o : Outcome}
  {targets : LoopTargets}

theorem Arrives.before (arrives : Arrives code loops inner p' q temps' s₁ o s') (le : low ≤ inner)
    (alike : Alike low temps temps')
    (reaches : Reaches code (.at p temps s) (.at p' temps' s₁)) :
    Arrives code loops low p q temps s o s' := by
  obtain ⟨temps'', c, there, alike', on, moves⟩ := arrives
  exact ⟨temps'', c, there, alike.trans (alike'.mono le), reaches.trans on,
    moves.imp_right reaches.moves⟩

theorem Arrives.step (arrives : Arrives code loops inner p' q temps' s₁ o s') (le : low ≤ inner)
    (alike : Alike low temps temps')
    (one : step code (.at p temps s) = some (.at p' temps' s₁)) :
    Arrives code loops low p q temps s o s' :=
  arrives.before le alike (.single one)

theorem Arrives.mono (arrives : Arrives code loops inner p q temps s o s') (le : low ≤ inner) :
    Arrives code loops low p q temps s o s' :=
  arrives.before le (.refl low temps) .refl

theorem arrives_here (s : σ) : Arrives code loops low p (some p) temps s .done s :=
  ⟨temps, _, rfl, .refl low temps, .refl, .inl rfl⟩

/-- A single step to where a statement goes on. -/
theorem arrives_there {c : Config σ Label} (there : dest loops q temps s' o = some c)
    (one : step code (.at p temps s) = some c) : Arrives code loops low p q temps s o s' :=
  ⟨temps, c, there, .refl low temps, .single one, .inr (.single one)⟩

/-- Where a statement is left does not matter to its jumps. -/
theorem Arrives.jump (arrives : Arrives code loops low p q temps s o s') (out : o ≠ .done)
    (left : Option (Place Label)) : Arrives code loops low p left temps s o s' := by
  obtain ⟨temps', c, there, rest⟩ := arrives
  refine ⟨temps', c, ?_, rest⟩
  cases o with
  | done => exact absurd rfl out
  | _ => exact there

theorem Arrives.joins (arrives : Arrives code loops low p left temps s o s')
    {endBB : BlockId Label} (joins : Joins code left endBB) :
    Arrives code loops low p (some endBB.start) temps s o s' := by
  by_cases ended : o = .done
  · subst ended
    obtain ⟨temps', c, there, alike, reaches, -⟩ := arrives
    obtain ⟨place, at_place, rfl⟩ := Option.map_eq_some_iff.mp there
    exact ⟨temps', _, rfl, alike, reaches.tail (joins place at_place).goes, .inl rfl⟩
  · exact arrives.jump ended _

/-- A round that goes on comes to where `Continue` goes. -/
theorem Arrives.around (arrives : Arrives code (targets :: loops) low p left temps s o s')
    (joins : Joins code left targets.continueBB) (on : o.goesOn = true) :
    ∃ temps', Alike low temps temps' ∧
      Reaches code (.at p temps s) (.at targets.continueBB.start temps' s') := by
  obtain ⟨temps', c, there, alike, reaches, -⟩ := arrives.joins joins
  refine ⟨temps', alike, ?_⟩
  cases o with
  | done =>
      obtain rfl := Option.some.inj there
      exact reaches
  | continued =>
      obtain rfl := Option.some.inj there
      exact reaches
  | _ => cases on

theorem Arrives.done (arrives : Arrives code loops low p q temps s .done s') :
    ∃ place temps', q = some place ∧ Alike low temps temps' ∧
      Reaches code (.at p temps s) (.at place temps' s') := by
  obtain ⟨temps', c, there, alike, reaches, -⟩ := arrives
  obtain ⟨place, at_place, rfl⟩ := Option.map_eq_some_iff.mp there
  exact ⟨place, temps', at_place, alike, reaches⟩

theorem Arrives.jumped {label : Label}
    (arrives : Arrives code loops low p q temps s (.jumped label) s') :
    ∃ temps', Alike low temps temps' ∧
      Moves code (.at p temps s) (.at (BlockId.named label).start temps' s') := by
  obtain ⟨temps', c, there, alike, -, moves⟩ := arrives
  obtain rfl := Option.some.inj there
  exact ⟨temps', alike, moves.resolve_left Outcome.noConfusion⟩

theorem Arrives.broke (arrives : Arrives code (targets :: loops) low p left temps s .broke s') :
    Arrives code loops low p (some targets.breakBB.start) temps s .done s' := by
  obtain ⟨temps', c, there, alike, reaches, -⟩ := arrives
  exact ⟨temps', c, there, alike, reaches, .inl rfl⟩

theorem Arrives.leaves (arrives : Arrives code (targets :: loops) low p left temps s o s')
    (out : o.leaves = true) : Arrives code loops low p q temps s o s' := by
  obtain ⟨temps', c, there, rest⟩ := arrives
  refine ⟨temps', c, ?_, rest⟩
  cases o with
  | exited => exact there
  | jumped label => exact there
  | stopped => exact there
  | _ => cases out

end Arriving

/-! ### Labels -/

mutual

theorem behind_stands {label : Label} {loops : List LoopTargets} {low : Nat} {p : Place Label}
    {q : Option (Place Label)} {target : StmtNode σ} (stmt : StmtNode σ)
    (found : stmt.behind label = some target) (stands : stmt.Stands code loops low p q) :
    ∃ inner, low ≤ inner ∧ target.Stands code loops inner (BlockId.named label).start q := by
  cases stmt with
  | labeled own body =>
      rw [StmtNode.behind] at found
      split at found
      · rename_i same
        obtain rfl := Option.some.inj found
        exact ⟨low, Nat.le_refl low, same ▸ stands.2⟩
      · exact behind_stands body found stands.2
  | compound stmts =>
      rw [StmtNode.behind] at found
      obtain ⟨target, caught, rfl⟩ := Option.map_eq_some_iff.mp found
      exact goingOn_stands stmts caught stands
  | _ => cases found

/-- A list stands at each of its labels from there on. -/
theorem goingOn_stands {label : Label} {loops : List LoopTargets} {low : Nat}
    {p q : Option (Place Label)} {target : StmtList σ} (whole : StmtList σ)
    (found : whole.goingOn label = some target) (stands : whole.Stands code loops low p q) :
    ∃ inner, low ≤ inner ∧
      target.Stands code loops inner (some (BlockId.named label).start) q := by
  cases whole with
  | nil => cases found
  | cons stmt rest =>
      obtain ⟨inner, inner', p', q', le, -, head, tail⟩ := stands
      rw [StmtList.goingOn] at found
      split at found
      · rename_i body behind
        obtain rfl := Option.some.inj found
        obtain ⟨more, le', target_stands⟩ := behind_stands stmt behind head
        refine ⟨low, Nat.le_refl low, more, inner', (BlockId.named label).start, q',
          ⟨le.1.trans le', le.2⟩, ?_, target_stands, tail⟩
        rintro place ⟨⟩
        rfl
      · obtain ⟨more, le', target_stands⟩ := goingOn_stands rest found tail
        exact ⟨more, le.2.trans le', target_stands⟩

end

/-! ### The simulation -/

theorem isTrue_update {temp : Nat} {temps : Temps} {v : Int} (holds : v ≠ 0) :
    isTrue temp (Function.update temps temp v) = true := by
  rw [isTrue, Function.update_self]
  exact decide_eq_true holds

theorem isTrue_update_zero {temp : Nat} {temps : Temps} :
    isTrue temp (Function.update temps temp 0) = false := by
  rw [isTrue, Function.update_self]
  rfl

section Tests

variable {temp : Nat} {p : Place Label} {temps : Temps} {s s₁ : σ} {value : ExprNode σ} {v : Int}
  {test : Temps → Bool} {ifTrue ifFalse : BlockId Label}

/-- A value for which a test holds. -/
theorem moves_true (evals : (Instruction.eval temp value).At code p)
    (branches : (Terminator.condBr test ifTrue ifFalse).At code p.next)
    (ok : value s = .ok (v, s₁)) (holds : test (Function.update temps temp v) = true) :
    Moves code (.at p temps s) (.at ifTrue.start (Function.update temps temp v) s₁) := by
  refine .head (evals.evals ok) (.single ?_)
  rw [branches.branches, if_pos holds]

/-- A value for which it does not. -/
theorem moves_false (evals : (Instruction.eval temp value).At code p)
    (branches : (Terminator.condBr test ifTrue ifFalse).At code p.next)
    (ok : value s = .ok (v, s₁)) (fails : test (Function.update temps temp v) = false) :
    Moves code (.at p temps s) (.at ifFalse.start (Function.update temps temp v) s₁) := by
  refine .head (evals.evals ok) (.single ?_)
  rw [branches.branches, fails, if_neg Bool.false_ne_true]

theorem moves_calc_true {result : Temps → Int} (calcs : (Instruction.calc temp result).At code p)
    (branches : (Terminator.condBr test ifTrue ifFalse).At code p.next)
    (holds : test (Function.update temps temp (result temps)) = true) :
    Moves code (.at p temps s)
      (.at ifTrue.start (Function.update temps temp (result temps)) s) := by
  refine .head calcs.calcs (.single ?_)
  rw [branches.branches, if_pos holds]

theorem moves_calc_false {result : Temps → Int} (calcs : (Instruction.calc temp result).At code p)
    (branches : (Terminator.condBr test ifTrue ifFalse).At code p.next)
    (fails : test (Function.update temps temp (result temps)) = false) :
    Moves code (.at p temps s)
      (.at ifFalse.start (Function.update temps temp (result temps)) s) := by
  refine .head calcs.calcs (.single ?_)
  rw [branches.branches, fails, if_neg Bool.false_ne_true]

end Tests

/-- The control variable has been given its first value. -/
theorem moves_start {control : Control σ} {start limit : ExprNode σ} {fromVal limitVal : Nat}
    {p : Place Label} {condBB : BlockId Label} {first last : Int} {s s₁ s₂ : σ} (temps : Temps)
    (evals : (Instruction.eval fromVal start).At code p)
    (evals' : (Instruction.eval limitVal limit).At code p.next)
    (stores : (Instruction.act fun temps s => .ok (control.store (temps fromVal) s)).At code
      p.next.next)
    (goes : (Terminator.br condBB).At code p.next.next.next) (apart : fromVal ≠ limitVal)
    (from_value : start s = .ok (first, s₁)) (limit_value : limit s₁ = .ok (last, s₂)) :
    Moves code (.at p temps s)
      (.at condBB.start (Function.update (Function.update temps fromVal first) limitVal last)
        (control.store first s₂)) := by
  have first_value :
      Function.update (Function.update temps fromVal first) limitVal last fromVal = first :=
    (Function.update_of_ne apart ..).trans (Function.update_self ..)
  refine .head (evals.evals from_value) (.head (evals'.evals limit_value)
    (.head (stores.acts ?_) (.single goes.goes)))
  rw [first_value]

/-- The control variable has not passed the limit. -/
theorem moves_body {control : Control σ} {cur limitVal : Nat} {p : Place Label} (temps : Temps)
    {s : σ} {bodyBB endBB : BlockId Label}
    (evals : (Instruction.eval cur fun s => .ok (control.load s, s)).At code p)
    (branches : (Terminator.condBr (fun temps => control.cmp (temps cur) (temps limitVal)) bodyBB
      endBB).At code p.next)
    (apart : limitVal ≠ cur) (inside : control.cmp (control.load s) (temps limitVal) = true) :
    Moves code (.at p temps s) (.at bodyBB.start (Function.update temps cur (control.load s)) s) ∧
      Function.update temps cur (control.load s) limitVal = temps limitVal := by
  have kept := Function.update_of_ne apart (control.load s) temps
  refine ⟨moves_true evals branches rfl ?_, kept⟩
  rw [Function.update_self, kept]
  exact inside

/-- The moves of a counting loop behind a round that was not the last. -/
theorem moves_around {control : Control σ} {cur2 limitVal : Nat} (temps : Temps) {s : σ}
    {condBB incBB stepBB endBB : BlockId Label}
    (evals : (Instruction.eval cur2 fun s => .ok (control.load s, s)).At code incBB.start)
    (branches : (Terminator.condBr (fun temps => temps cur2 == temps limitVal) endBB stepBB).At code
      incBB.start.next)
    (stores : (Instruction.act fun temps s =>
      .ok (control.store (control.next (temps cur2)) s)).At code stepBB.start)
    (goes : (Terminator.br condBB).At code stepBB.start.next)
    (apart : limitVal ≠ cur2) (below : control.load s ≠ temps limitVal) :
    Moves code (.at incBB.start temps s)
        (.at condBB.start (Function.update temps cur2 (control.load s))
          (control.store (control.next (control.load s)) s)) ∧
      Function.update temps cur2 (control.load s) limitVal = temps limitVal := by
  have kept := Function.update_of_ne apart (control.load s) temps
  have stored : step code (.at stepBB.start (Function.update temps cur2 (control.load s)) s) =
      some (.at stepBB.start.next (Function.update temps cur2 (control.load s))
        (control.store (control.next (control.load s)) s)) :=
    stores.acts (by rw [Function.update_self])
  refine ⟨(moves_false evals branches rfl ?_).trans (.head stored (.single goes.goes)), kept⟩
  rw [kept, Function.update_self]
  exact beq_eq_false_iff_ne.mpr below

/-- The parts of a for-statement over a set: where its body begins and what leads there, past it and
around. -/
structure ForInLoop (code : Code σ Label) (control : SetControl σ) (setVal bitAlloca low : Nat)
    (p start : Place Label) (incBB endBB : BlockId Label) : Prop where
  ends : ∀ (temps : Temps) (s : σ), ¬temps bitAlloca < PlangMaxSetElements →
    ∃ temps', Alike low temps temps' ∧ Moves code (.at p temps s) (.at endBB.start temps' s)
  enters : ∀ (temps : Temps) (s : σ), temps bitAlloca < PlangMaxSetElements →
    control.isMem (temps setVal) (temps bitAlloca) = true →
    ∃ temps', Alike low temps temps' ∧
      (temps' setVal = temps setVal ∧ temps' bitAlloca = temps bitAlloca) ∧
      Moves code (.at p temps s) (.at start temps' (control.store (temps bitAlloca) s))
  skips : ∀ (temps : Temps) (s : σ), temps bitAlloca < PlangMaxSetElements →
    control.isMem (temps setVal) (temps bitAlloca) = false →
    ∃ temps', Alike low temps temps' ∧
      (temps' setVal = temps setVal ∧ temps' bitAlloca = temps bitAlloca) ∧
      Moves code (.at p temps s) (.at incBB.start temps' s)
  around : ∀ (temps : Temps) (s : σ), ∃ temps', Alike low temps temps' ∧
    (temps' setVal = temps setVal ∧ temps' bitAlloca = temps bitAlloca + 1) ∧
    Moves code (.at incBB.start temps s) (.at p temps' s)

/-- The set has been evaluated, and the loop has come to the first bit. -/
theorem moves_first {setExpr : ExprNode σ} {setVal bitAlloca low inner : Nat} {p : Place Label}
    {condBB : BlockId Label} {set : Int} {s s₁ : σ} (temps : Temps)
    (evals : (Instruction.eval setVal setExpr).At code p)
    (clears : (Instruction.calc bitAlloca fun _ => 0).At code p.next)
    (goes : (Terminator.br condBB).At code p.next.next)
    (le : low ≤ setVal ∧ low ≤ bitAlloca ∧ low ≤ inner) (apart : setVal ≠ bitAlloca)
    (value : setExpr s = .ok (set, s₁)) :
    ∃ temps' : Temps, (temps' setVal = set ∧ temps' bitAlloca = 0) ∧ Alike low temps temps' ∧
      Moves code (.at p temps s) (.at condBB.start temps' s₁) := by
  refine ⟨_, ⟨?_, Function.update_self ..⟩, (alike_update le.1 set).trans (alike_update le.2.1 0),
    .head (evals.evals value) (.head clears.calcs (.single goes.goes))⟩
  exact (Function.update_of_ne apart ..).trans (Function.update_self ..)

theorem forIn_loop {control : SetControl σ} {setVal bitAlloca low : Nat} {body : Stands}
    {loops : List LoopTargets} {p : Place Label} {q : Option (Place Label)}
    (stands : ForInStands code control setVal bitAlloca body loops low p q) :
    ∃ inner start incBB endBB left, low ≤ inner ∧ (setVal < inner ∧ bitAlloca < inner) ∧
      body (⟨incBB, endBB⟩ :: loops) inner start left ∧ Joins code left incBB ∧
      q = some endBB.start ∧ ForInLoop code control setVal bitAlloca low p start incBB endBB := by
  obtain ⟨bit, bit2, bit3, bit4, inner, condBB, testBB, bodyBB, incBB, endBB, left, le, below,
    apart, rfl, loads, branches, loads2, branches2, loads3, stores, body_stands, joins, loads4,
    counts, goes, rfl⟩ := stands
  have kept : ∀ temp ∈ [bit, bit2, bit3, bit4], ∀ (temps : Temps) (v : Int),
      Function.update temps temp v setVal = temps setVal ∧
        Function.update temps temp v bitAlloca = temps bitAlloca := fun temp among temps v =>
    ⟨Function.update_of_ne (apart temp among).1 .., Function.update_of_ne (apart temp among).2 ..⟩
  have tests : ∀ (temps : Temps) (s : σ), temps bitAlloca < PlangMaxSetElements →
      Moves code (.at condBB.start temps s)
        (.at testBB.start (Function.update temps bit (temps bitAlloca)) s) := by
    intro temps s more
    refine moves_calc_true loads branches ?_
    rw [Function.update_self]
    exact decide_eq_true more
  refine ⟨inner, _, incBB, endBB, left, le.2.2.2.2.2, ⟨below.1, below.2.1⟩, body_stands, joins, rfl,
    ?_, ?_, ?_, ?_⟩
  · intro temps s past
    refine ⟨_, alike_update le.2.1 _, moves_calc_false loads branches ?_⟩
    rw [Function.update_self]
    exact decide_eq_false past
  · intro temps s more isMem
    let temps₁ := Function.update temps bit (temps bitAlloca)
    let temps₂ := Function.update temps₁ bit2 (temps₁ bitAlloca)
    obtain ⟨set₁, slot₁⟩ : temps₁ setVal = temps setVal ∧ temps₁ bitAlloca = temps bitAlloca :=
      kept bit (by simp) temps (temps bitAlloca)
    obtain ⟨set₂, slot₂⟩ : temps₂ setVal = temps₁ setVal ∧ temps₂ bitAlloca = temps₁ bitAlloca :=
      kept bit2 (by simp) temps₁ (temps₁ bitAlloca)
    obtain ⟨set₃, slot₃⟩ := kept bit3 (by simp) temps₂ (temps₂ bitAlloca)
    refine ⟨Function.update temps₂ bit3 (temps₂ bitAlloca),
      ((alike_update le.2.1 _).trans (alike_update le.2.2.1 _)).trans (alike_update le.2.2.2.1 _),
      ⟨set₃.trans (set₂.trans set₁), slot₃.trans (slot₂.trans slot₁)⟩, ?_⟩
    have inside : Moves code (.at testBB.start temps₁ s) (.at bodyBB.start temps₂ s) := by
      refine moves_calc_true loads2 branches2 ?_
      rw [Function.update_self, show Function.update temps₁ bit2 _ setVal = _ from set₂, set₁,
        slot₁]
      exact isMem
    have stored : step code (.at bodyBB.start.next
        (Function.update temps₂ bit3 (temps₂ bitAlloca)) s) = some (.at bodyBB.start.next.next
        (Function.update temps₂ bit3 (temps₂ bitAlloca)) (control.store (temps bitAlloca) s)) :=
      stores.acts (by rw [Function.update_self, slot₂, slot₁])
    exact (tests temps s more).trans (inside.trans (.head loads3.calcs (.single stored)))
  · intro temps s more out
    let temps₁ := Function.update temps bit (temps bitAlloca)
    obtain ⟨set₁, slot₁⟩ : temps₁ setVal = temps setVal ∧ temps₁ bitAlloca = temps bitAlloca :=
      kept bit (by simp) temps (temps bitAlloca)
    obtain ⟨set₂, slot₂⟩ := kept bit2 (by simp) temps₁ (temps₁ bitAlloca)
    refine ⟨Function.update temps₁ bit2 (temps₁ bitAlloca),
      (alike_update le.2.1 _).trans (alike_update le.2.2.1 _),
      ⟨set₂.trans set₁, slot₂.trans slot₁⟩, (tests temps s more).trans ?_⟩
    refine moves_calc_false loads2 branches2 ?_
    rw [Function.update_self, set₂.trans set₁]
    exact (congrArg (control.isMem (temps setVal)) slot₁).trans out
  · intro temps s
    let temps₁ := Function.update temps bit4 (temps bitAlloca)
    obtain ⟨set₁, -⟩ := kept bit4 (by simp) temps (temps bitAlloca)
    refine ⟨Function.update temps₁ bitAlloca (temps₁ bit4 + 1),
      (alike_update le.2.2.2.2.1 _).trans (alike_update le.1 _), ⟨?_, ?_⟩,
      .head loads4.calcs (.head counts.calcs (.single goes.goes))⟩
    · exact (Function.update_of_ne below.2.2 ..).trans set₁
    · have counted : temps₁ bit4 = temps bitAlloca := Function.update_self ..
      exact (Function.update_self ..).trans (congrArg (· + 1) counted)

theorem whole_stands {stmts : StmtList σ} {loops : List LoopTargets} {low : Nat} {p : Place Label}
    {q : Option (Place Label)} {temps : Temps} (stands : stmts.Stands code loops low (some p) q) :
    (Node.seq stmts stmts).Stands code loops low p q temps :=
  ⟨⟨low, some p, Nat.le_refl low, stands⟩, low, Nat.le_refl low, stands⟩

/-- The code of what is executed comes to where that ends. -/
theorem arrives_of_exec {node : Node σ} {s s' : σ} {o : Outcome} (exec : Exec node s o s') :
    ∀ {loops : List LoopTargets} {low : Nat} {p : Place Label} {q : Option (Place Label)}
      {temps : Temps}, node.Stands code loops low p q temps →
      Arrives code loops low p q temps s o s' := by
  induction exec with
  | empty s =>
      rintro loops low p q temps rfl
      exact arrives_here s
  | simple ok =>
      rintro loops low p q temps ⟨acts, rfl⟩
      exact (arrives_here _).step (Nat.le_refl low) (.refl low temps) (acts.acts ok)
  | simpleStops error =>
      rintro loops low p q temps ⟨acts, rfl⟩
      exact arrives_there rfl (acts.stops error)
  | halt run s =>
      rintro loops low p q temps ⟨acts, rfl⟩
      exact arrives_there rfl (acts.stops rfl)
  | compound _ list =>
      intro loops low p q temps stands
      exact list (whole_stands stands)
  | thenStops error =>
      rintro loops low p q temps ⟨temp, inner, thenBB, endBB, left, -, evals, -⟩
      exact arrives_there rfl (evals.fails error)
  | thenTaken test holds _ part =>
      rintro loops low p q temps
        ⟨temp, inner, thenBB, endBB, left, le, evals, branches, stands, joins, rfl⟩
      exact ((part stands).joins joins).before le.2 (alike_update le.1 _)
        (moves_true evals branches test (isTrue_update holds)).reaches
  | thenSkipped test =>
      rintro loops low p q temps
        ⟨temp, inner, thenBB, endBB, left, le, evals, branches, stands, joins, rfl⟩
      exact (arrives_here _).before (Nat.le_refl low) (alike_update le.1 _)
        (moves_false evals branches test isTrue_update_zero).reaches
  | elseStops error =>
      rintro loops low p q temps ⟨temp, inner, inner', thenBB, elseBB, endBB, left, left', -,
        evals, -⟩
      exact arrives_there rfl (evals.fails error)
  | elseThen test holds _ part =>
      rintro loops low p q temps ⟨temp, inner, inner', thenBB, elseBB, endBB, left, left',
        le, evals, branches, ⟨stands, joins⟩, -, rfl⟩
      exact ((part stands).joins joins).before le.2.1 (alike_update le.1 _)
        (moves_true evals branches test (isTrue_update holds)).reaches
  | elseTaken test _ part =>
      rintro loops low p q temps ⟨temp, inner, inner', thenBB, elseBB, endBB, left, left',
        le, evals, branches, -, ⟨stands, joins⟩, rfl⟩
      exact ((part stands).joins joins).before le.2.2 (alike_update le.1 _)
        (moves_false evals branches test isTrue_update_zero).reaches
  | whileStmt _ loop =>
      rintro loops low p q temps ⟨condBB, goes, stands⟩
      exact (loop stands).step (Nat.le_refl low) (.refl low temps) goes.goes
  | whileStops error =>
      rintro loops low p q temps ⟨temp, inner, condBB, bodyBB, endBB, left, -, -, evals, -⟩
      exact arrives_there rfl (evals.fails error)
  | whileEnds test =>
      rintro loops low p q temps
        ⟨temp, inner, condBB, bodyBB, endBB, left, le, rfl, evals, branches, -, -, rfl⟩
      exact (arrives_here _).before (Nat.le_refl low) (alike_update le.1 _)
        (moves_false evals branches test isTrue_update_zero).reaches
  | whileAround test holds _ on _ round again =>
      rintro loops low p q temps
        ⟨temp, inner, condBB, bodyBB, endBB, left, le, rfl, evals, branches, stands, joins, rfl⟩
      obtain ⟨temps', alike, reaches⟩ := (round stands).around joins on
      have loop := @again loops low condBB.start (some endBB.start) temps'
        ⟨temp, inner, condBB, bodyBB, endBB, left, le, rfl, evals, branches, stands, joins, rfl⟩
      exact loop.before (Nat.le_refl low) ((alike_update le.1 _).trans (alike.mono le.2))
        ((moves_true evals branches test (isTrue_update holds)).reaches.trans reaches)
  | whileBroke test holds _ round =>
      rintro loops low p q temps
        ⟨temp, inner, condBB, bodyBB, endBB, left, le, rfl, evals, branches, stands, joins, rfl⟩
      exact (round stands).broke.before le.2 (alike_update le.1 _)
        (moves_true evals branches test (isTrue_update holds)).reaches
  | whileLeft test holds _ out round =>
      rintro loops low p q temps
        ⟨temp, inner, condBB, bodyBB, endBB, left, le, rfl, evals, branches, stands, joins, rfl⟩
      exact ((round stands).leaves out).before le.2 (alike_update le.1 _)
        (moves_true evals branches test (isTrue_update holds)).reaches
  | repeatStmt _ loop =>
      rintro loops low p q temps ⟨bodyBB, goes, stands⟩
      exact (loop stands).step (Nat.le_refl low) (.refl low temps) goes.goes
  | repeatStops _ on error round =>
      rintro loops low p q temps
        ⟨temp, inner, condBB, bodyBB, endBB, left, le, rfl, stands, joins, evals, -, rfl⟩
      obtain ⟨temps', alike, reaches⟩ := (round (whole_stands stands)).around joins on
      exact (arrives_there rfl (evals.fails error)).before le.2 (alike.mono le.2) reaches
  | repeatEnds _ on test holds round =>
      rintro loops low p q temps
        ⟨temp, inner, condBB, bodyBB, endBB, left, le, rfl, stands, joins, evals, branches, rfl⟩
      obtain ⟨temps', alike, reaches⟩ := (round (whole_stands stands)).around joins on
      exact (arrives_here _).before (Nat.le_refl low)
        ((alike.mono le.2).trans (alike_update le.1 _))
        (reaches.trans (moves_true evals branches test (isTrue_update holds)).reaches)
  | repeatAround _ on test _ round again =>
      rintro loops low p q temps
        ⟨temp, inner, condBB, bodyBB, endBB, left, le, rfl, stands, joins, evals, branches, rfl⟩
      obtain ⟨temps', alike, reaches⟩ := (round (whole_stands stands)).around joins on
      have loop := @again loops low bodyBB.start (some endBB.start) (Function.update temps' temp 0)
        ⟨temp, inner, condBB, bodyBB, endBB, left, le, rfl, stands, joins, evals, branches, rfl⟩
      exact loop.before (Nat.le_refl low) ((alike.mono le.2).trans (alike_update le.1 _))
        (reaches.trans (moves_false evals branches test isTrue_update_zero).reaches)
  | repeatBroke _ round =>
      rintro loops low p q temps
        ⟨temp, inner, condBB, bodyBB, endBB, left, le, rfl, stands, joins, evals, branches, rfl⟩
      exact (round (whole_stands stands)).broke.mono le.2
  | repeatLeft _ out round =>
      rintro loops low p q temps
        ⟨temp, inner, condBB, bodyBB, endBB, left, le, rfl, stands, joins, evals, branches, rfl⟩
      exact ((round (whole_stands stands)).leaves out).mono le.2
  | startStops error =>
      rintro loops low p q temps ⟨fromVal, limitVal, inner, condBB, -, -, evals, -⟩
      exact arrives_there rfl (evals.fails error)
  | limitStops from_value error =>
      rintro loops low p q temps ⟨fromVal, limitVal, inner, condBB, le, -, evals, evals', -⟩
      exact (arrives_there rfl (evals'.fails error)).step (Nat.le_refl low) (alike_update le.1 _)
        (evals.evals from_value)
  | @forStmt _ _ _ _ _ _ _ _ first last _ from_value limit_value _ loop =>
      rintro loops low p q temps
        ⟨fromVal, limitVal, inner, condBB, le, apart, evals, evals', stores, goes, stands⟩
      exact (loop ⟨limitVal, Function.update_self .., stands⟩).before le.2.2
        ((alike_update le.1 first).trans (alike_update le.2.1 last))
        (moves_start temps evals evals' stores goes apart from_value limit_value).reaches
  | forEnds past =>
      rintro loops low p q temps ⟨limitVal, rfl, cur, cur2, inner, condBB, bodyBB, incBB, stepBB,
        endBB, left, le, apart, rfl, evals, branches, -, -, -, -, -, -, rfl⟩
      refine (arrives_here _).before (Nat.le_refl low) (alike_update le.1 _)
        (moves_false evals branches rfl ?_).reaches
      rw [Function.update_self, Function.update_of_ne apart.2.1]
      exact past
  | forLast inside _ on at_limit round =>
      rintro loops low p q temps ⟨limitVal, rfl, cur, cur2, inner, condBB, bodyBB, incBB, stepBB,
        endBB, left, le, apart, rfl, evals, branches, stands, joins, evals', branches', -, -, rfl⟩
      obtain ⟨start, limit⟩ := moves_body temps evals branches apart.2.1 inside
      obtain ⟨temps', alike, reaches⟩ := (round stands).around joins on
      refine (arrives_here _).before (Nat.le_refl low)
        (((alike_update le.1 _).trans (alike.mono le.2.2)).trans (alike_update le.2.1 _))
        (start.reaches.trans (reaches.trans (moves_true evals' branches' rfl ?_).reaches))
      rw [Function.update_self, Function.update_of_ne apart.2.2, alike limitVal apart.1, limit]
      exact beq_iff_eq.mpr at_limit
  | forAround inside _ on below _ round again =>
      rintro loops low p q temps ⟨limitVal, rfl, cur, cur2, inner, condBB, bodyBB, incBB, stepBB,
        endBB, left, le, apart, rfl, evals, branches, stands, joins, evals', branches', stores,
        goes, rfl⟩
      obtain ⟨start, limit⟩ := moves_body temps evals branches apart.2.1 inside
      obtain ⟨temps', alike, reaches⟩ := (round stands).around joins on
      have same := (alike limitVal apart.1).trans limit
      obtain ⟨next, kept⟩ :=
        moves_around temps' evals' branches' stores goes apart.2.2 (same ▸ below)
      have loop := @again loops low condBB.start (some endBB.start) _ ⟨limitVal, kept.trans same,
        cur, cur2, inner, condBB, bodyBB, incBB, stepBB, endBB, left, le, apart, rfl, evals,
        branches, stands, joins, evals', branches', stores, goes, rfl⟩
      exact loop.before (Nat.le_refl low)
        (((alike_update le.1 _).trans (alike.mono le.2.2)).trans (alike_update le.2.1 _))
        (start.reaches.trans (reaches.trans next.reaches))
  | forBroke inside _ round =>
      rintro loops low p q temps ⟨limitVal, rfl, cur, cur2, inner, condBB, bodyBB, incBB, stepBB,
        endBB, left, le, apart, rfl, evals, branches, stands, joins, -, -, -, -, rfl⟩
      obtain ⟨start, -⟩ := moves_body temps evals branches apart.2.1 inside
      exact (round stands).broke.before le.2.2 (alike_update le.1 _) start.reaches
  | forLeft inside _ out round =>
      rintro loops low p q temps ⟨limitVal, rfl, cur, cur2, inner, condBB, bodyBB, incBB, stepBB,
        endBB, left, le, apart, rfl, evals, branches, stands, joins, -, -, -, -, rfl⟩
      obtain ⟨start, -⟩ := moves_body temps evals branches apart.2.1 inside
      exact ((round stands).leaves out).before le.2.2 (alike_update le.1 _) start.reaches
  | setStops error =>
      rintro loops low p q temps ⟨setVal, bitAlloca, inner, condBB, -, -, evals, -⟩
      exact arrives_there rfl (evals.fails error)
  | @forInStmt _ _ _ _ _ _ set _ value _ loop =>
      rintro loops low p q temps
        ⟨setVal, bitAlloca, inner, condBB, le, apart, evals, clears, goes, stands⟩
      obtain ⟨temps', start, alike, moves⟩ := moves_first temps evals clears goes le apart value
      exact (loop ⟨setVal, bitAlloca, start, stands⟩).before le.2.2 alike moves.reaches
  | forInEnds past =>
      rintro loops low p q temps ⟨setVal, bitAlloca, ⟨rfl, rfl⟩, stands⟩
      obtain ⟨inner, start, incBB, endBB, left, le, below, -, -, rfl, loop⟩ := forIn_loop stands
      obtain ⟨temps', alike, moves⟩ := loop.ends temps _ past
      exact (arrives_here _).before (Nat.le_refl low) alike moves.reaches
  | forInSkips more out _ again =>
      rintro loops low p q temps ⟨setVal, bitAlloca, ⟨rfl, rfl⟩, stands⟩
      obtain ⟨inner, start, incBB, endBB, left, le, below, -, -, rfl, loop⟩ := forIn_loop stands
      obtain ⟨temps', alike, ⟨set, bit⟩, moves⟩ := loop.skips temps _ more out
      obtain ⟨temps'', alike', ⟨set', bit'⟩, moves'⟩ := loop.around temps' _
      exact (again ⟨setVal, bitAlloca, ⟨set'.trans set, bit'.trans (bit ▸ rfl)⟩, stands⟩).before
        (Nat.le_refl low) (alike.trans alike') (moves.reaches.trans moves'.reaches)
  | forInAround more isMem _ on _ round again =>
      rintro loops low p q temps ⟨setVal, bitAlloca, ⟨rfl, rfl⟩, stands⟩
      obtain ⟨inner, start, incBB, endBB, left, le, below, body_stands, joins, rfl, loop⟩ :=
        forIn_loop stands
      obtain ⟨temps₁, alike₁, ⟨set₁, bit₁⟩, moves₁⟩ := loop.enters temps _ more isMem
      obtain ⟨temps₂, alike₂, reaches₂⟩ := (round body_stands).around joins on
      obtain ⟨temps₃, alike₃, ⟨set₃, bit₃⟩, moves₃⟩ := loop.around temps₂ _
      have set := set₃.trans ((alike₂ setVal below.1).trans set₁)
      have bit : temps₃ bitAlloca = temps bitAlloca + 1 := by
        rw [bit₃, alike₂ bitAlloca below.2, bit₁]
      exact (again ⟨setVal, bitAlloca, ⟨set, bit⟩, stands⟩).before (Nat.le_refl low)
        ((alike₁.trans (alike₂.mono le)).trans alike₃)
        (moves₁.reaches.trans (reaches₂.trans moves₃.reaches))
  | forInBroke more isMem _ round =>
      rintro loops low p q temps ⟨setVal, bitAlloca, ⟨rfl, rfl⟩, stands⟩
      obtain ⟨inner, start, incBB, endBB, left, le, below, body_stands, joins, rfl, loop⟩ :=
        forIn_loop stands
      obtain ⟨temps₁, alike₁, -, moves₁⟩ := loop.enters temps _ more isMem
      exact (round body_stands).broke.before le alike₁ moves₁.reaches
  | forInLeft more isMem _ out round =>
      rintro loops low p q temps ⟨setVal, bitAlloca, ⟨rfl, rfl⟩, stands⟩
      obtain ⟨inner, start, incBB, endBB, left, le, below, body_stands, joins, rfl, loop⟩ :=
        forIn_loop stands
      obtain ⟨temps₁, alike₁, -, moves₁⟩ := loop.enters temps _ more isMem
      exact ((round body_stands).leaves out).before le alike₁ moves₁.reaches
  | recordsStop error =>
      rintro loops low p q temps ⟨acts, -⟩
      exact arrives_there rfl (acts.stops error)
  | withStmt ok _ part =>
      rintro loops low p q temps ⟨acts, stands⟩
      exact (part stands).step (Nat.le_refl low) (.refl low temps) (acts.acts ok)
  | selectorStops error =>
      rintro loops low p q temps ⟨sel, inner, nextBB, endBB, -, evals, -⟩
      exact arrives_there rfl (evals.fails error)
  | caseStmt value _ chosen =>
      rintro loops low p q temps ⟨sel, inner, nextBB, endBB, le, evals, goes, stands, rfl⟩
      exact (chosen ⟨sel, endBB, Function.update_self .., stands, rfl⟩).before le.2
        (alike_update le.1 _) (.step (evals.evals value) (.single goes.goes))
  | otherwise _ part =>
      rintro loops low p q temps ⟨temp, endBB, rfl, ⟨left, stands, joins⟩, rfl⟩
      exact (part stands).joins joins
  | noCase sel report s =>
      rintro loops low p q temps ⟨temp, endBB, rfl, acts, rfl⟩
      exact arrives_there rfl (acts.stops rfl)
  | armTaken hit _ part =>
      rintro loops low p q temps
        ⟨temp, endBB, rfl, ⟨inner, armBB, testBB, left, le, branches, ⟨stands, joins⟩, -⟩, rfl⟩
      refine ((part stands).joins joins).step (Nat.le_refl low) (.refl low temps) ?_
      rw [branches.branches, if_pos hit]
  | armPassed miss _ others =>
      rintro loops low p q temps
        ⟨temp, endBB, rfl, ⟨inner, armBB, testBB, left, le, branches, -, stands⟩, rfl⟩
      refine (others ⟨temp, endBB, rfl, stands, rfl⟩).step le (.refl low temps) ?_
      rw [branches.branches, miss, if_neg Bool.false_ne_true]
  | gotoStmt label s =>
      rintro loops low p q temps ⟨goes, rfl⟩
      exact arrives_there rfl goes.goes
  | labeled _ inner =>
      rintro loops low p q temps ⟨goes, stands⟩
      exact (inner ⟨rfl, stands⟩).step (Nat.le_refl low) (.refl low temps) goes.goes
  | withinOnce _ _ part =>
      rintro loops low p q temps ⟨rfl, stands⟩
      exact part stands
  | withinAgain _ _ part again =>
      rintro loops low p q temps ⟨rfl, stands⟩
      obtain ⟨temps', alike, moves⟩ := (part stands).jumped
      exact (again ⟨rfl, stands⟩).before (Nat.le_refl low) alike moves.reaches
  | breakStmt s =>
      rintro loops low p q temps ⟨targets, outer, rfl, goes, rfl⟩
      exact arrives_there rfl goes.goes
  | continueStmt s =>
      rintro loops low p q temps ⟨targets, outer, rfl, goes, rfl⟩
      exact arrives_there rfl goes.goes
  | exitStmt ok =>
      rintro loops low p q temps ⟨acts, goes, rfl⟩
      exact (arrives_there rfl goes.goes).step (Nat.le_refl low) (.refl low temps) (acts.acts ok)
  | exitStops error =>
      rintro loops low p q temps ⟨acts, -, rfl⟩
      exact arrives_there rfl (acts.stops error)
  | seqNil whole s =>
      rintro loops low p q temps ⟨-, inner, le, rfl⟩
      exact arrives_here s
  | seqOn _ _ head tail =>
      rintro loops low p q temps
        ⟨whole, inner, le, first, inner', p', q', le', same, head_stands, tail_stands⟩
      obtain rfl := same p rfl
      obtain ⟨place, temps', rfl, alike, reaches⟩ := (head head_stands).done
      exact (tail ⟨whole, inner', le.trans le'.2, tail_stands⟩).before (Nat.le_refl low)
        (alike.mono (le.trans le'.1)) reaches
  | seqJump _ caught _ head tail =>
      rintro loops low p q temps
        ⟨⟨more, start, below, whole⟩, inner, le, first, inner', p', q', le', same, head_stands, -⟩
      obtain rfl := same p rfl
      obtain ⟨temps', alike, moves⟩ := (head head_stands).jumped
      obtain ⟨last, le'', stands⟩ := goingOn_stands _ caught whole
      exact (tail ⟨⟨more, start, below, whole⟩, last, below.trans le'', stands⟩).before
        (Nat.le_refl low) (alike.mono (le.trans le'.1)) moves.reaches
  | seqOut _ out _ head =>
      rintro loops low p q temps
        ⟨-, inner, le, first, inner', p', q', le', same, head_stands, -⟩
      obtain rfl := same p rfl
      exact ((head head_stands).jump out q).mono (le.trans le'.1)

end Plang.CodeGen.Statements
