import Plang.CodeGen.StatementBackward

/-!
# Emitted code stands

Where a statement is emitted, its code stands, and further code leaves it alone.  Each kind of
statement is emitted into blocks that it has added itself; labels have blocks of their own, and no
two statements have the same one.
-/

namespace Plang.CodeGen.Statements

open BasicBlocks Labels Builder

universe u

variable {σ : Type u}

/-- The builder is ready for code with these labels. -/
structure Fit (labels : List Label) (b : Builder σ Label) : Prop where
  clean : b.Clean
  nodup : labels.Nodup
  kept : ∀ label ∈ labels, b.Reserved (.named label)

/-- Code with these labels has been added. -/
structure Emitted (labels : List Label) (stands : Code σ Label → Prop) (b after : Builder σ Label) :
    Prop where
  since : b.Since b.blocks (labels.map .named) after
  stands : ∀ code, Extends after.code code → stands code

/-- What is emitted where the builder is ready stands there. -/
def Emits (labels : List Label) (emit : Builder σ Label → Builder σ Label)
    (stands : Code σ Label → Nat → Place Label → Option (Place Label) → Prop) : Prop :=
  ∀ b : Builder σ Label, Fit labels b → b.Ready →
    Emitted labels (fun code => stands code b.temps b.here (emit b).left) b (emit b)

variable {labels more : List Label} {b b' after : Builder σ Label} {mark : Nat}
  {own : List (BlockId Label)} {block : BlockId Label} {loops : List LoopTargets}
  {emit : Builder σ Label → Builder σ Label}
  {stands : Code σ Label → Nat → Place Label → Option (Place Label) → Prop}

theorem Fit.since (fit : Fit labels b) (since : b.Since mark own after)
    (sublist : more.Sublist labels) (apart : ∀ label ∈ more, BlockId.named label ∉ own) :
    Fit more after where
  clean := since.clean
  nodup := fit.nodup.sublist sublist
  kept label among := since.reserved (fit.kept label (sublist.subset among)) trivial
    (apart label among)

theorem emitOpen_ready (emit : Builder σ Label → Builder σ Label) (ready : b.Ready) :
    emitOpen emit b = emit b := by
  rw [emitOpen, isTerminated, ready]
  rfl

/-- A part in a block of its own that goes on to another one. -/
theorem Emits.inBlock (emits : Emits labels emit stands) (enters : b.Enters block b')
    (fit : Fit labels b)
    (apart : ∀ label ∈ labels, BlockId.named label ≠ block) (target : BlockId Label) :
    b.Since b.blocks (block :: labels.map .named) ((emit b').brIfNeeded target) ∧
      ∀ code, Extends ((emit b').brIfNeeded target).code code → Extends b'.code code ∧
        stands code b'.temps block.start (emit b').left ∧ Joins code (emit b').left target := by
  have part := emits b' (fit.since (enters.since 0) (.refl labels) fun label among same =>
    apart label among (List.mem_singleton.mp same)) enters.ready
  have closes : (emit b').Since b.blocks [] _ := since_brIfNeeded part.since.clean target
  have inside : b'.Since b.blocks (labels.map .named) _ :=
    part.since.mono (enters.since 0).blocks fun _ among _ => among
  refine ⟨((enters.since b.blocks).trans (inside.trans closes)).mono (Nat.le_refl _)
    fun _ among _ => by simpa using among,
    fun code grown => ?_⟩
  have grown' := closes.grown.trans grown
  refine ⟨inside.grown.trans grown', ?_, (joins_brIfNeeded target).grow grown⟩
  rw [← enters.here]
  exact part.stands code grown'

/-! ### Simple statements and jumps -/

theorem emits_empty : Emits [] ((StmtNode.empty : StmtNode σ).emit loops)
    (StmtNode.empty.Stands · loops) :=
  fun _ fit ready => ⟨.refl fit.clean, fun _ _ => left_of_ready ready⟩

theorem emits_simple (run : σ → Except σ σ) :
    Emits [] ((StmtNode.simple run).emit loops) ((StmtNode.simple run).Stands · loops) := by
  intro b fit ready
  refine ⟨since_insert fit.clean ready _, fun code grown => ⟨(at_insert _).grow grown, ?_⟩⟩
  rw [StmtNode.emit, left_of_ready (ready_insert ready _), here_insert]

/-- A branch closes the block. -/
theorem emitted_close (fit : Fit labels b) (ready : b.Ready) (term : Terminator Label) :
    Emitted [] (fun code => term.At code b.here) b (b.close term) :=
  ⟨since_close fit.clean ready term, fun _ grown => (at_close term).grow grown⟩

theorem emitted_insert_close (fit : Fit labels b) (ready : b.Ready) (instr : Instruction σ)
    (term : Terminator Label) :
    Emitted [] (fun code => instr.At code b.here ∧ term.At code b.here.next) b
      ((b.insert instr).close term) := by
  have inserts : b.Since b.blocks [] (b.insert instr) := since_insert fit.clean ready instr
  have closes : (b.insert instr).Since b.blocks [] ((b.insert instr).close term) :=
    since_close inserts.clean (ready_insert ready instr) term
  refine ⟨inserts.trans closes, fun code grown => ⟨?_, ?_⟩⟩
  · exact (at_insert instr).grow (closes.grown.trans grown)
  · rw [← here_insert instr]
    exact (at_close term).grow grown

theorem emits_halt (run : σ → σ) :
    Emits [] ((StmtNode.halt run).emit loops) ((StmtNode.halt run).Stands · loops) := by
  intro b fit ready
  have emitted := emitted_insert_close fit ready (.act fun _ s => .error (run s)) .unreachable
  exact ⟨emitted.since, fun code grown => ⟨(emitted.stands code grown).1, left_close _⟩⟩

theorem emits_exit (assign : σ → Except σ σ) :
    Emits [] ((StmtNode.exitStmt assign).emit loops)
      ((StmtNode.exitStmt assign).Stands · loops) := by
  intro b fit ready
  have emitted := emitted_insert_close fit ready (.act fun _ => assign) (.br exitBlock)
  exact ⟨emitted.since, fun code grown => ⟨(emitted.stands code grown).1,
    (emitted.stands code grown).2, left_close _⟩⟩

theorem emits_goto (label : Label) : Emits [] ((StmtNode.gotoStmt (σ := σ) label).emit loops)
    ((StmtNode.gotoStmt label).Stands · loops) := by
  intro b fit ready
  have emitted := emitted_close fit ready (.br (.named label))
  exact ⟨emitted.since, fun code grown => ⟨emitted.stands code grown, left_close _⟩⟩

theorem emits_break (targets : LoopTargets) (outer : List LoopTargets) :
    Emits [] ((StmtNode.breakStmt : StmtNode σ).emit (targets :: outer))
      (StmtNode.breakStmt.Stands · (targets :: outer)) := by
  intro b fit ready
  have emitted := emitted_close fit ready (.br targets.breakBB)
  exact ⟨emitted.since,
    fun code grown => ⟨targets, outer, rfl, emitted.stands code grown, left_close _⟩⟩

theorem emits_continue (targets : LoopTargets) (outer : List LoopTargets) :
    Emits [] ((StmtNode.continueStmt : StmtNode σ).emit (targets :: outer))
      (StmtNode.continueStmt.Stands · (targets :: outer)) := by
  intro b fit ready
  have emitted := emitted_close fit ready (.br targets.continueBB)
  exact ⟨emitted.since,
    fun code grown => ⟨targets, outer, rfl, emitted.stands code grown, left_close _⟩⟩

theorem emits_labeled {label : Label} {stmt : StmtNode σ}
    (part : Emits stmt.labels (stmt.emit loops) (stmt.Stands · loops)) :
    Emits (StmtNode.labeled label stmt).labels ((StmtNode.labeled label stmt).emit loops)
      ((StmtNode.labeled label stmt).Stands · loops) := by
  rw [StmtNode.labels]
  intro b fit ready
  let b₁ := (b.brIfNeeded (.named label)).goTo (.named label)
  have enters : b.Enters (.named label) b₁ :=
    enters_br fit.clean (fit.kept label List.mem_cons_self) trivial _
  have fit₁ : Fit stmt.labels b₁ := by
    refine fit.since (enters.since 0) (List.sublist_cons_self ..) fun other among same => ?_
    obtain rfl := BlockId.named.inj (List.mem_singleton.mp same)
    exact (List.nodup_cons.mp fit.nodup).1 among
  have emitted := part b₁ fit₁ enters.ready
  have whole : (StmtNode.labeled label stmt).emit loops b = stmt.emit loops b₁ :=
    emitOpen_ready _ enters.ready
  rw [whole]
  refine ⟨(enters.since b.blocks).trans
    (emitted.since.mono (enters.since 0).blocks fun _ among _ => among), fun code grown => ⟨?_, ?_⟩⟩
  · have joins : Joins b₁.code b.left (.named label) := joins_brIfNeeded _
    exact (joins b.here (left_of_ready ready)).grow (emitted.since.grown.trans grown)
  · rw [← enters.here, ← show b₁.temps = b.temps from brIfNeeded_temps b _]
    exact emitted.stands code grown

/-! ### Structured statements -/

theorem emits_ifThen (cond : ExprNode σ) {thenPart : StmtNode σ}
    (part : Emits thenPart.labels (thenPart.emit loops) (thenPart.Stands · loops)) :
    Emits (StmtNode.ifThen cond thenPart).labels ((StmtNode.ifThen cond thenPart).emit loops)
      ((StmtNode.ifThen cond thenPart).Stands · loops) := by
  rw [StmtNode.labels]
  intro b fit ready
  let thenBB : BlockId Label := .fresh b.blocks
  let endBB : BlockId Label := .fresh (b.blocks + 1)
  let b₁ := ((b.addTemps 1).insert (.eval b.temps cond)).addBlocks 2
  have start := ((Continues.refl fit.clean ready).addTemps 1).insert (.eval b.temps cond)
  have on : b.Continues b₁ := start.addBlocks 2
  have kept : ∀ number, b.blocks ≤ number → b₁.Reserved (.fresh number) :=
    fun number new => reserved_addBlocks start.clean new
  let b₂ := (b₁.close (.condBr (isTrue b.temps) thenBB endBB)).goTo thenBB
  have enters : b₁.Enters thenBB b₂ :=
    enters_close on.clean on.ready (kept _ (Nat.le_refl _))
      (Nat.lt_add_of_pos_right (Nat.succ_pos _)) _
  obtain ⟨through, stands⟩ := part.inBlock enters
    (fit.since (on.since 0) (.refl _) (by simp)) (by simp [thenBB]) endBB
  have end_kept := through.reserved (kept (b.blocks + 1) (Nat.le_add_right ..))
    (Nat.lt_add_one _) (by simp [thenBB])
  have leaves := enters_goTo through.clean end_kept
    (Nat.lt_of_lt_of_le (Nat.lt_add_one (b.blocks + 1)) through.blocks)
  have whole : (StmtNode.ifThen cond thenPart).emit loops b =
      ((thenPart.emit loops b₂).brIfNeeded endBB).goTo endBB := by
    rw [← emitOpen_ready (thenPart.emit loops) enters.ready]
    rfl
  rw [whole]
  refine ⟨(on.since b.blocks).trans ((through.trans (leaves.since b₁.blocks)).mono
    (on.since 0).blocks ?_), fun code grown => ?_⟩
  · intro block among old
    grind [BlockId.Old]
  · obtain ⟨grown₂, then_stands, joins⟩ := stands code grown
    have branches := (at_close (b := b₁) (.condBr (isTrue b.temps) thenBB endBB)).grow grown₂
    rw [show b₁.here = b.here.next from here_insert (b := b.addTemps 1) _] at branches
    exact ⟨b.temps, b₂.temps, thenBB, endBB, _, ⟨Nat.le_refl _, Nat.le_add_right ..⟩,
      (at_insert (b := b.addTemps 1) _).grow ((enters.since 0).grown.trans grown₂), branches,
      then_stands, joins, leaves.left⟩

theorem emits_ifElse (cond : ExprNode σ) {thenPart elsePart : StmtNode σ}
    (part : Emits thenPart.labels (thenPart.emit loops) (thenPart.Stands · loops))
    (other : Emits elsePart.labels (elsePart.emit loops) (elsePart.Stands · loops)) :
    Emits (StmtNode.ifElse cond thenPart elsePart).labels
      ((StmtNode.ifElse cond thenPart elsePart).emit loops)
      ((StmtNode.ifElse cond thenPart elsePart).Stands · loops) := by
  rw [StmtNode.labels]
  intro b fit ready
  have disjoint := (List.nodup_append.mp fit.nodup).2.2
  let thenBB : BlockId Label := .fresh b.blocks
  let endBB : BlockId Label := .fresh (b.blocks + 1)
  let elseBB : BlockId Label := .fresh (b.blocks + 2)
  let b₁ := ((b.addTemps 1).insert (.eval b.temps cond)).addBlocks 3
  have start := ((Continues.refl fit.clean ready).addTemps 1).insert (.eval b.temps cond)
  have on : b.Continues b₁ := start.addBlocks 3
  have kept : ∀ number, b.blocks ≤ number → b₁.Reserved (.fresh number) :=
    fun number new => reserved_addBlocks start.clean new
  let b₂ := (b₁.close (.condBr (isTrue b.temps) thenBB elseBB)).goTo thenBB
  have enters : b₁.Enters thenBB b₂ :=
    enters_close on.clean on.ready (kept _ (Nat.le_refl _))
      (Nat.lt_add_of_pos_right (Nat.succ_pos _)) _
  obtain ⟨through, stands⟩ := part.inBlock enters
    (fit.since (on.since 0) (List.sublist_append_left ..) (by simp)) (by simp [thenBB]) endBB
  let b₃ := (thenPart.emit loops b₂).brIfNeeded endBB
  have else_kept : b₃.Reserved elseBB :=
    through.reserved (kept (b.blocks + 2) (Nat.le_add_right ..)) (Nat.lt_add_one _)
      (by simp [thenBB, elseBB])
  have enters' : b₃.Enters elseBB (b₃.goTo elseBB) := enters_goTo through.clean else_kept
    (Nat.lt_of_lt_of_le (Nat.lt_add_one (b.blocks + 2)) through.blocks)
  have fit₃ : Fit elsePart.labels b₃ :=
    fit.since ((on.since b₁.blocks).trans through) (List.sublist_append_right ..)
      fun label among => by
      simpa [thenBB] using fun there => disjoint label there label among rfl
  obtain ⟨through', stands'⟩ := other.inBlock enters' fit₃ (by simp [elseBB]) endBB
  have both := through.trans (through'.mono through.blocks fun _ among _ => among)
  have end_kept := both.reserved (kept (b.blocks + 1) (Nat.le_add_right ..))
    (Nat.lt_succ_of_lt (Nat.lt_add_one _)) (by simp [thenBB, elseBB])
  have leaves := enters_goTo through'.clean end_kept
    (Nat.lt_of_lt_of_le (Nat.lt_succ_of_lt (Nat.lt_add_one (b.blocks + 1))) both.blocks)
  have whole : (StmtNode.ifElse cond thenPart elsePart).emit loops b =
      ((elsePart.emit loops (b₃.goTo elseBB)).brIfNeeded endBB).goTo endBB := by
    rw [← emitOpen_ready (elsePart.emit loops) enters'.ready]
    simp only [b₃]
    rw [← emitOpen_ready (thenPart.emit loops) enters.ready]
    rfl
  rw [whole]
  refine ⟨(on.since b.blocks).trans ((both.trans (leaves.since b₁.blocks)).mono
    (on.since 0).blocks ?_), fun code grown => ?_⟩
  · intro block among old
    grind [BlockId.Old]
  · obtain ⟨grown₃, else_stands, joins'⟩ := stands' code grown
    obtain ⟨grown₂, then_stands, joins⟩ := stands code ((enters'.since 0).grown.trans grown₃)
    have branches := (at_close (b := b₁) (.condBr (isTrue b.temps) thenBB elseBB)).grow grown₂
    rw [show b₁.here = b.here.next from here_insert (b := b.addTemps 1) _] at branches
    have temps_le := (on.since 0).temps.trans through.temps
    exact ⟨b.temps, b₂.temps, _, thenBB, elseBB, endBB, _, _,
      ⟨Nat.le_refl _, Nat.le_add_right .., temps_le⟩,
      (at_insert (b := b.addTemps 1) _).grow ((enters.since 0).grown.trans grown₂), branches,
      ⟨then_stands, joins⟩, ⟨else_stands, joins'⟩, leaves.left⟩

theorem emits_whileStmt (cond : ExprNode σ) {body : StmtNode σ}
    (part : ∀ targets, Emits body.labels (body.emit (targets :: loops))
      (body.Stands · (targets :: loops))) :
    Emits (StmtNode.whileStmt cond body).labels ((StmtNode.whileStmt cond body).emit loops)
      ((StmtNode.whileStmt cond body).Stands · loops) := by
  rw [StmtNode.labels]
  intro b fit ready
  let condBB : BlockId Label := .fresh b.blocks
  let bodyBB : BlockId Label := .fresh (b.blocks + 1)
  let endBB : BlockId Label := .fresh (b.blocks + 2)
  let b₁ := b.addBlocks 3
  have on : b.Continues b₁ := (Continues.refl fit.clean ready).addBlocks 3
  have kept : ∀ number, b.blocks ≤ number → b₁.Reserved (.fresh number) :=
    fun number new => reserved_addBlocks fit.clean new
  let b₂ := (b₁.close (.br condBB)).goTo condBB
  have enters : b₁.Enters condBB b₂ :=
    enters_close on.clean on.ready (kept _ (Nat.le_refl _))
      (Nat.lt_add_of_pos_right (Nat.succ_pos _)) _
  let b₃ := (b₂.addTemps 1).insert (.eval b.temps cond)
  have on' : b₂.Continues b₃ :=
    ((Continues.refl enters.clean enters.ready).addTemps 1).insert (.eval b.temps cond)
  have tests : b₁.Since b₁.blocks [condBB] b₃ := (enters.since _).trans (on'.since _)
  let b₄ := (b₃.close (.condBr (isTrue b.temps) bodyBB endBB)).goTo bodyBB
  have enters' : b₃.Enters bodyBB b₄ := enters_close on'.clean on'.ready
    (tests.reserved (kept (b.blocks + 1) (Nat.le_add_right ..))
      (Nat.lt_succ_of_lt (Nat.lt_add_one _)) (by simp [condBB]))
    (Nat.lt_of_lt_of_le (Nat.lt_succ_of_lt (Nat.lt_add_one (b.blocks + 1))) tests.blocks) _
  obtain ⟨through, stands⟩ := (part ⟨condBB, endBB⟩).inBlock enters'
    (fit.since ((on.since b₁.blocks).trans tests) (.refl _) (by simp [condBB]))
      (by simp [bodyBB]) condBB
  have all := tests.trans (through.mono tests.blocks fun _ among _ => among)
  have end_kept := all.reserved (kept (b.blocks + 2) (Nat.le_add_right ..)) (Nat.lt_add_one _)
    (by simp [condBB, bodyBB])
  have leaves := enters_goTo through.clean end_kept
    (Nat.lt_of_lt_of_le (Nat.lt_add_one (b.blocks + 2)) all.blocks)
  have whole : (StmtNode.whileStmt cond body).emit loops b =
      ((body.emit (⟨condBB, endBB⟩ :: loops) b₄).brIfNeeded condBB).goTo endBB := by
    rw [← emitOpen_ready (body.emit (⟨condBB, endBB⟩ :: loops)) enters'.ready]
    rfl
  rw [whole]
  refine ⟨(on.since b.blocks).trans ((all.trans (leaves.since b₁.blocks)).mono
    (on.since 0).blocks ?_), fun code grown => ?_⟩
  · intro block among old
    grind [BlockId.Old]
  · obtain ⟨grown₄, body_stands, joins⟩ := stands code grown
    have grown₃ := (enters'.since 0).grown.trans grown₄
    have goes := (at_close (b := b₁) (.br condBB)).grow ((on'.since 0).grown.trans grown₃)
    have evals := (at_insert (b := b₂.addTemps 1) (.eval b.temps cond)).grow grown₃
    have branches := (at_close (b := b₃) (.condBr (isTrue b.temps) bodyBB endBB)).grow grown₄
    rw [show (b₂.addTemps 1).here = condBB.start from enters.here] at evals
    rw [show b₃.here = condBB.start.next from
      (here_insert (b := b₂.addTemps 1) _).trans (congrArg Place.next enters.here)] at branches
    exact ⟨condBB, goes, b.temps, b₄.temps, condBB, bodyBB, endBB, _,
      ⟨Nat.le_refl _, Nat.le_add_right ..⟩, rfl, evals, branches, body_stands, joins, leaves.left⟩

theorem emits_repeatStmt {stmts : StmtList σ} (cond : ExprNode σ)
    (part : ∀ targets, Emits stmts.labels (stmts.emit (targets :: loops))
      fun code low p q => stmts.Stands code (targets :: loops) low (some p) q) :
    Emits (StmtNode.repeatStmt stmts cond).labels ((StmtNode.repeatStmt stmts cond).emit loops)
      ((StmtNode.repeatStmt stmts cond).Stands · loops) := by
  rw [StmtNode.labels]
  intro b fit ready
  let bodyBB : BlockId Label := .fresh b.blocks
  let condBB : BlockId Label := .fresh (b.blocks + 1)
  let endBB : BlockId Label := .fresh (b.blocks + 2)
  let b₁ := b.addBlocks 3
  have on : b.Continues b₁ := (Continues.refl fit.clean ready).addBlocks 3
  have kept : ∀ number, b.blocks ≤ number → b₁.Reserved (.fresh number) :=
    fun number new => reserved_addBlocks fit.clean new
  let b₂ := (b₁.close (.br bodyBB)).goTo bodyBB
  have enters : b₁.Enters bodyBB b₂ :=
    enters_close on.clean on.ready (kept _ (Nat.le_refl _))
      (Nat.lt_add_of_pos_right (Nat.succ_pos _))
      _
  obtain ⟨through, stands⟩ := (part ⟨condBB, endBB⟩).inBlock enters
    (fit.since (on.since 0) (.refl _) (by simp)) (by simp [bodyBB]) condBB
  let b₃ := (stmts.emit (⟨condBB, endBB⟩ :: loops) b₂).brIfNeeded condBB
  let b₄ := b₃.goTo condBB
  have enters' : b₃.Enters condBB b₄ := enters_goTo through.clean
    (through.reserved (kept (b.blocks + 1) (Nat.le_add_right ..))
      (Nat.lt_succ_of_lt (Nat.lt_add_one _)) (by simp [condBB, bodyBB]))
    (Nat.lt_of_lt_of_le (Nat.lt_succ_of_lt (Nat.lt_add_one (b.blocks + 1))) through.blocks)
  let b₅ := (b₄.addTemps 1).insert (.eval b₄.temps cond)
  have on' : b₄.Continues b₅ :=
    ((Continues.refl enters'.clean enters'.ready).addTemps 1).insert (.eval b₄.temps cond)
  have all := through.trans ((enters'.since b₁.blocks).trans (on'.since b₁.blocks))
  have leaves : b₅.Enters endBB ((b₅.close (.condBr (isTrue b₄.temps) endBB bodyBB)).goTo endBB) :=
    enters_close on'.clean on'.ready
      (all.reserved (kept (b.blocks + 2) (Nat.le_add_right ..)) (Nat.lt_add_one _)
        (by simp [condBB, bodyBB]))
      (Nat.lt_of_lt_of_le (Nat.lt_add_one (b.blocks + 2)) all.blocks) _
  have whole : (StmtNode.repeatStmt stmts cond).emit loops b =
      (b₅.close (.condBr (isTrue b₄.temps) endBB bodyBB)).goTo endBB := rfl
  rw [whole]
  refine ⟨(on.since b.blocks).trans ((all.trans (leaves.since b₁.blocks)).mono
    (on.since 0).blocks ?_), fun code grown => ?_⟩
  · intro block among old
    grind [BlockId.Old]
  · have grown₅ := (leaves.since 0).grown.trans grown
    have grown₃ := (enters'.since 0).grown.trans ((on'.since 0).grown.trans grown₅)
    obtain ⟨grown₂, body_stands, joins⟩ := stands code grown₃
    have goes := (at_close (b := b₁) (.br bodyBB)).grow grown₂
    have evals := (at_insert (b := b₄.addTemps 1) (.eval b₄.temps cond)).grow grown₅
    have branches := (at_close (b := b₅) (.condBr (isTrue b₄.temps) endBB bodyBB)).grow grown
    rw [show (b₄.addTemps 1).here = condBB.start from enters'.here] at evals
    rw [show b₅.here = condBB.start.next from
      (here_insert (b := b₄.addTemps 1) _).trans (congrArg Place.next enters'.here)] at branches
    have temps_le := (on.since 0).temps.trans through.temps
    exact ⟨bodyBB, goes, b₄.temps, b₂.temps, condBB, bodyBB, endBB, _,
      ⟨temps_le, (on.since 0).temps.trans (enters.since 0).temps⟩, rfl, body_stands, joins, evals,
      branches, leaves.left⟩

theorem emits_forStmt (control : Control σ) (start limit : ExprNode σ) {body : StmtNode σ}
    (part : ∀ targets, Emits body.labels (body.emit (targets :: loops))
      (body.Stands · (targets :: loops))) :
    Emits (StmtNode.forStmt control start limit body).labels
      ((StmtNode.forStmt control start limit body).emit loops)
      ((StmtNode.forStmt control start limit body).Stands · loops) := by
  rw [StmtNode.labels]
  intro b fit ready
  let condBB : BlockId Label := .fresh b.blocks
  let bodyBB : BlockId Label := .fresh (b.blocks + 1)
  let incBB : BlockId Label := .fresh (b.blocks + 2)
  let endBB : BlockId Label := .fresh (b.blocks + 3)
  let load : ExprNode σ := fun s => .ok (control.load s, s)
  let evalStart : Instruction σ := .eval b.temps start
  let evalLimit : Instruction σ := .eval (b.temps + 1) limit
  let store : Instruction σ := .act fun temps s => .ok (control.store (temps b.temps) s)
  let evalCur : Instruction σ := .eval (b.temps + 2) load
  let evalCur2 : Instruction σ := .eval (b.temps + 3) load
  let storeNext : Instruction σ :=
    .act fun temps s => .ok (control.store (control.next (temps (b.temps + 3))) s)
  let notPast : Temps → Bool := fun temps => control.cmp (temps (b.temps + 2)) (temps (b.temps + 1))
  let atLimit : Temps → Bool := fun temps => temps (b.temps + 3) == temps (b.temps + 1)
  -- before the loop
  let a₁ := (b.addTemps 4).insert evalStart
  let a₂ := a₁.insert evalLimit
  let b₁ := a₂.insert store
  have on₁ : b.Continues a₁ := ((Continues.refl fit.clean ready).addTemps 4).insert evalStart
  have on₂ : a₁.Continues a₂ := (Continues.refl on₁.clean on₁.ready).insert evalLimit
  have on₃ : a₂.Continues b₁ := (Continues.refl on₂.clean on₂.ready).insert store
  have before : b.Continues b₁ := (on₁.insert evalLimit).insert store
  let b₂ := b₁.addBlocks 4
  have on : b.Continues b₂ := before.addBlocks 4
  have kept : ∀ number, b.blocks ≤ number → b₂.Reserved (.fresh number) :=
    fun number new => reserved_addBlocks before.clean new
  let b₃ := (b₂.close (.br condBB)).goTo condBB
  have enters : b₂.Enters condBB b₃ :=
    enters_close on.clean on.ready (kept _ (Nat.le_refl _))
      (Nat.lt_add_of_pos_right (Nat.succ_pos _))
      _
  let b₄ := b₃.insert evalCur
  have on' : b₃.Continues b₄ := (Continues.refl enters.clean enters.ready).insert evalCur
  have tests : b₂.Since b₂.blocks [condBB] b₄ := (enters.since _).trans (on'.since _)
  -- the body
  let b₅ := (b₄.close (.condBr notPast bodyBB endBB)).goTo bodyBB
  have enters' : b₄.Enters bodyBB b₅ := enters_close on'.clean on'.ready
    (tests.reserved (kept (b.blocks + 1) (Nat.le_add_right ..))
      (Nat.lt_succ_of_lt (Nat.lt_succ_of_lt (Nat.lt_add_one _))) (by simp [condBB]))
    (Nat.lt_of_lt_of_le (Nat.lt_succ_of_lt (Nat.lt_succ_of_lt (Nat.lt_add_one (b.blocks + 1))))
      tests.blocks) _
  obtain ⟨through, stands⟩ := (part ⟨incBB, endBB⟩).inBlock enters'
    (fit.since ((on.since b₂.blocks).trans tests) (.refl _) (by simp [condBB]))
      (by simp [bodyBB]) incBB
  let b₆ := (body.emit (⟨incBB, endBB⟩ :: loops) b₅).brIfNeeded incBB
  have round := tests.trans (through.mono tests.blocks fun _ among _ => among)
  -- behind a round
  let stepBB : BlockId Label := .fresh b₆.blocks
  let b₇ := b₆.goTo incBB
  have enters_inc : b₆.Enters incBB b₇ := enters_goTo through.clean
    (round.reserved (kept (b.blocks + 2) (Nat.le_add_right ..))
      (Nat.lt_succ_of_lt (Nat.lt_add_one _)) (by simp [condBB, bodyBB, incBB]))
    (Nat.lt_of_lt_of_le (Nat.lt_succ_of_lt (Nat.lt_add_one (b.blocks + 2))) round.blocks)
  let b₈ := (b₇.addBlocks 1).insert evalCur2
  have added : b₇.Continues (b₇.addBlocks 1) :=
    (Continues.refl enters_inc.clean enters_inc.ready).addBlocks 1
  have on_inc : b₇.Continues b₈ := added.insert evalCur2
  have step_kept : b₈.Reserved stepBB :=
    ((Continues.refl added.clean added.ready).insert evalCur2).reserved
      (reserved_addBlocks enters_inc.clean (Nat.le_refl _)) (Nat.lt_add_one _)
  let b₉ := (b₈.close (.condBr atLimit endBB stepBB)).goTo stepBB
  have enters_step : b₈.Enters stepBB b₉ :=
    enters_close on_inc.clean on_inc.ready step_kept (Nat.lt_add_one _) _
  let b₁₀ := b₉.insert storeNext
  have on_step : b₉.Continues b₁₀ :=
    (Continues.refl enters_step.clean enters_step.ready).insert storeNext
  have all := round.trans ((enters_inc.since b₂.blocks).trans ((on_inc.since b₂.blocks).trans
    ((enters_step.since b₂.blocks).trans (on_step.since b₂.blocks))))
  have step_new : b₂.blocks ≤ b₆.blocks := round.blocks
  have end_kept : b₁₀.Reserved endBB := by
    refine all.reserved (kept (b.blocks + 3) (Nat.le_add_right ..)) (Nat.lt_add_one _) ?_
    have apart : endBB ≠ stepBB := fun same =>
      absurd (BlockId.fresh.inj same)
        (Nat.ne_of_lt (Nat.lt_of_lt_of_le (Nat.lt_add_one _) step_new))
    simpa [condBB, bodyBB, incBB, endBB] using apart
  have leaves : b₁₀.Enters endBB ((b₁₀.close (.br condBB)).goTo endBB) :=
    enters_close on_step.clean on_step.ready end_kept
      (Nat.lt_of_lt_of_le (Nat.lt_add_one (b.blocks + 3)) all.blocks) _
  have whole : (StmtNode.forStmt control start limit body).emit loops b =
      (b₁₀.close (.br condBB)).goTo endBB := by
    simp only [b₁₀, b₉, b₈, b₇, b₆, stepBB]
    rw [← emitOpen_ready (body.emit (⟨incBB, endBB⟩ :: loops)) enters'.ready]
    rfl
  rw [whole]
  refine ⟨(on.since b.blocks).trans ((all.trans (leaves.since b₂.blocks)).mono
    (on.since 0).blocks ?_), fun code grown => ?_⟩
  · have new : b.blocks ≤ b₆.blocks := (on.since 0).blocks.trans step_new
    intro block among old
    grind [BlockId.Old]
  · have grown₁₀ := (leaves.since 0).grown.trans grown
    have grown₉ := (on_step.since 0).grown.trans grown₁₀
    have grown₈ := (enters_step.since 0).grown.trans grown₉
    have grown₇ := (on_inc.since 0).grown.trans grown₈
    obtain ⟨grown₅, body_stands, joins⟩ := stands code ((enters_inc.since 0).grown.trans grown₇)
    have grown₄ := (enters'.since 0).grown.trans grown₅
    have grown₃ := (on'.since 0).grown.trans grown₄
    have grown₁ : Extends b₁.code code := (enters.since 0).grown.trans grown₃
    have grown₂ := (on₃.since 0).grown.trans grown₁
    have here₁ : a₁.here = b.here.next := here_insert (b := b.addTemps 4) _
    have here₂ : a₂.here = b.here.next.next := (here_insert _).trans (congrArg Place.next here₁)
    have here₃ : b₂.here = b.here.next.next.next :=
      (here_insert (b := a₂) _).trans (congrArg Place.next here₂)
    have stands_start : evalStart.At code b.here :=
      (at_insert (b := b.addTemps 4) evalStart).grow ((on₂.since 0).grown.trans grown₂)
    have stands_limit : evalLimit.At code b.here.next := here₁ ▸ (at_insert evalLimit).grow grown₂
    have stands_store : store.At code b.here.next.next := here₂ ▸ (at_insert store).grow grown₁
    have goes : (Terminator.br condBB).At code b.here.next.next.next :=
      here₃ ▸ (at_close (b := b₂) (.br condBB)).grow grown₃
    have stands_cur : evalCur.At code condBB.start :=
      enters.here ▸ (at_insert (b := b₃) evalCur).grow grown₄
    have branches : (Terminator.condBr notPast bodyBB endBB).At code condBB.start.next :=
      ((here_insert _).trans (congrArg Place.next enters.here)) ▸
        (at_close (b := b₄) (.condBr notPast bodyBB endBB)).grow grown₅
    have stands_cur2 : evalCur2.At code incBB.start :=
      enters_inc.here ▸ (at_insert (b := b₇.addBlocks 1) evalCur2).grow grown₈
    have branches' : (Terminator.condBr atLimit endBB stepBB).At code incBB.start.next :=
      ((here_insert (b := b₇.addBlocks 1) _).trans (congrArg Place.next enters_inc.here)) ▸
        (at_close (b := b₈) (.condBr atLimit endBB stepBB)).grow grown₉
    have stands_next : storeNext.At code stepBB.start :=
      enters_step.here ▸ (at_insert (b := b₉) storeNext).grow grown₁₀
    have around : (Terminator.br condBB).At code stepBB.start.next :=
      ((here_insert _).trans (congrArg Place.next enters_step.here)) ▸
        (at_close (b := b₁₀) (.br condBB)).grow grown
    have inner : b.temps + 4 = b₅.temps := rfl
    refine ⟨b.temps, b.temps + 1, b.temps, condBB, by omega, by omega, stands_start, stands_limit,
      stands_store, goes, b.temps + 2, b.temps + 3, b₅.temps, condBB, bodyBB, incBB, stepBB, endBB,
      _, by omega, by omega, rfl, stands_cur, branches, body_stands, joins, stands_cur2, branches',
      stands_next, around, leaves.left⟩

theorem emits_forInStmt (control : SetControl σ) (setExpr : ExprNode σ) {body : StmtNode σ}
    (part : ∀ targets, Emits body.labels (body.emit (targets :: loops))
      (body.Stands · (targets :: loops))) :
    Emits (StmtNode.forInStmt control setExpr body).labels
      ((StmtNode.forInStmt control setExpr body).emit loops)
      ((StmtNode.forInStmt control setExpr body).Stands · loops) := by
  rw [StmtNode.labels]
  intro b fit ready
  let condBB : BlockId Label := .fresh b.blocks
  let testBB : BlockId Label := .fresh (b.blocks + 1)
  let bodyBB : BlockId Label := .fresh (b.blocks + 2)
  let incBB : BlockId Label := .fresh (b.blocks + 3)
  let endBB : BlockId Label := .fresh (b.blocks + 4)
  let load : Temps → Int := fun temps => temps (b.temps + 1)
  let evalSet : Instruction σ := .eval b.temps setExpr
  let clear : Instruction σ := .calc (b.temps + 1) fun _ => 0
  let store : Instruction σ := .act fun temps s => .ok (control.store (temps (b.temps + 4)) s)
  let count : Instruction σ := .calc (b.temps + 1) fun temps => temps (b.temps + 5) + 1
  let more : Temps → Bool := fun temps => decide (temps (b.temps + 2) < PlangMaxSetElements)
  let isMem : Temps → Bool := fun temps => control.isMem (temps b.temps) (temps (b.temps + 3))
  -- before the loop
  let a₁ := (b.addTemps 6).insert evalSet
  let b₁ := a₁.insert clear
  have on₁ : b.Continues a₁ := ((Continues.refl fit.clean ready).addTemps 6).insert evalSet
  have on₂ : a₁.Continues b₁ := (Continues.refl on₁.clean on₁.ready).insert clear
  have before : b.Continues b₁ := on₁.insert clear
  let b₂ := b₁.addBlocks 5
  have on : b.Continues b₂ := before.addBlocks 5
  have kept : ∀ number, b.blocks ≤ number → b₂.Reserved (.fresh number) :=
    fun number new => reserved_addBlocks before.clean new
  have created : ∀ {after : Builder σ Label}, b₂.blocks ≤ after.blocks → ∀ number,
      number < b.blocks + 5 → (BlockId.fresh number : BlockId Label).Old after.blocks :=
    fun le number lt => Nat.lt_of_lt_of_le lt le
  -- the tests
  let b₃ := (b₂.close (.br condBB)).goTo condBB
  have enters : b₂.Enters condBB b₃ :=
    enters_close on.clean on.ready (kept _ (Nat.le_refl _))
      (created (Nat.le_refl _) _ (by omega)) _
  let b₄ := b₃.insert (.calc (b.temps + 2) load)
  have on' : b₃.Continues b₄ := (Continues.refl enters.clean enters.ready).insert _
  have cond := (enters.since b₂.blocks).trans (on'.since b₂.blocks)
  let b₅ := (b₄.close (.condBr more testBB endBB)).goTo testBB
  have enters_test : b₄.Enters testBB b₅ := enters_close on'.clean on'.ready
    (cond.reserved (kept _ (Nat.le_add_right ..)) (created (Nat.le_refl _) _ (by omega))
      (by simp [condBB]))
    (created cond.blocks _ (by omega)) _
  let b₆ := b₅.insert (.calc (b.temps + 3) load)
  have on_test : b₅.Continues b₆ := (Continues.refl enters_test.clean enters_test.ready).insert _
  have tests := cond.trans ((enters_test.since b₂.blocks).trans (on_test.since b₂.blocks))
  -- the body
  let b₇ := (b₆.close (.condBr isMem bodyBB incBB)).goTo bodyBB
  have enters_body : b₆.Enters bodyBB b₇ := enters_close on_test.clean on_test.ready
    (tests.reserved (kept _ (Nat.le_add_right ..)) (created (Nat.le_refl _) _ (by omega))
      (by simp [condBB, testBB]))
    (created tests.blocks _ (by omega)) _
  let a₇ := b₇.insert (.calc (b.temps + 4) load)
  let b₈ := a₇.insert store
  have on_bit : b₇.Continues a₇ :=
    (Continues.refl enters_body.clean enters_body.ready).insert _
  have on_store : a₇.Continues b₈ := (Continues.refl on_bit.clean on_bit.ready).insert store
  have opened := tests.trans ((enters_body.since b₂.blocks).trans
    ((on_bit.since b₂.blocks).trans (on_store.since b₂.blocks)))
  have fit₈ : Fit body.labels b₈ :=
    fit.since ((on.since b₂.blocks).trans opened) (.refl _) (by simp [condBB, testBB, bodyBB])
  have inner := part ⟨incBB, endBB⟩ b₈ fit₈ on_store.ready
  let b₉ := (body.emit (⟨incBB, endBB⟩ :: loops) b₈).brIfNeeded incBB
  have closes : (body.emit (⟨incBB, endBB⟩ :: loops) b₈).Since b₂.blocks [] b₉ :=
    since_brIfNeeded inner.since.clean incBB
  have inner_since := inner.since.mono opened.blocks fun _ among _ => among
  have round := opened.trans (inner_since.trans closes)
  -- behind a round
  let b₁₀ := b₉.goTo incBB
  have enters_inc : b₉.Enters incBB b₁₀ := enters_goTo round.clean
    (round.reserved (kept _ (Nat.le_add_right ..)) (created (Nat.le_refl _) _ (by omega))
      (by simp [condBB, testBB, bodyBB, incBB]))
    (created round.blocks _ (by omega))
  let a₁₀ := b₁₀.insert (.calc (b.temps + 5) load)
  let b₁₁ := a₁₀.insert count
  have on_load : b₁₀.Continues a₁₀ :=
    (Continues.refl enters_inc.clean enters_inc.ready).insert _
  have on_count : a₁₀.Continues b₁₁ := (Continues.refl on_load.clean on_load.ready).insert count
  have all := round.trans ((enters_inc.since b₂.blocks).trans
    ((on_load.since b₂.blocks).trans (on_count.since b₂.blocks)))
  have leaves : b₁₁.Enters endBB ((b₁₁.close (.br condBB)).goTo endBB) :=
    enters_close on_count.clean on_count.ready
      (all.reserved (kept _ (Nat.le_add_right ..)) (created (Nat.le_refl _) _ (by omega))
        (by simp [condBB, testBB, bodyBB, incBB]))
      (created all.blocks _ (by omega)) _
  have whole : (StmtNode.forInStmt control setExpr body).emit loops b =
      (b₁₁.close (.br condBB)).goTo endBB := by
    simp only [b₁₁, a₁₀, b₁₀, b₉]
    rw [← emitOpen_ready (body.emit (⟨incBB, endBB⟩ :: loops)) on_store.ready]
    rfl
  rw [whole]
  refine ⟨(on.since b.blocks).trans ((all.trans (leaves.since b₂.blocks)).mono
    (on.since 0).blocks ?_), fun code grown => ?_⟩
  · intro block among old
    grind [BlockId.Old]
  · have grown₁₁ := (leaves.since 0).grown.trans grown
    have grown_load := (on_count.since 0).grown.trans grown₁₁
    have grown₉ : Extends b₉.code code :=
      (enters_inc.since 0).grown.trans ((on_load.since 0).grown.trans grown_load)
    have grown_body := closes.grown.trans grown₉
    have grown₈ := inner.since.grown.trans grown_body
    have grown_bit := (on_store.since 0).grown.trans grown₈
    have grown₇ := (on_bit.since 0).grown.trans grown_bit
    have grown₆ := (enters_body.since 0).grown.trans grown₇
    have grown₅ := (on_test.since 0).grown.trans grown₆
    have grown₄ := (enters_test.since 0).grown.trans grown₅
    have grown₃ := (on'.since 0).grown.trans grown₄
    have grown₁ : Extends b₁.code code := (enters.since 0).grown.trans grown₃
    have here₁ : a₁.here = b.here.next := here_insert (b := b.addTemps 6) _
    have here₂ : b₂.here = b.here.next.next :=
      (here_insert (b := a₁) _).trans (congrArg Place.next here₁)
    have evals : evalSet.At code b.here :=
      (at_insert (b := b.addTemps 6) evalSet).grow ((on₂.since 0).grown.trans grown₁)
    have clears : clear.At code b.here.next := here₁ ▸ (at_insert clear).grow grown₁
    have goes : (Terminator.br condBB).At code b.here.next.next :=
      here₂ ▸ (at_close (b := b₂) (.br condBB)).grow grown₃
    have loads : (Instruction.calc (b.temps + 2) load).At code condBB.start :=
      enters.here ▸ (at_insert (b := b₃) _).grow grown₄
    have branches : (Terminator.condBr more testBB endBB).At code condBB.start.next :=
      ((here_insert _).trans (congrArg Place.next enters.here)) ▸
        (at_close (b := b₄) (.condBr more testBB endBB)).grow grown₅
    have loads2 : (Instruction.calc (b.temps + 3) load).At code testBB.start :=
      enters_test.here ▸ (at_insert (b := b₅) _).grow grown₆
    have branches2 : (Terminator.condBr isMem bodyBB incBB).At code testBB.start.next :=
      ((here_insert _).trans (congrArg Place.next enters_test.here)) ▸
        (at_close (b := b₆) (.condBr isMem bodyBB incBB)).grow grown₇
    have loads3 : (Instruction.calc (b.temps + 4) load).At code bodyBB.start :=
      enters_body.here ▸ (at_insert (b := b₇) _).grow grown_bit
    have here_bit : a₇.here = bodyBB.start.next :=
      (here_insert _).trans (congrArg Place.next enters_body.here)
    have stores : store.At code bodyBB.start.next := here_bit ▸ (at_insert store).grow grown₈
    have here₈ : b₈.here = bodyBB.start.next.next :=
      (here_insert _).trans (congrArg Place.next here_bit)
    have joins := (joins_brIfNeeded (b := body.emit (⟨incBB, endBB⟩ :: loops) b₈) incBB).grow grown₉
    have loads4 : (Instruction.calc (b.temps + 5) load).At code incBB.start :=
      enters_inc.here ▸ (at_insert (b := b₁₀) _).grow grown_load
    have here_load : a₁₀.here = incBB.start.next :=
      (here_insert _).trans (congrArg Place.next enters_inc.here)
    have counts : count.At code incBB.start.next := here_load ▸ (at_insert count).grow grown₁₁
    have around : (Terminator.br condBB).At code incBB.start.next.next :=
      ((here_insert _).trans (congrArg Place.next here_load)) ▸
        (at_close (b := b₁₁) (.br condBB)).grow grown
    have own : b.temps + 6 = b₈.temps := rfl
    exact ⟨b.temps, b.temps + 1, b.temps, condBB, by omega, by omega, evals, clears, goes,
      b.temps + 2, b.temps + 3, b.temps + 4, b.temps + 5, b₈.temps, condBB, testBB, bodyBB, incBB,
      endBB, _, by omega, by omega, by simp, rfl, loads, branches, loads2, branches2, loads3,
      stores, here₈ ▸ inner.stands code grown_body, joins, loads4, counts, around, leaves.left⟩

theorem emits_withStmt (records : σ → Except σ σ) {body : StmtNode σ}
    (part : Emits body.labels (body.emit loops) (body.Stands · loops)) :
    Emits (StmtNode.withStmt records body).labels ((StmtNode.withStmt records body).emit loops)
      ((StmtNode.withStmt records body).Stands · loops) := by
  rw [StmtNode.labels]
  intro b fit ready
  let b₁ := b.insert (.act fun _ => records)
  have on : b.Continues b₁ := (Continues.refl fit.clean ready).insert _
  have inner := part b₁ (fit.since (on.since 0) (.refl _) (by simp)) on.ready
  have whole : (StmtNode.withStmt records body).emit loops b = body.emit loops b₁ :=
    emitOpen_ready _ on.ready
  rw [whole]
  refine ⟨(on.since b.blocks).trans inner.since, fun code grown => ⟨?_, ?_⟩⟩
  · exact (at_insert _).grow (inner.since.grown.trans grown)
  · rw [← here_insert (.act fun _ => records)]
    exact inner.stands code grown

/-! ### Case statements -/

/-- The arms from one on stand at the block of its test. -/
def ArmsEmit (loops : List LoopTargets) (arms : ArmList σ) : Prop :=
  ∀ (sel : Nat) (endBB : BlockId Label) (next : Nat) (b : Builder σ Label), Fit arms.labels b →
    b.Reserved (.fresh next) → next < b.blocks →
    b.Since b.blocks (.fresh next :: arms.labels.map .named)
        (arms.emit sel endBB (.fresh next) loops b) ∧
      ∀ code, Extends (arms.emit sel endBB (.fresh next) loops b).code code →
        arms.Stands code sel endBB loops b.temps (BlockId.start (.fresh next))

theorem emits_otherwise {stmt : StmtNode σ}
    (part : Emits stmt.labels (stmt.emit loops) (stmt.Stands · loops)) :
    ArmsEmit loops (.otherwise stmt) := by
  intro sel endBB next b fit kept created
  have enters := enters_goTo fit.clean kept created
  obtain ⟨through, stands⟩ := part.inBlock enters fit (by simp) endBB
  have whole : (ArmList.otherwise stmt).emit sel endBB (.fresh next) loops b =
      (stmt.emit loops (b.goTo (.fresh next))).brIfNeeded endBB := by
    rw [← emitOpen_ready (stmt.emit loops) enters.ready]
    rfl
  rw [whole]
  exact ⟨through, fun code grown => ⟨_, (stands code grown).2⟩⟩

theorem emits_noCase (report : Int → σ → σ) :
    ArmsEmit loops (.plang_err_no_case report) := by
  intro sel endBB next b fit kept created
  have enters := enters_goTo fit.clean kept created
  have emitted := emitted_insert_close (fit.since (enters.since 0) (.refl _) (by simp)) enters.ready
    (.act fun temps s => .error (report (temps sel) s)) .unreachable
  have closes : (((b.goTo (.fresh next)).insert
      (.act fun temps s => .error (report (temps sel) s))).close .unreachable).Since b.blocks []
      ((ArmList.plang_err_no_case report).emit sel endBB (.fresh next) loops b) :=
    since_brIfNeeded emitted.since.clean endBB
  refine ⟨(enters.since b.blocks).trans (emitted.since.trans closes), fun code grown => ?_⟩
  have stands := (emitted.stands code (closes.grown.trans grown)).1
  rwa [enters.here] at stands

theorem emits_arm (labels : List CaseLabel) {body : StmtNode σ} {rest : ArmList σ}
    (part : Emits body.labels (body.emit loops) (body.Stands · loops))
    (others : ArmsEmit loops rest) : ArmsEmit loops (.arm labels body rest) := by
  intro sel endBB next b fit kept created
  have disjoint := (List.nodup_append.mp fit.nodup).2.2
  let testBB : BlockId Label := .fresh b.blocks
  let armBB : BlockId Label := .fresh (b.blocks + 1)
  let test : Temps → Bool := fun temps => labels.any (CaseLabel.matches (temps sel))
  let b₀ := b.goTo (.fresh next)
  have enters₀ : b.Enters (.fresh next) b₀ := enters_goTo fit.clean kept created
  let b₁ := b₀.addBlocks 2
  have on : b₀.Continues b₁ := (Continues.refl enters₀.clean enters₀.ready).addBlocks 2
  have new : ∀ number, b.blocks ≤ number → b₁.Reserved (.fresh number) :=
    fun number new => reserved_addBlocks enters₀.clean new
  have start : b.Since b.blocks [.fresh next] b₁ := (enters₀.since _).trans (on.since _)
  let b₂ := (b₁.close (.condBr test armBB testBB)).goTo armBB
  have enters : b₁.Enters armBB b₂ :=
    enters_close on.clean on.ready (new _ (Nat.le_add_right ..)) (Nat.lt_add_one _) _
  obtain ⟨through, stands⟩ := part.inBlock enters
    (fit.since start (List.sublist_append_left ..) (by simp)) (by simp [armBB]) endBB
  let b₃ := (body.emit loops b₂).brIfNeeded endBB
  have test_kept : b₃.Reserved testBB := through.reserved (new _ (Nat.le_refl _))
    (Nat.lt_add_of_pos_right (Nat.succ_pos _)) (by simp [armBB, testBB])
  have fit₃ : Fit rest.labels b₃ := by
    refine fit.since (start.trans (through.mono (Nat.le_add_right ..) fun _ among _ => among))
      (List.sublist_append_right ..) fun label among => ?_
    simpa [armBB] using fun there => disjoint label there label among rfl
  obtain ⟨through', stands'⟩ := others sel endBB b.blocks b₃ fit₃ test_kept
    (Nat.lt_of_lt_of_le (Nat.lt_add_of_pos_right (Nat.succ_pos 1)) through.blocks)
  have whole : (ArmList.arm labels body rest).emit sel endBB (.fresh next) loops b =
      rest.emit sel endBB testBB loops b₃ := by
    simp only [b₃]
    rw [← emitOpen_ready (body.emit loops) enters.ready]
    rfl
  have both := through.trans (through'.mono through.blocks fun _ among _ => among)
  rw [whole]
  refine ⟨(start.trans (both.mono (Nat.le_add_right ..) fun _ among _ => among)).mono
    (Nat.le_refl _) ?_, fun code grown => ?_⟩
  · intro block among old
    simp only [ArmList.labels]
    grind [BlockId.Old]
  · obtain ⟨grown₂, body_stands, joins⟩ := stands code (through'.grown.trans grown)
    have branches : (Terminator.condBr test armBB testBB).At code (BlockId.start (.fresh next)) :=
      enters₀.here ▸ (at_close (b := b₁) (.condBr test armBB testBB)).grow grown₂
    exact ⟨b₃.temps, armBB, testBB, _, start.temps.trans through.temps, branches,
      ⟨body_stands, joins⟩, stands' code grown⟩

theorem emits_caseStmt (selector : ExprNode σ) {arms : ArmList σ} (part : ArmsEmit loops arms) :
    Emits (StmtNode.caseStmt selector arms).labels ((StmtNode.caseStmt selector arms).emit loops)
      ((StmtNode.caseStmt selector arms).Stands · loops) := by
  rw [StmtNode.labels]
  intro b fit ready
  let endBB : BlockId Label := .fresh b.blocks
  let nextBB : BlockId Label := .fresh (b.blocks + 1)
  let b₁ := ((b.addTemps 1).insert (.eval b.temps selector)).addBlocks 2
  have start := ((Continues.refl fit.clean ready).addTemps 1).insert (.eval b.temps selector)
  have on : b.Continues b₁ := start.addBlocks 2
  have kept : ∀ number, b.blocks ≤ number → b₁.Reserved (.fresh number) :=
    fun number new => reserved_addBlocks start.clean new
  let b₂ := b₁.close (.br nextBB)
  have closes : ∀ mark, b₁.Since mark [] b₂ := fun _ => since_close on.clean on.ready _
  obtain ⟨through, stands⟩ := part b.temps endBB (b.blocks + 1) b₂
    (fit.since ((on.since 0).trans (closes 0)) (.refl _) (by simp))
    ((closes b₁.blocks).reserved (kept _ (Nat.le_add_right ..)) (Nat.lt_add_one _) (by simp))
    (Nat.lt_add_one _)
  have all := (closes b₁.blocks).trans through
  have end_kept := all.reserved (kept _ (Nat.le_refl _)) (Nat.lt_add_of_pos_right (Nat.succ_pos _))
    (by simp)
  have leaves := enters_goTo through.clean end_kept
    (Nat.lt_of_lt_of_le (Nat.lt_add_of_pos_right (Nat.succ_pos 1)) all.blocks)
  have whole : (StmtNode.caseStmt selector arms).emit loops b =
      (arms.emit b.temps endBB nextBB loops b₂).goTo endBB := rfl
  rw [whole]
  refine ⟨(on.since b.blocks).trans ((all.trans (leaves.since b₁.blocks)).mono
    (on.since 0).blocks ?_), fun code grown => ?_⟩
  · intro block among old
    grind [BlockId.Old]
  · have goes := (at_close (b := b₁) (.br nextBB)).grow (through.grown.trans grown)
    rw [show b₁.here = b.here.next from here_insert (b := b.addTemps 1) _] at goes
    exact ⟨b.temps, b₂.temps, nextBB, endBB, ⟨Nat.le_refl _, Nat.le_add_right ..⟩,
      (at_insert (b := b.addTemps 1) _).grow (all.grown.trans grown), goes, stands code grown,
      leaves.left⟩

/-! ### Lists -/

/-- A list may be emitted behind a branch. -/
def ListEmits (loops : List LoopTargets) (stmts : StmtList σ) : Prop :=
  ∀ b : Builder σ Label, Fit stmts.labels b →
    Emitted stmts.labels
      (fun code => stmts.Stands code loops b.temps b.left (stmts.emit loops b).left) b
      (stmts.emit loops b)

theorem ListEmits.emits {stmts : StmtList σ} (list : ListEmits loops stmts) :
    Emits stmts.labels (stmts.emit loops)
      fun code low p q => stmts.Stands code loops low (some p) q := by
  intro b fit ready
  have emitted := list b fit
  rwa [left_of_ready ready] at emitted

/-- Behind a branch, a list goes on in a block of its own. -/
def resumed (b : Builder σ Label) : Builder σ Label :=
  if b.isTerminated then resumeAfterTerminator b else b

theorem since_resumed (clean : b.Clean) : b.Since b.blocks [] (resumed b) ∧ (resumed b).Ready ∧
    (resumed b).temps = b.temps ∧ ∀ place, b.left = some place → (resumed b).here = place := by
  rw [resumed]
  split
  · rename_i terminated
    have added : ∀ mark, b.Since mark [] (b.addBlocks 1) := fun _ => since_addBlocks clean 1
    have enters : (b.addBlocks 1).Enters (.fresh b.blocks) (resumeAfterTerminator b) :=
      enters_goTo (added 0).clean (reserved_addBlocks clean (Nat.le_refl _)) (Nat.lt_add_one _)
    refine ⟨((added b.blocks).trans (enters.since b.blocks)).mono (Nat.le_refl _) ?_,
      enters.ready, rfl, fun place at_place => ?_⟩
    · intro block among old
      grind [BlockId.Old]
    · rw [left, if_pos terminated] at at_place
      cases at_place
  · rename_i open_
    have ready : b.Ready := Option.not_isSome_iff_eq_none.mp open_
    refine ⟨.refl clean, ready, rfl, fun place at_place => ?_⟩
    rw [left_of_ready ready] at at_place
    exact Option.some.inj at_place

theorem emits_nil : ListEmits loops (.nil : StmtList σ) :=
  fun _ fit => ⟨.refl fit.clean, fun _ _ => rfl⟩

theorem emits_cons {stmt : StmtNode σ} {rest : StmtList σ}
    (part : Emits stmt.labels (stmt.emit loops) (stmt.Stands · loops))
    (others : ListEmits loops rest) : ListEmits loops (.cons stmt rest) := by
  intro b fit
  have disjoint := (List.nodup_append.mp fit.nodup).2.2
  obtain ⟨resumes, ready, same, here⟩ := since_resumed fit.clean
  have head := part (resumed b) (fit.since resumes (List.sublist_append_left ..) (by simp)) ready
  have through : b.Since b.blocks (stmt.labels.map .named) (stmt.emit loops (resumed b)) :=
    resumes.trans (head.since.mono resumes.blocks fun _ among _ => among)
  have tail := others _ (fit.since through (List.sublist_append_right ..) fun label among => by
    simpa using fun there => disjoint label there label among rfl)
  have whole : (StmtList.cons stmt rest).emit loops b =
      rest.emit loops (stmt.emit loops (resumed b)) := by
    rw [← emitOpen_ready (stmt.emit loops) ready]
    rfl
  rw [whole]
  refine ⟨(through.trans (tail.since.mono through.blocks fun _ among _ => among)).mono
    (Nat.le_refl _) ?_, fun code grown => ?_⟩
  · intro block among old
    simpa [StmtList.labels] using among
  · have stands := head.stands code (tail.since.grown.trans grown)
    exact ⟨(resumed b).temps, (stmt.emit loops (resumed b)).temps, (resumed b).here, _,
      ⟨same.ge, through.temps⟩, here, stands, tail.stands code grown⟩

/-! ### All statements -/

mutual

/-- Wherever a statement is emitted, its code stands. -/
theorem stmt_emits {inLoop : Bool} {visible : List Label} {loops : List LoopTargets}
    (stmt : StmtNode σ) (legal : stmt.Legal inLoop visible) (inside : inLoop = true → loops ≠ []) :
    Emits stmt.labels (stmt.emit loops) (stmt.Stands · loops) := by
  cases stmt with
  | empty => exact emits_empty
  | simple run => exact emits_simple run
  | halt run => exact emits_halt run
  | compound stmts => exact (list_emits stmts legal inside).emits
  | ifThen cond thenPart => exact emits_ifThen cond (stmt_emits thenPart legal inside)
  | ifElse cond thenPart elsePart =>
      exact emits_ifElse cond (stmt_emits thenPart legal.1 inside)
        (stmt_emits elsePart legal.2 inside)
  | whileStmt cond body =>
      exact emits_whileStmt cond fun targets =>
        stmt_emits body legal fun _ => List.cons_ne_nil targets loops
  | repeatStmt stmts cond =>
      exact emits_repeatStmt cond fun targets =>
        (list_emits stmts legal fun _ => List.cons_ne_nil targets loops).emits
  | forStmt control start limit body =>
      have legal : body.Legal true visible := legal
      exact emits_forStmt control start limit fun targets =>
        stmt_emits body legal fun _ => List.cons_ne_nil targets loops
  | forInStmt control setExpr body =>
      have legal : body.Legal true visible := legal
      exact emits_forInStmt control setExpr fun targets =>
        stmt_emits body legal fun _ => List.cons_ne_nil targets loops
  | withStmt records body =>
      have legal : body.Legal inLoop visible := legal
      exact emits_withStmt records (stmt_emits body legal inside)
  | caseStmt selector arms => exact emits_caseStmt selector (arms_emit arms legal inside)
  | gotoStmt label => exact emits_goto label
  | labeled label stmt => exact emits_labeled (stmt_emits stmt legal inside)
  | breakStmt =>
      obtain ⟨targets, outer, rfl⟩ := List.exists_cons_of_ne_nil (inside legal)
      exact emits_break targets outer
  | continueStmt =>
      obtain ⟨targets, outer, rfl⟩ := List.exists_cons_of_ne_nil (inside legal)
      exact emits_continue targets outer
  | exitStmt assign => exact emits_exit assign

theorem list_emits {inLoop : Bool} {visible : List Label} {loops : List LoopTargets}
    (stmts : StmtList σ) (legal : stmts.Legal inLoop visible)
    (inside : inLoop = true → loops ≠ []) :
    ListEmits loops stmts := by
  cases stmts with
  | nil => exact emits_nil
  | cons stmt rest =>
      exact emits_cons (stmt_emits stmt legal.1 inside) (list_emits rest legal.2 inside)

theorem arms_emit {inLoop : Bool} {visible : List Label} {loops : List LoopTargets}
    (arms : ArmList σ) (legal : arms.Legal inLoop visible) (inside : inLoop = true → loops ≠ []) :
    ArmsEmit loops arms := by
  cases arms with
  | otherwise stmt => exact emits_otherwise (stmt_emits stmt legal inside)
  | plang_err_no_case report => exact emits_noCase report
  | arm labels body rest =>
      exact emits_arm labels (stmt_emits body legal.1 inside) (arms_emit rest legal.2 inside)

end

end Plang.CodeGen.Statements
