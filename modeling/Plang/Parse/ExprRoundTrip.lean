import Plang.Parse.ExprParts

/-!
# The expression parser recovers expressions

An expression that is written with the parentheses it needs is read back, all of it and nothing
more, exactly where each first token is one that the parser does not take for something else and
nothing is selected from a substring of a plain name in Extended Pascal.
-/

namespace Plang.Expressions

open Fuel

variable {ctx : Context} (manner : Manner) {expr base : ExprNode} {good : Bool}

/-- The loop over selections goes on behind an expression. -/
def Context.goesOn (ctx : Context) (manner : Manner) (expr : ExprNode) (kind : TokenKind) : Bool :=
  follows kind ||
    (kind != .Identifier && ctx.selects manner kind expr &&
      !(ctx.opts.extendedPascal && expr.isIdent && kind == .LeftBracket))

/-- The loop over selections goes on behind an expression. -/
def Context.GoesOn (ctx : Context) (manner : Manner) (expr : ExprNode) (good : Bool) : Prop :=
  ∃ factors, manner.factorDepth 4 expr = factors + 1 ∧
    ctx.BaseReads (manner.write 4 expr) expr (ctx.goesOn manner expr) factors expr.valueDepth good

/-- An expression is returned whatever stands behind it. -/
def Context.Returned (ctx : Context) (manner : Manner) (expr : ExprNode) (good : Bool) : Prop :=
  ∃ factors, manner.factorDepth 4 expr = factors + 1 ∧
    Reads (fun fuel => ctx.currentFactor (ctx.parsers fuel)) follows (manner.write 4 expr) expr
      (fun _ => true) factors expr.valueDepth good

theorem Context.GoesOn.readBack (goes : ctx.GoesOn manner expr good) (level : expr.level = 4)
    (present : ctx.has manner .expression expr = true) : ctx.ReadBack manner expr good := by
  obtain ⟨factors, depth, reads⟩ := goes
  apply Context.ReadBack.of_factor manner present level
  rw [depth]
  exact (reads.body fun kind beyond => by rw [Context.goesOn, beyond, Bool.true_or]).factor

theorem Context.Returned.readBack (returned : ctx.Returned manner expr good)
    (level : expr.level = 4) (present : ctx.has manner .expression expr = true) :
    ctx.ReadBack manner expr good := by
  obtain ⟨factors, depth, reads⟩ := returned
  apply Context.ReadBack.of_factor manner present level
  rw [depth]
  have body : ctx.BodyReads (manner.write 4 expr) expr factors expr.valueDepth good :=
    fun state rest room _ => reads state rest room rfl
  exact body.factor

/-- An expression that the dialect has is read back if it is recovered, and not otherwise, and what
is selected from it is looked for where the parser does not stop. -/
structure Context.Recovery (ctx : Context) (manner : Manner) (expr : ExprNode) : Prop where
  whole : ctx.ReadsWhole manner expr
  goesOn : ctx.has manner .expression expr = true →
    ∀ kind, ctx.selects manner kind expr = true → ctx.stops expr = false →
      ctx.GoesOn manner expr (ctx.recovers manner .expression expr)
  returned : ctx.has manner .expression expr = true → ctx.stops expr = true →
    ctx.Returned manner expr (ctx.recovers manner .expression expr)

namespace Context.Recovery

/-- Nothing is selected from the expression. -/
theorem of_whole (whole : ctx.ReadsWhole manner expr)
    (unselected : ∀ kind, ctx.selects manner kind expr = false) (going : ctx.stops expr = false) :
    ctx.Recovery manner expr where
  whole := whole
  goesOn _ kind selects := by
    rw [unselected kind] at selects
    cases selects
  returned _ stops := by
    rw [going] at stops
    cases stops

theorem of_goesOn (level : expr.level = 4) (going : ctx.stops expr = false)
    (goes : ctx.has manner .expression expr = true →
      ctx.GoesOn manner expr (ctx.recovers manner .expression expr)) :
    ctx.Recovery manner expr where
  whole present := (goes present).readBack manner level present
  goesOn present _ _ _ := goes present
  returned _ stops := by
    rw [going] at stops
    cases stops

theorem of_returned (level : expr.level = 4) (stops : ctx.stops expr = true)
    (returned : ctx.has manner .expression expr = true →
      ctx.Returned manner expr (ctx.recovers manner .expression expr)) :
    ctx.Recovery manner expr where
  whole present := (returned present).readBack manner level present
  goesOn _ _ _ going := by
    rw [stops] at going
    cases going
  returned present _ := returned present

end Context.Recovery

/-! ### Selections -/

/-- A selection behind an expression: where the parser stops in front of it, it is left. -/
theorem goesOn_selected {kind : TokenKind} {selection : List Token} {before : TokenKind → Bool}
    {factors values : Nat} {fine : Bool} (recovery : ctx.Recovery manner base)
    (present : ctx.has manner .expression base = true)
    (selects : ctx.selects manner kind base = true)
    (listed : kind ∈ [.LeftBracket, .Dot, .Caret, .LeftParen])
    (unnamed : (ctx.opts.extendedPascal && base.isIdent && kind == .LeftBracket) = false)
    (written : manner.write 4 expr = manner.write 4 base ++ selection)
    (head : ∀ rest, headKind (selection ++ rest) = kind)
    (reads : ctx.Selection base selection expr before factors values fine)
    (beyond : ∀ kind, ctx.goesOn manner expr kind = true → before kind = true)
    (base_le : manner.factorDepth 4 base ≤ manner.factorDepth 4 expr)
    (factors_le : factors ≤ manner.factorDepth 4 expr - 1)
    (value_le : base.valueDepth ≤ expr.valueDepth) (values_le : values ≤ expr.valueDepth) :
    ctx.GoesOn manner expr
      (!ctx.stops base && (ctx.recovers manner .expression base && fine)) := by
  cases stops : ctx.stops base with
  | true =>
      obtain ⟨depth, depth_eq, returned⟩ := recovery.returned present stops
      refine ⟨manner.factorDepth 4 expr - 1, by omega, ?_⟩
      intro state rest last final sound room _ _
      have left := returned state (selection ++ rest) (room.weaken (by omega) value_le) rfl
      rw [written, List.append_assoc, Bool.not_true, Bool.false_and, Bool.false_and]
      apply left.all_lost
      refine .inr ⟨rfl, ?_, room.exprLimit, room.valueLimit⟩
      rw [kind_current_reading, head]
      revert listed
      cases kind <;> decide
  | false =>
      obtain ⟨depth, depth_eq, goes⟩ := recovery.goesOn present kind selects stops
      refine ⟨manner.factorDepth 4 expr - 1, by omega, ?_⟩
      rw [written, Bool.not_false, Bool.true_and]
      have whole := Context.BaseReads.select (goes.deepen (by omega) value_le)
        (reads.deepen factors_le values_le) fun rest => by
          have apart : kind ≠ .Identifier := by
            rintro rfl
            exact absurd listed (by decide)
          rw [head, Context.goesOn, selects, unnamed, bne_iff_ne.mpr apart]
          simp
      intro state rest last final sound room follow more
      exact whole state rest last final sound room (beyond _ follow) more

/-- Every smaller expression is recovered, as a component too. -/
def Context.RecoveryBelow (ctx : Context) (manner : Manner) (bound : Nat) : Prop :=
  ∀ part, sizeOf part < bound → ctx.Recovery manner part ∧ ctx.ReadsComponent manner part

theorem Context.RecoveryBelow.below {bound : Nat} (recovered : ctx.RecoveryBelow manner bound) :
    ctx.Below manner bound := fun part small =>
  ⟨(recovered part small).1.whole, (recovered part small).2⟩

/-- A name that the dialect has is no type where a bracket selects from it in Extended Pascal. -/
theorem plain_of_selects {name : Name} (present : ctx.has manner .expression (.ident name) = true)
    (selects : ctx.selects manner .LeftBracket (.ident name) = true)
    (extended : ctx.opts.extendedPascal = true) :
    ctx.hasName name = true ∧ ctx.namesAType name = false := by
  simp only [Context.has, Bool.decide_and, Bool.decide_or, Bool.and_eq_true, Bool.or_eq_true,
    decide_eq_true_eq] at present
  refine ⟨present.2.resolve_right fun wrong => Place.noConfusion wrong.1, ?_⟩
  simpa [Context.selects, extended] using selects

theorem depth_ident (name : Name) : manner.factorDepth 4 (.ident name) = 1 := by
  rw [Manner.factorDepth]

section Selections

variable {array index low high str record pointer receiver callee : ExprNode}
  {args : List ExprNode} {field method : Text}

theorem goesOn_index (below : ctx.RecoveryBelow manner (sizeOf (ExprNode.index array index)))
    (present : ctx.has manner .expression (.index array index) = true) :
    ctx.GoesOn manner (.index array index)
      (ctx.recovers manner .expression (.index array index)) := by
  have parts := present
  simp only [Context.has, Bool.decide_and, Bool.and_eq_true, decide_eq_true_eq] at parts
  obtain ⟨-, selects, array_present, index_present⟩ := parts
  have array_read := (below array (by simp +arith)).1
  have index_read := ((below index (by simp +arith)).1.whole index_present).expression
  have depth : manner.factorDepth 4 (.index array index) =
      max (manner.factorDepth 4 array) (manner.factorDepth 0 index + 1) := by
    rw [Manner.factorDepth]
  have values : (ExprNode.index array index).valueDepth =
      max array.valueDepth index.valueDepth := by rw [ExprNode.valueDepth]
  have written : manner.write 4 (.index array index) = manner.write 4 array ++
      (manner.token .LeftBracket ::
        (manner.write 0 index ++ [manner.token .RightBracket])) := by
    rw [Manner.write]
    rfl
  rw [Context.recovers]
  by_cases named : (ctx.opts.extendedPascal && array.isIdent) = true
  · rw [Bool.and_eq_true] at named
    obtain ⟨extended, ident⟩ := named
    cases array with
    | ident name =>
        obtain ⟨named, plain⟩ := plain_of_selects manner array_present selects extended
        have starts : ∀ rest, startsExpr (headKind (manner.write 0 index ++ rest)) = true :=
          fun rest => (starts_write manner 0 index .expression rest (by decide) index_present).1
        have read := base_index manner index_read.label starts named extended plain
          (not_range_of_has manner (by decide) index_present) (manner.spell .LeftBracket)
          (manner.spell .RightBracket)
        have recovered : (!ctx.stops (.ident name) &&
            (ctx.recovers manner .expression (.ident name) &&
              ctx.recovers manner .expression index)) =
            ctx.recovers manner .expression index := by
          rw [show ctx.recovers manner .expression (.ident name) = true by rw [Context.recovers]]
          rfl
        rw [depth_ident] at depth
        refine ⟨manner.factorDepth 0 index, by omega, ?_⟩
        rw [recovered, written, Manner.write]
        intro state rest last final fine room _ more
        exact read state rest last final fine (room.weaken (Nat.le_refl _) (by omega)) rfl more
    | _ => cases ident
  · apply goesOn_selected manner array_read array_present selects (by decide) _ written (fun _ => rfl)
      (selection_of_subscripts _ _ fun state rest room => index_read.subscript array _ room)
      (fun _ _ => rfl)
    · omega
    · omega
    · omega
    · omega
    · rw [Bool.not_eq_true] at named
      rw [named, Bool.false_and]

theorem goesOn_substring
    (below : ctx.RecoveryBelow manner (sizeOf (ExprNode.substring str low high)))
    (present : ctx.has manner .expression (.substring str low high) = true)
    (going : ctx.stops (.substring str low high) = false) :
    ctx.GoesOn manner (.substring str low high)
      (ctx.recovers manner .expression (.substring str low high)) := by
  have parts := present
  simp only [Context.has, Bool.decide_and, Bool.and_eq_true, decide_eq_true_eq] at parts
  obtain ⟨-, selects, str_present, low_present, high_present⟩ := parts
  have str_read := (below str (by simp +arith)).1
  have low_read := ((below low (by simp +arith)).1.whole low_present).expression
  have high_read := ((below high (by simp +arith)).1.whole high_present).expression
  have depth : manner.factorDepth 4 (.substring str low high) =
      max (manner.factorDepth 4 str)
        (max (manner.factorDepth 0 low) (manner.factorDepth 0 high) + 1) := by
    rw [Manner.factorDepth]
  have values : (ExprNode.substring str low high).valueDepth =
      max str.valueDepth (max low.valueDepth high.valueDepth) := by rw [ExprNode.valueDepth]
  have written : manner.write 4 (.substring str low high) = manner.write 4 str ++
      (manner.token .LeftBracket ::
        (manner.write 0 low ++ manner.token .DotDot :: manner.write 0 high ++
          [manner.token .RightBracket])) := by
    rw [Manner.write]
    rfl
  have selection : ctx.Selection str (manner.token .LeftBracket ::
      (manner.write 0 low ++ manner.token .DotDot :: manner.write 0 high ++
        [manner.token .RightBracket])) (.substring str low high) (fun _ => true)
      (max (manner.factorDepth 0 low) (manner.factorDepth 0 high))
      (max low.valueDepth high.valueDepth)
      (ctx.recovers manner .expression low && ctx.recovers manner .expression high) := by
    refine selection_of_subscripts _ _ fun state rest room => ?_
    rw [List.append_assoc, List.cons_append]
    exact Context.ExprReads.slice
      (low_read.deepen (Nat.le_max_left _ _) (Nat.le_max_left _ _))
      (high_read.deepen (Nat.le_max_right _ _) (Nat.le_max_right _ _)) str _ _ room
  rw [Context.recovers]
  apply goesOn_selected manner str_read str_present selects (by decide) _ written (fun _ => rfl) selection
    (fun _ _ => rfl)
  · omega
  · omega
  · omega
  · omega
  · cases str with
    | ident name => rw [show ctx.opts.extendedPascal = false from going]; rfl
    | _ => simp [ExprNode.isIdent]

/-- A substring of a plain name is returned in Extended Pascal. -/
theorem returned_substring
    (below : ctx.RecoveryBelow manner (sizeOf (ExprNode.substring str low high)))
    (present : ctx.has manner .expression (.substring str low high) = true)
    (stops : ctx.stops (.substring str low high) = true) :
    ctx.Returned manner (.substring str low high)
      (ctx.recovers manner .expression (.substring str low high)) := by
  have parts := present
  simp only [Context.has, Bool.decide_and, Bool.and_eq_true, decide_eq_true_eq] at parts
  obtain ⟨-, selects, str_present, low_present, high_present⟩ := parts
  cases str with
  | ident name =>
      have extended : ctx.opts.extendedPascal = true := stops
      obtain ⟨named, plain⟩ := plain_of_selects manner str_present selects extended
      have low_read := ((below low (by simp +arith)).1.whole low_present).expression
      have high_read := ((below high (by simp +arith)).1.whole high_present).expression
      have label : ctx.LabelReads (manner.write 0 (.setRange low high)) (.setRange low high)
          (max (manner.factorDepth 0 low) (manner.factorDepth 0 high))
          (max low.valueDepth high.valueDepth)
          (ctx.recovers manner .expression low && ctx.recovers manner .expression high) := by
        rw [Manner.write]
        exact Context.ExprReads.range
          (low_read.deepen (Nat.le_max_left _ _) (Nat.le_max_left _ _))
          (high_read.deepen (Nat.le_max_right _ _) (Nat.le_max_right _ _)) _
      have starts : ∀ rest,
          startsExpr (headKind (manner.write 0 (.setRange low high) ++ rest)) = true := by
        intro rest
        rw [Manner.write, List.append_assoc]
        exact (starts_write manner 0 low .expression _ (by decide) low_present).1
      have read := read_substring manner (manner.spell .LeftBracket) (manner.spell .RightBracket)
        label starts named extended plain
      have depth : manner.factorDepth 4 (.substring (.ident name) low high) =
          max (manner.factorDepth 0 low) (manner.factorDepth 0 high) + 1 := by
        rw [Manner.factorDepth, depth_ident]
        omega
      have values : (ExprNode.substring (.ident name) low high).valueDepth =
          max low.valueDepth high.valueDepth := by
        rw [ExprNode.valueDepth, ExprNode.valueDepth, Nat.zero_max]
      have written : manner.write 4 (.substring (.ident name) low high) = manner.name name ++
          manner.token .LeftBracket ::
            (manner.write 0 (.setRange low high) ++ [manner.token .RightBracket]) := by
        rw [Manner.write, Manner.write, Manner.write]
        rfl
      refine ⟨_, depth, ?_⟩
      rw [written, values, Context.recovers,
        show ctx.recovers manner .expression (.ident name) = true by rw [Context.recovers]]
      exact read
  | _ => cases stops

theorem goesOn_field (below : ctx.RecoveryBelow manner (sizeOf (ExprNode.field record field)))
    (present : ctx.has manner .expression (.field record field) = true) :
    ctx.GoesOn manner (.field record field)
      (ctx.recovers manner .expression (.field record field)) := by
  have parts := present
  simp only [Context.has, Bool.decide_and, Bool.and_eq_true, decide_eq_true_eq] at parts
  obtain ⟨-, selects, record_present⟩ := parts
  have written : manner.write 4 (.field record field) = manner.write 4 record ++
      [manner.token .Dot, ⟨.Identifier, field⟩] := by rw [Manner.write]
  have depth : manner.factorDepth 4 (.field record field) = manner.factorDepth 4 record := by
    rw [Manner.factorDepth]
  have values : (ExprNode.field record field).valueDepth = record.valueDepth := by
    rw [ExprNode.valueDepth]
  rw [Context.recovers, ← Bool.and_true (ctx.recovers manner .expression record)]
  apply goesOn_selected manner (below record (by simp +arith)).1 record_present selects (by decide) _ written
    (fun _ => rfl) (selection_field field _)
  · intro kind beyond
    rw [Context.goesOn, Bool.or_eq_true, Bool.and_eq_true] at beyond
    rcases beyond with beyond | ⟨selects, -⟩
    · revert beyond
      cases kind <;> decide
    · exact (Bool.and_eq_true_iff.mp selects).2
  · omega
  · omega
  · omega
  · omega
  · simp

theorem goesOn_deref (below : ctx.RecoveryBelow manner (sizeOf (ExprNode.deref pointer)))
    (present : ctx.has manner .expression (.deref pointer) = true) :
    ctx.GoesOn manner (.deref pointer) (ctx.recovers manner .expression (.deref pointer)) := by
  have parts := present
  simp only [Context.has, Bool.decide_and, Bool.and_eq_true, decide_eq_true_eq] at parts
  obtain ⟨-, selects, pointer_present⟩ := parts
  have written : manner.write 4 (.deref pointer) = manner.write 4 pointer ++
      [manner.token .Caret] := by rw [Manner.write]
  have depth : manner.factorDepth 4 (.deref pointer) = manner.factorDepth 4 pointer := by
    rw [Manner.factorDepth]
  have values : (ExprNode.deref pointer).valueDepth = pointer.valueDepth := by
    rw [ExprNode.valueDepth]
  rw [Context.recovers, ← Bool.and_true (ctx.recovers manner .expression pointer)]
  apply goesOn_selected manner (below pointer (by simp +arith)).1 pointer_present selects (by decide) _
    written (fun _ => rfl) (selection_deref _) (fun _ _ => rfl)
  · omega
  · omega
  · omega
  · omega
  · simp

theorem goesOn_methodCall
    (below : ctx.RecoveryBelow manner (sizeOf (ExprNode.methodCall receiver method args)))
    (present : ctx.has manner .expression (.methodCall receiver method args) = true) :
    ctx.GoesOn manner (.methodCall receiver method args)
      (ctx.recovers manner .expression (.methodCall receiver method args)) := by
  have parts := present
  simp only [Context.has, Bool.decide_and, Bool.and_eq_true, decide_eq_true_eq] at parts
  obtain ⟨-, selects, receiver_present, args_present⟩ := parts
  have smaller : sizeOf args ≤ sizeOf (ExprNode.methodCall receiver method args) := by simp +arith
  have each := arguments_each manner ((below.below manner).wholes manner smaller) args_present
  have depth : manner.factorDepth 4 (.methodCall receiver method args) =
      max (manner.factorDepth 4 receiver) (manner.factorDepths args + 1) := by
    rw [Manner.factorDepth]
  have values : (ExprNode.methodCall receiver method args).valueDepth =
      max receiver.valueDepth (valueDepths args) := by rw [ExprNode.valueDepth]
  have written : manner.write 4 (.methodCall receiver method args) = manner.write 4 receiver ++
      manner.token .Dot :: ⟨.Identifier, method⟩ ::
        manner.parens (manner.writeAll .Comma args) := by rw [Manner.write]
  rw [Context.recovers, recoversAll_eq_all]
  apply goesOn_selected manner (below receiver (by simp +arith)).1 receiver_present selects (by decide) _
    written (fun _ => rfl)
    (selection_methodCall manner each (arguments_start manner args_present) method) (fun _ _ => rfl)
  · omega
  · omega
  · omega
  · omega
  · simp

theorem goesOn_indirectCall
    (below : ctx.RecoveryBelow manner (sizeOf (ExprNode.indirectCall callee args)))
    (present : ctx.has manner .expression (.indirectCall callee args) = true) :
    ctx.GoesOn manner (.indirectCall callee args)
      (ctx.recovers manner .expression (.indirectCall callee args)) := by
  have parts := present
  simp only [Context.has, Bool.decide_and, Bool.and_eq_true, decide_eq_true_eq] at parts
  obtain ⟨-, selects, callee_present, args_present⟩ := parts
  have smaller : sizeOf args ≤ sizeOf (ExprNode.indirectCall callee args) := by simp +arith
  have each := arguments_each manner ((below.below manner).wholes manner smaller) args_present
  have depth : manner.factorDepth 4 (.indirectCall callee args) =
      max (manner.factorDepth 4 callee) (manner.factorDepths args + 1) := by
    rw [Manner.factorDepth]
  have values : (ExprNode.indirectCall callee args).valueDepth =
      max callee.valueDepth (valueDepths args) := by rw [ExprNode.valueDepth]
  have written : manner.write 4 (.indirectCall callee args) = manner.write 4 callee ++
      manner.parens (manner.writeAll .Comma args) := by rw [Manner.write]
  have other : callee.isIdent = false := by
    cases callee with
    | ident name => cases selects
    | _ => rfl
  rw [Context.recovers, recoversAll_eq_all]
  apply goesOn_selected manner (below callee (by simp +arith)).1 callee_present selects (by decide) _
    written (fun _ => rfl)
    (selection_indirectCall manner each (arguments_start manner args_present) other) (fun _ _ => rfl)
  · omega
  · omega
  · omega
  · omega
  · simp

end Selections

/-! ### Names, calls and conversions -/

section Names

variable {name : Name} {args elements arms : List ExprNode} {operand : ExprNode}

theorem goesOn_ident (present : ctx.has manner .expression (.ident name) = true) :
    ctx.GoesOn manner (.ident name) (ctx.recovers manner .expression (.ident name)) := by
  simp only [Context.has, Bool.decide_and, Bool.decide_or, Bool.and_eq_true, Bool.or_eq_true,
    decide_eq_true_eq] at present
  have named := present.2.resolve_right fun wrong => Place.noConfusion wrong.1
  refine ⟨0, depth_ident manner name, ?_⟩
  rw [Manner.write, Context.recovers]
  intro state rest last final fine room beyond more
  apply base_ident manner named state rest last final fine (room.weaken (Nat.le_refl _) (by simp)) _
    more
  rw [Context.goesOn, Bool.or_eq_true, Bool.and_eq_true] at beyond
  generalize headKind rest = kind at beyond
  rcases beyond with beyond | ⟨selects, bracket⟩
  · have apart : kind ≠ .LeftParen ∧ kind ≠ .LeftBracket ∧ kind ≠ .Dot := by
      revert beyond
      cases kind <;> decide
    simp [Context.endsName, apart]
  · replace selects := (Bool.and_eq_true_iff.mp selects).2
    have paren : kind ≠ .LeftParen := by
      rintro rfl
      cases selects
    by_cases dot : kind = .Dot
    · subst dot
      have ends : (name.module?.isSome || !ctx.qualifiedModules (toLower name.word)) = true :=
        selects
      simp [Context.endsName, ends]
    · simp only [ExprNode.isIdent, Bool.and_true] at bracket
      simp [Context.endsName, dot, paren]
      simpa using bracket

theorem goesOn_call (below : ctx.RecoveryBelow manner (sizeOf (ExprNode.call name args)))
    (present : ctx.has manner .expression (.call name args) = true) :
    ctx.GoesOn manner (.call name args) (ctx.recovers manner .expression (.call name args)) := by
  simp only [Context.has, Bool.decide_and, Bool.and_eq_true, decide_eq_true_eq] at present
  obtain ⟨-, named, uncast, args_present⟩ := present
  have smaller : sizeOf args ≤ sizeOf (ExprNode.call name args) := by simp +arith
  have read := callArguments_read manner (manner.spell .RightParen)
    ((below.below manner).wholes manner smaller) args_present
  refine ⟨manner.factorDepths args, by rw [Manner.factorDepth], ?_⟩
  rw [Manner.write, Context.recovers, ExprNode.valueDepth]
  intro state rest last final fine room _ more
  exact base_call manner named (by simpa using uncast) read state rest last final fine room rfl more

theorem goesOn_typeCast (below : ctx.RecoveryBelow manner (sizeOf (ExprNode.typeCast name operand)))
    (present : ctx.has manner .expression (.typeCast name operand) = true) :
    ctx.GoesOn manner (.typeCast name operand)
      (ctx.recovers manner .expression (.typeCast name operand)) := by
  simp only [Context.has, Bool.decide_and, Bool.decide_or, Bool.and_eq_true, Bool.or_eq_true,
    decide_eq_true_eq] at present
  obtain ⟨-, turbo, type, operand_present⟩ := present
  have read := ((below operand (by simp +arith)).1.whole operand_present).expression
  refine ⟨manner.factorDepth 0 operand, by rw [Manner.factorDepth], ?_⟩
  rw [Manner.write, Context.recovers, ExprNode.valueDepth]
  intro state rest last final fine room _ more
  rcases type with reserved | ⟨named, type⟩
  · exact base_cast_reserved manner reserved turbo read state rest last final fine room rfl more
  · exact base_cast manner named turbo type read state rest last final fine room rfl more

theorem goesOn_inheritedCall {method : Option Text}
    (below : ctx.RecoveryBelow manner (sizeOf (ExprNode.inheritedCall method args)))
    (present : ctx.has manner .expression (.inheritedCall method args) = true) :
    ctx.GoesOn manner (.inheritedCall method args)
      (ctx.recovers manner .expression (.inheritedCall method args)) := by
  simp only [Context.has, Bool.decide_and, Bool.and_eq_true, decide_eq_true_eq] at present
  obtain ⟨-, -, empty, args_present⟩ := present
  have smaller : sizeOf args ≤ sizeOf (ExprNode.inheritedCall method args) := by simp +arith
  have each := arguments_each manner ((below.below manner).wholes manner smaller) args_present
  refine ⟨manner.factorDepths args, by rw [Manner.factorDepth], ?_⟩
  rw [Context.recovers, ExprNode.valueDepth, recoversAll_eq_all]
  cases method with
  | none =>
      obtain rfl : args = [] := by simpa using empty
      rw [Manner.write]
      intro state rest last final fine room beyond more
      apply base_inherited _ state rest last final fine (room.weaken (Nat.zero_le _) (Nat.zero_le _)) _
        more
      revert beyond
      rw [Context.goesOn]
      generalize headKind rest = kind
      cases kind <;> simp [follows, endsLevel, isSelector]
  | some method =>
      rw [Manner.write]
      intro state rest last final fine room beyond more
      by_cases bare : args.isEmpty = true ∧ (!manner.emptyParens) = true
      · obtain rfl : args = [] := by simpa using bare.1
        rw [if_pos bare]
        apply base_inheritedCall_nil _ method state rest last final fine
          (room.weaken (Nat.zero_le _) (Nat.zero_le _)) _ more
        rw [bne_iff_ne]
        intro paren
        have plain : manner.emptyParens = false := by simpa using bare.2
        simp [Context.goesOn, paren, Context.selects, plain, follows, endsLevel, isSelector] at beyond
      · rw [if_neg bare]
        exact base_inheritedCall manner _ method each (arguments_start manner args_present) state rest
          last final fine room rfl more

/-- A set is read back with its elements. -/
theorem readBack_setLiteral {typeName : Option Name}
    (below : ctx.RecoveryBelow manner (sizeOf (ExprNode.setLiteral typeName elements)))
    (present : ctx.has manner .expression (.setLiteral typeName elements) = true) :
    ctx.ReadBack manner (.setLiteral typeName elements)
      (ctx.recovers manner .expression (.setLiteral typeName elements)) := by
  have whole := present
  have smaller : sizeOf elements ≤ sizeOf (ExprNode.setLiteral typeName elements) := by
    simp +arith
  have depth : manner.factorDepth 4 (.setLiteral typeName elements) =
      manner.factorDepths elements + 1 := by rw [Manner.factorDepth]
  have values : (ExprNode.setLiteral typeName elements).valueDepth = valueDepths elements := by
    rw [ExprNode.valueDepth]
  apply Context.ReadBack.of_factor manner whole rfl
  rw [depth, values, Context.recovers, recoversAll_eq_all, Manner.write]
  cases typeName with
  | none =>
      simp only [Context.has, Bool.decide_and, Bool.and_eq_true, decide_eq_true_eq] at present
      have each := labels_each manner ((below.below manner).wholes manner smaller) present.2.2
      have read := body_set manner each (labels_start manner present.2.2)
        (manner.spell .LeftBracket) (manner.spell .RightBracket)
      have body : ctx.BodyReads (manner.brackets .LeftBracket .RightBracket
          (manner.writeAll .Comma elements)) (.setLiteral none elements)
          (manner.factorDepths elements) (valueDepths elements)
          (elements.all (ctx.recovers manner .element)) := fun state rest room _ =>
        (read state rest room rfl).weaken fun _ lost => lost.of_any
      exact body.factor
  | some name =>
      simp only [Context.has, Bool.decide_and, Bool.and_eq_true, decide_eq_true_eq] at present
      obtain ⟨-, extended, named, typed, listed⟩ := present
      have each := labels_each manner ((below.below manner).wholes manner smaller) listed
      have read := read_typedSet manner each (labels_start manner listed) named extended
        (fun ne => by simpa [ne] using typed) (manner.spell .LeftBracket) (manner.spell .RightBracket)
      have body : ctx.BodyReads (manner.name name ++ manner.brackets .LeftBracket .RightBracket
          (manner.writeAll .Comma elements)) (.setLiteral (some name) elements)
          (manner.factorDepths elements) (valueDepths elements)
          (elements.all (ctx.recovers manner .element)) := fun state rest room _ =>
        read state rest room rfl
      exact body.factor

/-- A structured value without a type is not read as an expression. -/
theorem untypedValue_expression {labels : List ExprNode} {isOtherwise : Bool} {value : ExprNode}
    (below : ctx.Below manner (sizeOf (ExprNode.arm labels isOtherwise value)))
    (present : ctx.hasAll manner .arm .arm (.arm labels isOtherwise value :: arms) = true) :
    ctx.ExprReads (manner.write 0 (.structuredValue none (.arm labels isOtherwise value :: arms)))
      (.structuredValue none (.arm labels isOtherwise value :: arms))
      (manner.factorDepths (.arm labels isOtherwise value :: arms) + 1)
      (valueDepths (.arm labels isOtherwise value :: arms)) false := by
  rw [Context.hasAll, Bool.and_eq_true, Bool.and_eq_true, Bool.or_eq_true] at present
  obtain ⟨⟨first, -⟩, last⟩ := present
  obtain ⟨empty, listed, -⟩ := has_arm manner first
  have written : manner.write 0 (.structuredValue none (.arm labels isOtherwise value :: arms)) =
      manner.token .LeftBracket :: (manner.writeAll .Semicolon (.arm labels isOtherwise value :: arms)
        ++ [manner.token .RightBracket]) := by
    rw [Manner.write]
    rfl
  have body : ctx.BodyReads (manner.token .LeftBracket ::
      (manner.writeAll .Semicolon (.arm labels isOtherwise value :: arms) ++
        [manner.token .RightBracket]))
      (.structuredValue none (.arm labels isOtherwise value :: arms))
      (manner.factorDepths (.arm labels isOtherwise value :: arms))
      (valueDepths (.arm labels isOtherwise value :: arms)) false := by
    cases isOtherwise with
    | true =>
        obtain rfl : arms = [] := by simpa [ExprNode.isCompleter] using last
        exact (body_untypedCompleter manner _ _).deepen (Nat.zero_le _) (Nat.zero_le _)
    | false =>
        have ne : labels ≠ [] := by
          rintro rfl
          cases empty
        have smaller : sizeOf labels ≤ sizeOf (ExprNode.arm labels false value) := by simp +arith
        have each := labels_each manner (below.wholes manner smaller) listed
        refine (body_untypedLabelled manner _ _ each (labels_start manner listed) ne).deepen ?_ ?_
        · rw [Manner.factorDepths, factorDepth_arm]
          omega
        · rw [valueDepths, ExprNode.valueDepth]
          omega
  rw [written]
  exact (body.factor.power.term.simple
    (fun _ => ⟨TokenKind.noConfusion, TokenKind.noConfusion⟩)).expression

/-- The value of a completer with no arm in front of it is read as an expression. -/
theorem onlyComponent_read {value : ExprNode} (below : ctx.RecoveryBelow manner (sizeOf value + 1))
    (present : ctx.has manner .onlyComponent value = true) :
    ctx.ExprReads (manner.write 0 value) value (manner.factorDepth 0 value) value.valueDepth
      (manner.opens value .onlyComponent && ctx.recovers manner .onlyComponent value) := by
  by_cases untyped : value.isUntypedValue = true
  · have opened : manner.opens value .onlyComponent = false := by
      rw [Manner.opens, untyped, Bool.not_true]
    rw [opened, Bool.false_and]
    cases value with
    | structuredValue typeName arms =>
        cases typeName with
        | some typeName => cases untyped
        | none =>
            simp only [Context.has, Bool.decide_and, Bool.decide_or, Bool.and_eq_true,
              Bool.or_eq_true, decide_eq_true_eq] at present
            obtain ⟨ne, arms_present⟩ := present
            cases arms with
            | nil => simp at ne
            | cons arm arms =>
                have first := arms_present
                rw [Context.hasAll, Bool.and_eq_true, Bool.and_eq_true] at first
                rw [Manner.factorDepth, ExprNode.valueDepth]
                cases arm with
                | arm labels isOtherwise value =>
                    apply untypedValue_expression manner _ arms_present
                    intro part small
                    exact (below.below manner) part (Nat.lt_trans small (by simp +arith))
                | setLiteral typeName elements =>
                    cases typeName <;> simp [Context.has] at first
                | structuredValue typeName arms =>
                    cases typeName <;> simp [Context.has] at first
                | _ => simp [Context.has] at first
    | _ => cases untyped
  · have opened : manner.opens value .onlyComponent = true := by
      rw [Manner.opens]
      simpa using untyped
    have whole := has_expression manner (by decide) (not_range_of_has manner (by decide) present)
      (by simpa using untyped) Place.noConfusion present
    rw [opened, Bool.true_and,
      recovers_eq manner .onlyComponent .expression (not_arm_of_has manner (by decide) present)]
    exact ((below value (Nat.lt_succ_self _)).1.whole whole).expression

/-- The depth of a structured value with a completer only. -/
theorem depth_onlyCompleter (name : Name) (value : ExprNode) :
    manner.factorDepth 4 (.structuredValue (some name) [.arm [] true value]) =
        manner.factorDepth 0 value + 1 ∧
      (ExprNode.structuredValue (some name) [.arm [] true value]).valueDepth = value.valueDepth := by
  have bracketed : value.isBracketed = true → 1 ≤ manner.factorDepth 0 value := by
    intro bracketed
    cases value with
    | setLiteral typeName elements => rw [Manner.factorDepth]; omega
    | structuredValue typeName arms =>
        cases typeName with
        | none => rw [Manner.factorDepth]; omega
        | some typeName => cases bracketed
    | _ => cases bracketed
  constructor
  · by_cases listed : value.isBracketed = true
    · have one := bracketed listed
      simp only [Manner.factorDepth, Manner.factorDepths, onlyCompleter, Option.any_some, listed,
        if_true]
      omega
    · simp only [Manner.factorDepth, Manner.factorDepths, onlyCompleter, Option.any_some, listed,
        Bool.false_eq_true, if_false]
      omega
  · simp only [ExprNode.valueDepth, valueDepths, onlyCompleter, Option.isSome_some, if_true]
    omega

theorem goesOn_structuredValue
    (below : ctx.RecoveryBelow manner (sizeOf (ExprNode.structuredValue (some name) arms)))
    (present : ctx.has manner .expression (.structuredValue (some name) arms) = true) :
    ctx.GoesOn manner (.structuredValue (some name) arms)
      (ctx.recovers manner .expression (.structuredValue (some name) arms)) := by
  simp only [Context.has, Bool.decide_and, Bool.and_eq_true, decide_eq_true_eq] at present
  obtain ⟨-, extended, named, ne, listed⟩ := present
  cases arms with
  | nil => simp at ne
  | cons arm arms =>
      rw [Context.hasAll, Bool.and_eq_true, Bool.and_eq_true, Bool.or_eq_true] at listed
      obtain ⟨⟨first, others⟩, last⟩ := listed
      rw [Context.recovers, Context.recoversAll, recoversAll_eq_all]
      have written : manner.write 4 (.structuredValue (some name) (arm :: arms)) =
          manner.name name ++ manner.token .LeftBracket ::
            (manner.writeAll .Semicolon (arm :: arms) ++ [manner.token .RightBracket]) := by
        rw [Manner.write]
        rfl
      cases arm with
      | arm labels isOtherwise value =>
          simp only [Context.has, Bool.decide_and, Bool.and_eq_true, decide_eq_true_eq] at first
          obtain ⟨-, empty, labels_present, value_present⟩ := first
          rw [Context.recovers]
          cases isOtherwise with
          | true =>
              obtain rfl : arms = [] := by simpa [ExprNode.isCompleter] using last
              obtain rfl : labels = [] := by simpa using empty
              have value_read := onlyComponent_read manner
                (fun part small => below part (Nat.lt_of_lt_of_le small (by simp +arith)))
                value_present
              obtain ⟨depth, values⟩ := depth_onlyCompleter manner name value
              have starts : ∀ rest,
                  startsExpr (headKind (manner.write 0 value ++ rest)) = true := fun rest =>
                (starts_write manner 0 value .onlyComponent rest (by decide) value_present).1
              refine ⟨_, depth, ?_⟩
              rw [written, values, List.all_nil, Bool.and_true]
              intro state rest last final fine room _ more
              exact base_completer manner extended named _ _ value_read starts state rest last final
                fine room rfl more
          | false =>
              have ne : labels ≠ [] := by
                rintro rfl
                cases empty
              have smaller : sizeOf labels ≤ sizeOf (ExprNode.structuredValue (some name)
                (.arm labels false value :: arms)) := by simp +arith
              have labels_read := labels_each manner ((below.below manner).wholes manner smaller)
                labels_present
              have value_read := (below value (by simp +arith)).2 value_present
              have others_read := arms_each manner others fun part small =>
                (below.below manner) part (Nat.lt_trans small (by simp +arith))
              have depth : manner.factorDepth 4 (.structuredValue (some name)
                  (.arm labels false value :: arms)) =
                  max (max (manner.factorDepths labels) (componentDepth manner value))
                    (manner.factorDepths arms) + 1 := by
                rw [Manner.factorDepth, Manner.factorDepths, factorDepth_arm]
                simp [onlyCompleter]
              have values : (ExprNode.structuredValue (some name)
                  (.arm labels false value :: arms)).valueDepth =
                  max (max (valueDepths labels) (value.valueDepth + 1)) (valueDepths arms) := by
                rw [ExprNode.valueDepth, valueDepths, ExprNode.valueDepth]
                simp [onlyCompleter]
              have read := base_labelled manner
                (fun label member => (labels_read label member).deepen
                  (Nat.le_trans (Nat.le_max_left _ _) (Nat.le_max_left _ _))
                  (Nat.le_trans (Nat.le_max_left _ _) (Nat.le_max_left _ _)))
                (labels_start manner labels_present) ne
                (value_read.deepen (Nat.le_trans (Nat.le_max_right _ _) (Nat.le_max_left _ _))
                  (Nat.le_trans (Nat.le_max_right _ _) (Nat.le_max_left _ _)))
                others (fun arm member => (others_read arm member).deepen manner
                  (Nat.le_max_right _ _) (Nat.le_max_right _ _))
                extended named (manner.spell .LeftBracket) (manner.spell .RightBracket)
              refine ⟨_, depth, ?_⟩
              rw [written, values]
              intro state rest last final fine room _ more
              have whole := read state rest last final fine room rfl more
              rw [recoversAll_eq_all, Bool.and_assoc (List.all _ _)]
              exact whole
      | setLiteral typeName elements => cases typeName <;> simp [Context.has] at first
      | structuredValue typeName arms => cases typeName <;> simp [Context.has] at first
      | _ => simp [Context.has] at first

end Names

/-! ### Every expression -/

section Simple

variable {token : Token}

/-- A factor of one token. -/
theorem readBack_token (level : expr.level = 4)
    (present : ctx.has manner .expression expr = true) (written : manner.write 4 expr = [token])
    (depth : manner.factorDepth 4 expr = 1) (values : expr.valueDepth = 0)
    (recovered : ctx.recovers manner .expression expr = true)
    (reads : ctx.BodyReads [token] expr 0 0 true) :
    ctx.ReadBack manner expr (ctx.recovers manner .expression expr) := by
  apply Context.ReadBack.of_factor manner present level
  rw [written, depth, values, recovered]
  exact reads.factor

theorem body_boolLit (value : Bool) :
    ctx.BodyReads [manner.token (if value then .True else .False)] (.boolLit value) 0 0 true := by
  cases value <;> exact body_of_token fun _ _ _ => rfl

end Simple

/-- What the dialect does not have as an expression. -/
theorem recovery_of_absent (absent : ctx.has manner .expression expr = false)
    (going : ctx.stops expr = false) : ctx.Recovery manner expr where
  whole present := by
    rw [absent] at present
    cases present
  goesOn present := by
    rw [absent] at present
    cases present
  returned _ stops := by
    rw [going] at stops
    cases stops

/-- An expression whose parts are recovered is. -/
theorem recovery_of_below (below : ctx.RecoveryBelow manner (sizeOf expr)) :
    ctx.Recovery manner expr := by
  cases expr with
  | intLit node =>
      refine .of_whole manner (fun present => ?_) (fun _ => rfl) rfl
      have parts := present
      simp only [Context.has, Bool.decide_and, Bool.and_eq_true, decide_eq_true_eq] at parts
      exact readBack_token manner rfl present (by rw [Manner.write]) (by rw [Manner.factorDepth])
        (by rw [ExprNode.valueDepth]) (by rw [Context.recovers]) (body_intLit parts.2.1 parts.2.2)
  | realLit lexeme =>
      refine .of_whole manner (fun present => ?_) (fun _ => rfl) rfl
      have parts := present
      simp only [Context.has, Bool.decide_and, Bool.and_eq_true, decide_eq_true_eq] at parts
      exact readBack_token manner rfl present (by rw [Manner.write]) (by rw [Manner.factorDepth])
        (by rw [ExprNode.valueDepth]) (by rw [Context.recovers]) (body_realLit (by simpa using parts.2))
  | stringLit value =>
      exact .of_whole manner (fun present => readBack_token manner rfl present
        (by rw [Manner.write]) (by rw [Manner.factorDepth]) (by rw [ExprNode.valueDepth])
        (by rw [Context.recovers]) (body_of_token fun _ _ _ => rfl)) (fun _ => rfl) rfl
  | nil =>
      exact .of_whole manner (fun present => readBack_token manner rfl present
        (by rw [Manner.write]) (by rw [Manner.factorDepth]) (by rw [ExprNode.valueDepth])
        (by rw [Context.recovers]) (body_of_token fun _ _ _ => rfl)) (fun _ => rfl) rfl
  | boolLit value =>
      exact .of_whole manner (fun present => readBack_token manner rfl present
        (by rw [Manner.write]) (by rw [Manner.factorDepth]) (by rw [ExprNode.valueDepth])
        (by rw [Context.recovers]) (body_boolLit manner value)) (fun _ => rfl) rfl
  | ident name => exact .of_goesOn manner rfl rfl (goesOn_ident manner)
  | unary op operand =>
      refine .of_whole manner (fun present => ?_) (fun _ => rfl) rfl
      have parts := present
      simp only [Context.has, Bool.decide_and, Bool.and_eq_true, decide_eq_true_eq] at parts
      rw [Context.recovers]
      exact readBack_unary manner present ((below operand (by simp +arith)).1.whole parts.2.2)
  | binary op left right =>
      refine .of_whole manner (fun present => ?_) (fun _ => rfl) rfl
      have parts := present
      simp only [Context.has, Bool.decide_and, Bool.and_eq_true, decide_eq_true_eq] at parts
      rw [Context.recovers]
      exact readBack_binary manner present ((below left (by simp +arith)).1.whole parts.2.2.1)
        ((below right (by simp +arith)).1.whole parts.2.2.2)
  | index array index => exact .of_goesOn manner rfl rfl (goesOn_index manner below)
  | field record field => exact .of_goesOn manner rfl rfl (goesOn_field manner below)
  | deref pointer => exact .of_goesOn manner rfl rfl (goesOn_deref manner below)
  | substring str low high =>
      cases stops : ctx.stops (.substring str low high) with
      | true =>
          exact .of_returned manner rfl stops fun present =>
            returned_substring manner below present stops
      | false =>
          exact .of_goesOn manner rfl stops fun present =>
            goesOn_substring manner below present stops
  | call name args => exact .of_goesOn manner rfl rfl (goesOn_call manner below)
  | methodCall receiver method args => exact .of_goesOn manner rfl rfl (goesOn_methodCall manner below)
  | indirectCall callee args => exact .of_goesOn manner rfl rfl (goesOn_indirectCall manner below)
  | inheritedCall method args =>
      exact .of_goesOn manner rfl rfl (goesOn_inheritedCall manner below)
  | typeCast typeName operand => exact .of_goesOn manner rfl rfl (goesOn_typeCast manner below)
  | setLiteral typeName elements =>
      exact .of_whole manner (readBack_setLiteral manner below) (fun _ => rfl) rfl
  | setRange low high =>
      exact recovery_of_absent manner (by simp [Context.has]) rfl
  | structuredValue typeName arms =>
      cases typeName with
      | none => exact recovery_of_absent manner (by simp [Context.has]) rfl
      | some name => exact .of_goesOn manner rfl rfl (goesOn_structuredValue manner below)
  | arm labels isOtherwise value =>
      exact recovery_of_absent manner (by simp [Context.has]) rfl

/-- Every expression is recovered, by induction on its size. -/
theorem recovery (expr : ExprNode) : ctx.Recovery manner expr ∧ ctx.ReadsComponent manner expr := by
  induction size : sizeOf expr using Nat.strong_induction_on generalizing expr with
  | _ n induction =>
      subst size
      have below : ctx.RecoveryBelow manner (sizeOf expr) := fun part small =>
        induction (sizeOf part) small part rfl
      have recovery := recovery_of_below manner below
      exact ⟨recovery, component_read manner recovery.whole (below.below manner)⟩

theorem not_lost_of_endsLevel {state : ParserState} {rest : List Token}
    (ends : endsLevel 0 (headKind rest) = true) :
    ¬ Lost follows state.errors.length (state.reading rest) := by
  rintro (grown | stuck)
  · exact absurd grown (Nat.lt_irrefl _)
  · have beyond : follows (headKind rest) = true := endsLevel_mono (Nat.zero_le 4) ends
    rw [← kind_current_reading, stuck.gone] at beyond
    cases beyond

/-- What is written of an expression is read back as the expression, all of it and nothing more,
without a report, exactly where the expression is recovered. -/
theorem parseExpression_write (ctx : Context) (manner : Manner) (expr : ExprNode)
    (present : ctx.has manner .expression expr = true) (state : ParserState) (rest : List Token)
    (room : Room (manner.factorDepth 0 expr) expr.valueDepth state)
    (ends : endsLevel 0 (headKind rest) = true) :
    (∃ enough, ∀ fuel, enough ≤ fuel →
      (ctx.parsers fuel).parseExpression (state.reading (manner.write 0 expr ++ rest)) =
        some (expr, state.reading rest)) ↔ ctx.recovers manner .expression expr = true :=
  (((recovery manner expr).1.whole present).expression state rest room ends).iff
    (not_lost_of_endsLevel ends)

/-! ### Two expressions -/

/-- Tokens without a text, and operators in two words. -/
def plainManner : Manner where
  spell _ := []
  twoWords := true
  chained := false
  emptyParens := false

/-- A dialect without a name of a module, a type or a variable. -/
def dialect (std : Standard) : Context where
  opts := { std }
  qualifiedModules _ := false
  typeNames _ := false
  varNames _ := false
  realOutOfRange _ := false

def startState : ParserState where
  tokens := []
  errors := []
  exprDepth := 0
  exprDepthLimitHit := false
  valueDepth := 0
  valueDepthLimitHit := false

def plainIdent (word : String) : ExprNode := .ident ⟨none, word.toList⟩

/-- `(p or else q) and then f(x)^.b[-i]` -/
def conjunction : ExprNode :=
  .binary .AndThen (.binary .OrElse (plainIdent "p") (plainIdent "q"))
    (.index (.field (.deref (.call ⟨none, "f".toList⟩ [plainIdent "x"])) "b".toList)
      (.unary .Minus (plainIdent "i")))

/-- `sizeof(Integer(x))` -/
def sizeOfConversion : ExprNode :=
  .call ⟨none, "sizeof".toList⟩ [.typeCast ⟨none, "Integer".toList⟩ (plainIdent "x")]

theorem parseExpression_conjunction : ∃ enough, ∀ fuel, enough ≤ fuel →
    ((dialect .ISO10206).parsers fuel).parseExpression
      (startState.reading (plainManner.write 0 conjunction ++ [])) =
        some (conjunction, startState.reading []) :=
  (parseExpression_write (dialect .ISO10206) plainManner conjunction (by decide) startState []
    ⟨by decide, by decide, rfl, rfl⟩ (by decide)).mpr (by decide)

/-- Behind `sizeof` a reserved type is taken for the argument, and the parenthesis is left. -/
theorem parseExpression_sizeOfConversion : ¬ ∀ (ctx : Context) (manner : Manner) (expr : ExprNode)
    (state : ParserState) (rest : List Token), ctx.has manner .expression expr = true →
    Room (manner.factorDepth 0 expr) expr.valueDepth state → endsLevel 0 (headKind rest) = true →
    ∃ enough, ∀ fuel, enough ≤ fuel →
      (ctx.parsers fuel).parseExpression (state.reading (manner.write 0 expr ++ rest)) =
        some (expr, state.reading rest) := by
  intro recovered
  have present : (dialect .Turbo).has plainManner .expression sizeOfConversion = true := by decide
  have room : Room (plainManner.factorDepth 0 sizeOfConversion) sizeOfConversion.valueDepth
      startState := ⟨by decide, by decide, rfl, rfl⟩
  have ends := ((recovery plainManner sizeOfConversion).1.whole present).expression startState []
    room (by decide)
  have good := (ends.iff (not_lost_of_endsLevel (by decide))).mp
    (recovered (dialect .Turbo) plainManner sizeOfConversion startState [] present room (by decide))
  exact absurd good (by decide)

end Plang.Expressions
