import Plang.Parse.ExprLevels

/-!
# The parts of an expression

Arguments, labels, components and arms are read as they are written where the expressions in them
are.
-/

namespace Plang.Expressions

open Fuel

variable {ctx : Context} (manner : Manner) {expr : ExprNode} {exprs : List ExprNode} {name : Name}

/-! ### Lists -/

theorem factorDepth_le_of_mem (listed : expr ∈ exprs) :
    manner.factorDepth 0 expr ≤ manner.factorDepths exprs := by
  induction exprs with
  | nil => cases listed
  | cons first exprs induction =>
      rw [Manner.factorDepths]
      rcases List.mem_cons.mp listed with rfl | listed
      · exact Nat.le_max_left _ _
      · exact Nat.le_trans (induction listed) (Nat.le_max_right _ _)

theorem valueDepth_le_of_mem (listed : expr ∈ exprs) : expr.valueDepth ≤ valueDepths exprs := by
  induction exprs with
  | nil => cases listed
  | cons first exprs induction =>
      rw [valueDepths]
      rcases List.mem_cons.mp listed with rfl | listed
      · exact Nat.le_max_left _ _
      · exact Nat.le_trans (induction listed) (Nat.le_max_right _ _)

theorem has_of_mem {place : Place} (present : ctx.hasAll manner place place exprs = true)
    (listed : expr ∈ exprs) : ctx.has manner place expr = true := by
  induction exprs with
  | nil => cases listed
  | cons first exprs induction =>
      rw [Context.hasAll, Bool.and_eq_true, Bool.and_eq_true] at present
      rcases List.mem_cons.mp listed with rfl | listed
      · exact present.1.1
      · exact induction present.1.2 listed

/-- Each of several expressions at the same place is recovered. -/
theorem recoversAll_eq_all (place : Place) : ctx.recoversAll manner place place exprs =
    exprs.all fun expr => manner.opens expr place && ctx.recovers manner place expr := by
  induction exprs with
  | nil => rfl
  | cons first exprs induction =>
      rw [Context.recoversAll, List.all_cons, induction, Bool.and_assoc]

/-- Only an arm depends on its place. -/
theorem recovers_eq (place other : Place) (single : ∀ labels isOtherwise value,
    expr ≠ .arm labels isOtherwise value) :
    ctx.recovers manner place expr = ctx.recovers manner other expr := by
  cases expr with
  | arm labels isOtherwise value => exact absurd rfl (single labels isOtherwise value)
  | structuredValue typeName arms => cases typeName <;> rw [Context.recovers, Context.recovers]
  | _ => rw [Context.recovers, Context.recovers]

/-- What the dialect has at another place than that of an arm is none. -/
theorem not_arm_of_has {place : Place} (whole : place ∉ [Place.arm, .firstArm])
    (present : ctx.has manner place expr = true) :
    ∀ labels isOtherwise value, expr ≠ .arm labels isOtherwise value := by
  rintro labels isOtherwise value rfl
  simp only [Context.has, Bool.decide_and, Bool.and_eq_true, decide_eq_true_eq] at present
  exact whole present.1

theorem write_ne_nil {place : Place} (whole : place ∉ [Place.element, .arm, .firstArm])
    (present : ctx.has manner place expr = true) : manner.write 0 expr ≠ [] := by
  intro empty
  have starts := (starts_write manner 0 expr place [] whole present).1
  rw [empty] at starts
  cases starts

/-! ### What is read of a smaller expression -/

/-- Where the dialect has an expression, it is read back if it is recovered, and not otherwise. -/
def Context.ReadsWhole (ctx : Context) (manner : Manner) (expr : ExprNode) : Prop :=
  ctx.has manner .expression expr = true →
    ctx.ReadBack manner expr (ctx.recovers manner .expression expr)

/-- How many activations of `parseFactor` a component needs at once. -/
def componentDepth (manner : Manner) (expr : ExprNode) : Nat :=
  manner.factorDepth 0 expr - (if expr.isBracketed then 1 else 0)

/-- A component of a structured value is read back. -/
def Context.ReadsComponent (ctx : Context) (manner : Manner) (expr : ExprNode) : Prop :=
  ctx.has manner .component expr = true →
    ctx.ComponentReads (manner.write 0 expr) expr (componentDepth manner expr) (expr.valueDepth + 1)
      (manner.opens expr .component && ctx.recovers manner .component expr)

/-- Labels and elements may be ranges. -/
theorem label_read (present : ctx.has manner .element expr = true)
    (below : ∀ part, sizeOf part ≤ sizeOf expr → ctx.ReadsWhole manner part) :
    ctx.LabelReads (manner.write 0 expr) expr (manner.factorDepth 0 expr) expr.valueDepth
      (ctx.recovers manner .element expr) := by
  by_cases range : ∃ low high, expr = .setRange low high
  · obtain ⟨low, high, rfl⟩ := range
    simp only [Context.has, Bool.decide_and, Bool.and_eq_true, decide_eq_true_eq] at present
    have first := (below low (by simp +arith) present.2.1).expression
    have second := (below high (by simp +arith) present.2.2).expression
    rw [Manner.write, Manner.factorDepth, ExprNode.valueDepth, Context.recovers]
    exact Context.ExprReads.range (first.deepen (Nat.le_max_left _ _) (Nat.le_max_left _ _))
      (second.deepen (Nat.le_max_right _ _) (Nat.le_max_right _ _)) _
  · have single : ∀ low high, expr ≠ .setRange low high := fun low high same =>
      range ⟨low, high, same⟩
    have typed := typed_of_has manner (by decide) present
    have whole := has_expression manner (by decide) single typed Place.noConfusion present
    rw [recovers_eq manner .element .expression (not_arm_of_has manner (by decide) present)]
    exact (below expr (Nat.le_refl _) whole).expression.label

section Below

variable (below : ∀ expr ∈ exprs, ∀ part, sizeOf part ≤ sizeOf expr → ctx.ReadsWhole manner part)

include below

theorem labels_each (present : ctx.hasAll manner .element .element exprs = true) :
    ∀ expr ∈ exprs, ctx.LabelReads (manner.write 0 expr) expr (manner.factorDepths exprs)
      (valueDepths exprs) (ctx.recovers manner .element expr) := fun expr listed =>
  (label_read manner (has_of_mem manner present listed) (below expr listed)).deepen
    (factorDepth_le_of_mem manner listed) (valueDepth_le_of_mem listed)

theorem arguments_each (present : ctx.hasAll manner .expression .expression exprs = true) :
    ∀ expr ∈ exprs, ctx.ExprReads (manner.write 0 expr) expr (manner.factorDepths exprs)
      (valueDepths exprs) (ctx.recovers manner .expression expr) := fun expr listed =>
  (below expr listed expr (Nat.le_refl _) (has_of_mem manner present listed)).expression.deepen
    (factorDepth_le_of_mem manner listed) (valueDepth_le_of_mem listed)

omit below in
theorem labels_start (present : ctx.hasAll manner .element .element exprs = true) :
    ∀ expr ∈ exprs, ∀ rest, startsExpr (headKind (manner.write 0 expr ++ rest)) = true :=
  fun expr listed rest => starts_element manner expr rest (has_of_mem manner present listed)

omit below in
theorem arguments_start (present : ctx.hasAll manner .expression .expression exprs = true) :
    ∀ expr ∈ exprs, ∀ rest, startsExpr (headKind (manner.write 0 expr ++ rest)) = true :=
  fun expr listed rest =>
    (starts_write manner 0 expr .expression rest (by decide) (has_of_mem manner present listed)).1

end Below

/-! ### Arguments of calls by name -/

/-- The first argument of a call that takes a type. -/
theorem sizeArgument_read (present : ctx.has manner .sizeArgument expr = true)
    (taken : Context.takesType name = true) (reads : ctx.ReadsWhole manner expr) :
    ctx.SizeReads name (manner.write 0 expr) expr (manner.factorDepth 0 expr) expr.valueDepth
      (manner.opens expr .sizeArgument && ctx.recovers manner .sizeArgument expr) := by
  rw [recovers_eq manner .sizeArgument .expression (not_arm_of_has manner (by decide) present)]
  by_cases reserved : ∃ arg, expr = .ident arg ∧ Context.isReservedType arg = true
  · obtain ⟨arg, rfl, reserved⟩ := reserved
    rw [Manner.write]
    exact (sizeArgument_reserved manner taken reserved).deepen (Nat.zero_le _) (Nat.zero_le _)
  · have whole : ctx.has manner .expression expr = true ∧
        (expr.isIdent = true → isTypeKeyword (headKind (manner.write 0 expr)) = false) := by
      by_cases ident : ∃ arg, expr = .ident arg
      · obtain ⟨arg, rfl⟩ := ident
        simp only [Context.has, Bool.decide_and, Bool.decide_or, Bool.and_eq_true, Bool.or_eq_true,
          decide_eq_true_eq] at present ⊢
        have named := present.2.resolve_right fun other => reserved ⟨arg, rfl, other.2⟩
        have head := headKind_name manner named []
        rw [List.append_nil] at head
        rw [Manner.write, head]
        exact ⟨⟨by decide, .inl named⟩, fun _ => rfl⟩
      · have other : expr.isIdent = false := by
          cases expr with
          | ident arg => exact absurd ⟨arg, rfl⟩ ident
          | _ => rfl
        exact ⟨has_expression manner (by decide) (not_range_of_has manner (by decide) present)
          (typed_of_has manner (by decide) present) (fun _ => other) present, fun wrong => by
            rw [other] at wrong
            cases wrong⟩
    obtain ⟨whole, named⟩ := whole
    have ne := write_ne_nil manner (by decide) whole
    cases keyword : isTypeKeyword (headKind (manner.write 0 expr)) with
    | false =>
        have opened : manner.opens expr .sizeArgument = true := by
          rw [Manner.opens, keyword, Bool.not_false, Bool.or_true]
        rw [opened, Bool.true_and]
        exact (reads whole).expression.sizeArgument fun rest _ => by
          rw [headKind_append rest ne, keyword]
    | true =>
        have opened : manner.opens expr .sizeArgument = false := by
          rw [Manner.opens, keyword, Bool.not_true, Bool.or_false]
          by_contra ident
          rw [named (by simpa using ident)] at keyword
          cases keyword
        obtain ⟨token, tail, written⟩ := paren_behind_keyword manner 0 expr [] whole
          (by rw [List.append_nil, keyword])
        rw [opened, Bool.false_and, written]
        rw [written] at keyword
        exact sizeArgument_cast taken keyword

/-- The arguments of a call by name. -/
theorem callArguments_read (text : Text)
    (below : ∀ expr ∈ exprs, ∀ part, sizeOf part ≤ sizeOf expr → ctx.ReadsWhole manner part)
    (present : ctx.hasAll manner (if Context.takesType name then .sizeArgument else .expression)
      .expression exprs = true) :
    ctx.CallReads name (manner.writeAll .Comma exprs ++ [⟨.RightParen, text⟩]) exprs
      (manner.factorDepths exprs) (valueDepths exprs)
      (ctx.recoversAll manner (if Context.takesType name then .sizeArgument else .expression)
        .expression exprs) := by
  cases exprs with
  | nil =>
      rw [Manner.writeAll, List.nil_append, Context.recoversAll]
      exact (callArguments_nil text).deepen (Nat.zero_le _) (Nat.zero_le _)
  | cons arg args =>
      rw [Context.hasAll, Bool.and_eq_true, Bool.and_eq_true] at present
      obtain ⟨⟨first, others⟩, -⟩ := present
      rw [Context.recoversAll, recoversAll_eq_all, ← Bool.and_assoc, Manner.factorDepths, valueDepths]
      have each := arguments_each manner
        (fun expr listed => below expr (List.mem_cons_of_mem _ listed)) others
      have starts : ∀ rest, startsExpr (headKind (manner.write 0 arg ++ rest)) = true := fun rest =>
        (starts_write manner 0 arg _ rest (by split <;> decide) first).1
      have reads : ctx.SizeReads name (manner.write 0 arg) arg (manner.factorDepth 0 arg)
          arg.valueDepth
          (manner.opens arg (if Context.takesType name then .sizeArgument else .expression) &&
            ctx.recovers manner
              (if Context.takesType name then .sizeArgument else .expression) arg) := by
        have whole := below arg List.mem_cons_self arg (Nat.le_refl _)
        split
        · rename_i taken
          rw [if_pos taken] at first
          exact sizeArgument_read manner first taken whole
        · rename_i untaken
          rw [if_neg untaken] at first
          exact (whole first).expression.sizeArgument fun _ taken => absurd taken untaken
      exact callArguments_cons manner text
        (reads.deepen (Nat.le_max_left _ _) (Nat.le_max_left _ _)) starts
        fun expr listed => (each expr listed).deepen (Nat.le_max_right _ _) (Nat.le_max_right _ _)

/-! ### Arms and components -/

theorem Context.ArmReads.deepen {factors values more less : Nat} {good : Bool}
    (reads : ctx.ArmReads manner expr factors values good) (le : factors ≤ more)
    (few : values ≤ less) : ctx.ArmReads manner expr more less good :=
  ⟨reads.starts, fun kind => (reads.labelled kind).deepen le few, reads.otherwise,
    fun kind => (reads.completer kind).deepen le few⟩

/-- All expressions below a size are read back. -/
def Context.Below (ctx : Context) (manner : Manner) (bound : Nat) : Prop :=
  ∀ part, sizeOf part < bound → ctx.ReadsWhole manner part ∧ ctx.ReadsComponent manner part

theorem Context.Below.wholes {bound : Nat} (below : ctx.Below manner bound)
    (le : sizeOf exprs ≤ bound) :
    ∀ expr ∈ exprs, ∀ part, sizeOf part ≤ sizeOf expr → ctx.ReadsWhole manner part :=
  fun expr listed part small => (below part (by
    have := List.sizeOf_lt_of_mem listed
    omega)).1

theorem factorDepth_arm (labels : List ExprNode) (isOtherwise : Bool) (value : ExprNode) :
    manner.factorDepth 0 (.arm labels isOtherwise value) =
      max (manner.factorDepths labels) (componentDepth manner value) := by
  rw [Manner.factorDepth, componentDepth]

theorem recovers_arm {labels : List ExprNode} {isOtherwise : Bool} {value : ExprNode} :
    ctx.recovers manner .arm (.arm labels isOtherwise value) =
      (labels.all (ctx.recovers manner .element) &&
        (manner.opens value .component && ctx.recovers manner .component value)) := by
  rw [Context.recovers, recoversAll_eq_all]
  rfl

theorem has_arm {labels : List ExprNode} {isOtherwise : Bool} {value : ExprNode}
    (present : ctx.has manner .arm (.arm labels isOtherwise value) = true) :
    isOtherwise = labels.isEmpty ∧ ctx.hasAll manner .element .element labels = true ∧
      ctx.has manner .component value = true := by
  simp only [Context.has, Bool.decide_and, Bool.and_eq_true, decide_eq_true_eq] at present
  exact ⟨present.2.1, present.2.2.1, present.2.2.2⟩

/-- The component of an arm begins as an expression does. -/
theorem starts_component (present : ctx.has manner .component expr = true) (rest : List Token) :
    startsExpr (headKind (manner.write 0 expr ++ rest)) = true :=
  (starts_write manner 0 expr .component rest (by decide) present).1

/-- An arm is read from its labels and its component. -/
theorem arm_read (present : ctx.has manner .arm expr = true)
    (below : ctx.Below manner (sizeOf expr)) :
    ctx.ArmReads manner expr (manner.factorDepth 0 expr) expr.valueDepth
      (ctx.recovers manner .arm expr) := by
  cases expr with
  | arm labels isOtherwise value =>
      obtain ⟨empty, listed, component⟩ := has_arm manner present
      have value_read := (below value (by simp +arith)).2 component
      rw [factorDepth_arm, ExprNode.valueDepth, recovers_arm]
      cases isOtherwise with
      | true =>
          obtain rfl : labels = [] := by simpa using empty
          refine ⟨fun labelled => Bool.noConfusion labelled,
            fun labelled => Bool.noConfusion labelled, fun _ rest => ?_, fun _ => ?_⟩
          · rw [write_completer]
            rfl
          · have read := otherwiseArm_read manner (manner.spell .Otherwise)
              (value_read.deepen (Nat.le_max_right (manner.factorDepths []) _)
                (Nat.le_max_right (valueDepths []) _))
              (starts_component manner component) (by decide) (by decide) (by decide)
            rw [write_completer, List.all_nil, Bool.true_and]
            exact read
      | false =>
          have ne : labels ≠ [] := by
            rintro rfl
            cases empty
          have smaller : sizeOf labels ≤ sizeOf (ExprNode.arm labels false value) := by simp +arith
          have each := labels_each manner (below.wholes manner smaller) listed
          refine ⟨fun _ rest => ?_, fun _ => ?_, fun completer => Bool.noConfusion completer,
            fun completer => Bool.noConfusion completer⟩
          · rw [write_labelledArm, List.append_assoc]
            exact headKind_labels manner _ (labels_start manner listed) ne
          · exact labelledArm_read manner
              (fun label member => (each label member).deepen (Nat.le_max_left _ _)
                (Nat.le_max_left _ _)) ne
              (value_read.deepen (Nat.le_max_right _ _) (Nat.le_max_right _ _))
  | setLiteral typeName elements => cases typeName <;> simp [Context.has] at present
  | structuredValue typeName arms => cases typeName <;> simp [Context.has] at present
  | _ => simp [Context.has] at present

theorem arms_each (present : ctx.hasAll manner .arm .arm exprs = true)
    (below : ctx.Below manner (sizeOf exprs)) :
    ∀ arm ∈ exprs, ctx.ArmReads manner arm (manner.factorDepths exprs) (valueDepths exprs)
      (ctx.recovers manner .arm arm) := by
  intro arm listed
  have smaller := List.sizeOf_lt_of_mem listed
  exact (arm_read manner (has_of_mem manner present listed)
    fun part small => below part (Nat.lt_trans small smaller)).deepen manner
      (factorDepth_le_of_mem manner listed) (valueDepth_le_of_mem listed)

/-- A component that is not between brackets as a whole is an expression that begins with none. -/
theorem component_of_expression (present : ctx.has manner .component expr = true)
    (single : expr.isBracketed = false) (whole : ctx.ReadsWhole manner expr)
    (below : ctx.Below manner (sizeOf expr)) :
    ctx.InnerReads (manner.write 0 expr) expr (manner.factorDepth 0 expr) expr.valueDepth
      (manner.opens expr .component && ctx.recovers manner .component expr) := by
  have typed : expr.isUntypedValue = false := by
    cases expr with
    | structuredValue typeName arms =>
        cases typeName with
        | none => cases single
        | some typeName => rfl
    | _ => rfl
  have plain := has_expression manner (by decide)
    (not_range_of_has manner (by decide) present) typed Place.noConfusion present
  rw [recovers_eq manner .component .expression (not_arm_of_has manner (by decide) present)]
  have ne := write_ne_nil manner (by decide) plain
  by_cases bracket : headKind (manner.write 0 expr) = .LeftBracket
  · have opened : manner.opens expr .component = false := by
      rw [Manner.opens, single, bracket]
      rfl
    rw [opened, Bool.false_and]
    obtain ⟨elements, tail, leads⟩ := leading_set manner 0 expr [] plain
      (by rw [List.append_nil, bracket])
    obtain ⟨token, more, rfl, beyond⟩ : ∃ token more, tail = token :: more ∧
        endsComponent token.kind = false := by
      rcases leads.beyond with ⟨rfl, -⟩ | going
      · cases single
      · exact going
    have smaller : sizeOf elements ≤ sizeOf expr := Nat.le_of_lt leads.smaller
    intro state rest room ends
    have inside := room.weaken
      (Nat.le_trans (Nat.le_succ _) leads.factors_le) leads.values_le
    have ended : ∃ result sound, Ends (Lost endsComponent state.errors.length)
        (fun fuel => Context.componentValue (ctx.parsers fuel))
        (state.reading (manner.token .LeftBracket :: (manner.writeAll .Comma elements ++
          manner.token .RightBracket :: (token :: more ++ rest)))) result
        (state.reading (token :: more ++ rest)) sound := by
      by_cases empty : elements = []
      · subst empty
        exact ⟨_, _, read_emptyComponent (manner.spell .LeftBracket) (manner.spell .RightBracket)⟩
      · exact ⟨_, _, read_setComponent manner (labels_each manner (below.wholes manner smaller)
          leads.present) (labels_start manner leads.present) empty (manner.spell .LeftBracket)
            (manner.spell .RightBracket) inside⟩
    obtain ⟨result, sound, ended⟩ := ended
    rw [leads.written, Manner.brackets]
    simp only [List.cons_append, List.append_assoc, List.nil_append] at ended ⊢
    exact ended.all_lost (.inr ⟨rfl, beyond, room.exprLimit, room.valueLimit⟩)
  · have opened : manner.opens expr .component = true := by
      rw [Manner.opens, bne_iff_ne.mpr bracket, Bool.or_true]
    rw [opened, Bool.true_and]
    exact (whole plain).expression.inner fun rest => by rw [headKind_append rest ne]; exact bracket

/-- A structured value without a type, from its arms. -/
theorem untypedValue_read {arms : List ExprNode}
    (present : ctx.hasAll manner .arm .arm arms = true) (below : ctx.Below manner (sizeOf arms)) :
    ctx.InnerReads (manner.write 0 (.structuredValue none arms)) (.structuredValue none arms)
      (manner.factorDepths arms) (valueDepths arms) (ctx.recoversAll manner .arm .arm arms) := by
  have written : manner.write 0 (.structuredValue none arms) = manner.token .LeftBracket ::
      (manner.writeAll .Semicolon arms ++ [manner.token .RightBracket]) := by
    rw [Manner.write]
    rfl
  rw [written]
  cases arms with
  | nil =>
      intro state rest room ends
      exact read_emptyComponent _ _
  | cons arm arms =>
      have each := arms_each manner present below
      rw [recoversAll_eq_all]
      rw [Context.hasAll, Bool.and_eq_true, Bool.and_eq_true, Bool.or_eq_true] at present
      obtain ⟨⟨first, others⟩, last⟩ := present
      cases arm with
      | arm labels isOtherwise value =>
          obtain ⟨empty, listed, component⟩ := has_arm manner first
          cases isOtherwise with
          | true =>
              obtain rfl : arms = [] := by simpa [ExprNode.isCompleter] using last
              rw [List.all_cons, List.all_nil, Bool.and_true]
              exact inner_completer manner _ _ rfl (each _ List.mem_cons_self)
          | false =>
              have ne : labels ≠ [] := by
                rintro rfl
                cases empty
              have value_read := (below value (by simp +arith)).2 component
              have smaller : sizeOf labels ≤ sizeOf (ExprNode.arm labels false value :: arms) := by
                simp +arith
              have labels_read := labels_each manner (below.wholes manner smaller) listed
              have factors : manner.factorDepths (.arm labels false value :: arms) =
                  max (max (manner.factorDepths labels) (componentDepth manner value))
                    (manner.factorDepths arms) := by
                rw [Manner.factorDepths, factorDepth_arm]
              have values : valueDepths (.arm labels false value :: arms) =
                  max (max (valueDepths labels) (value.valueDepth + 1)) (valueDepths arms) := by
                rw [valueDepths, ExprNode.valueDepth]
              have read := inner_labelled manner
                (fun label member => (labels_read label member).deepen
                  (factors ▸ Nat.le_trans (Nat.le_max_left _ _) (Nat.le_max_left _ _))
                  (values ▸ Nat.le_trans (Nat.le_max_left _ _) (Nat.le_max_left _ _)))
                (labels_start manner listed) ne
                (value_read.deepen
                  (factors ▸ Nat.le_trans (Nat.le_max_right _ _) (Nat.le_max_left _ _))
                  (values ▸ Nat.le_trans (Nat.le_max_right _ _) (Nat.le_max_left _ _)))
                others (fun arm member => each arm (List.mem_cons_of_mem _ member))
                (manner.spell .LeftBracket) (manner.spell .RightBracket)
              rw [List.all_cons, recovers_arm, Bool.and_assoc, Bool.and_assoc]
              exact read
      | setLiteral typeName elements => cases typeName <;> simp [Context.has] at first
      | structuredValue typeName arms => cases typeName <;> simp [Context.has] at first
      | _ => simp [Context.has] at first

theorem component_read (whole : ctx.ReadsWhole manner expr)
    (below : ctx.Below manner (sizeOf expr)) : ctx.ReadsComponent manner expr := by
  intro present
  by_cases single : expr.isBracketed = true
  · cases expr with
    | setLiteral typeName elements =>
        cases typeName with
        | some typeName => cases single
        | none =>
            simp only [Context.has, Bool.decide_and, Bool.and_eq_true, decide_eq_true_eq] at present
            have ne : elements ≠ [] := by
              rintro rfl
              simpa using present.2.1
            have smaller : sizeOf elements ≤ sizeOf (ExprNode.setLiteral none elements) := by
              simp +arith
            have written : manner.write 0 (.setLiteral none elements) =
                manner.token .LeftBracket ::
                  (manner.writeAll .Comma elements ++ [manner.token .RightBracket]) := by
              rw [Manner.write]
              rfl
            rw [written, componentDepth, Manner.factorDepth, if_pos single, Nat.add_sub_cancel,
              ExprNode.valueDepth, Context.recovers, recoversAll_eq_all]
            have read : ctx.InnerReads (manner.token .LeftBracket ::
                (manner.writeAll .Comma elements ++ [manner.token .RightBracket]))
                (.setLiteral none elements) (manner.factorDepths elements) (valueDepths elements)
                (elements.all (ctx.recovers manner .element)) := by
              intro state rest room ends
              rw [List.cons_append, List.append_assoc, List.singleton_append]
              exact read_setComponent manner
                (labels_each manner (below.wholes manner smaller) present.2.2)
                (labels_start manner present.2.2) ne _ _ room
            exact read.component
    | structuredValue typeName arms =>
        cases typeName with
        | some typeName => cases single
        | none =>
            simp only [Context.has, Bool.decide_and, Bool.and_eq_true, decide_eq_true_eq] at present
            rw [componentDepth, Manner.factorDepth, if_pos single, Nat.add_sub_cancel,
              ExprNode.valueDepth, Context.recovers]
            exact (untypedValue_read manner present.2 fun part small =>
              below part (Nat.lt_trans small (by simp +arith))).component
    | _ => cases single
  · rw [componentDepth, if_neg single, Nat.sub_zero]
    exact (component_of_expression manner present (by simpa using single) whole below).component

end Plang.Expressions
