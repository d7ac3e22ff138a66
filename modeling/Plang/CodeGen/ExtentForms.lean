import Plang.CodeGen.SchemaWalk

/-!
# Closed forms of extents

What the instructions of a closed form compute against what is folded with the discriminants bound.
A form has no check but those of a power: sums wrap, a divisor of zero is taken for one, and the
divisor is added to a negative remainder whatever its sign is.
-/

namespace Plang.CodeGen

open MachineInt

/-- Operands of which an operator of a closed form computes what is folded. -/
def ConstOp.FormMeets (x y : Int) : ConstOp → Prop
  | .plus => Fits 64 true (x + y)
  | .minus => Fits 64 true (x - y)
  | .times => Fits 64 true (x * y)
  | .div => y ≠ 0 ∧ divOverflows x y = false
  | .mod => (y ≠ 0 ∧ divOverflows x y = false) ∧ ((0 < y ∨ y = -2 ^ 63) ∨ 0 ≤ x ∨ y ∣ x)
  | .pow => ¬(x = 0 ∧ y = 0)

namespace SchemaWalk

/-! ### One operator -/

theorem int64_eq_wrap64_iff {value : Int} :
    some (wrap64 value) = int64 value ↔ Fits 64 true value := by
  constructor
  · intro alike
    obtain ⟨same, fits⟩ := int64_eq_some alike.symm
    rwa [← same] at fits
  · intro fits
    have folded : int64 value = some value :=
      checked_eq_some.mpr ⟨rfl, fits, fun narrow => absurd narrow (lt_irrefl 64)⟩
    rw [wrap64_eq fits]
    exact folded.symm

theorem emit_div_iff {x y : Int} (x_fits : Fits 64 true x) :
    emitOp .div x y = ConstOp.div.fold (64, true) x y ↔ ConstOp.div.FormMeets x y := by
  rw [ConstOp.fold, ConstOp.FormMeets]
  by_cases inside : y ≠ 0 ∧ divOverflows x y = false
  · have v_fits := fits_tdiv x_fits inside.2
    simp only [emitOp, if_neg inside.1, wrap64_eq v_fits, if_pos inside, true_iff]
    exact inside
  · rw [if_neg inside]
    exact iff_of_false (Option.some_ne_none _) inside

/-- A negative remainder, with the divisor added to it, is what is left of the division if the
divisor is positive; the least one is positive as far as 64 bits show. -/
theorem wrap64_add_divisor {x y : Int} (y_fits : Fits 64 true y) (y_ne : y ≠ 0)
    (apart : ¬(0 ≤ x ∨ y ∣ x)) :
    x.tmod y < 0 ∧ (wrap64 (x.tmod y + y) = x % y ↔ 0 < y ∨ y = -2 ^ 63) := by
  have nonneg := Int.emod_nonneg x y_ne
  have below := Int.emod_lt x y_ne
  have sign : x % y = x.tmod y + _ := Int.emod_eq_tmod
  rw [if_neg apart] at sign
  rw [fits_signed] at y_fits
  refine ⟨by omega, ?_⟩
  rw [wrap64, Int.bmod_def]
  split <;> omega

theorem emit_mod_iff {x y : Int} (y_fits : Fits 64 true y) :
    emitOp .mod x y = ConstOp.mod.fold (64, true) x y ↔ ConstOp.mod.FormMeets x y := by
  rw [ConstOp.fold, ConstOp.FormMeets]
  by_cases inside : y ≠ 0 ∧ divOverflows x y = false
  · rw [if_pos inside, isoMod_eq inside.1, and_iff_right inside]
    simp only [emitOp, if_neg inside.1, Option.some.injEq]
    by_cases alike : 0 ≤ x ∨ y ∣ x
    · have same := (tmod_eq_emod_iff inside.1).mpr alike
      rw [same, if_neg (not_lt.mpr (Int.emod_nonneg x inside.1))]
      exact iff_of_true rfl (.inr alike)
    · obtain ⟨below, added⟩ := wrap64_add_divisor y_fits inside.1 alike
      rw [if_pos below, added, or_iff_left alike]
  · rw [if_neg inside]
    exact iff_of_false (Option.some_ne_none _) fun meets => inside meets.1

theorem emit_pow_iff {x y : Int} :
    emitOp .pow x y = ConstOp.pow.fold (64, true) x y ↔ ConstOp.pow.FormMeets x y := by
  rw [emitOp, ipow, ConstOp.fold, ConstOp.FormMeets]
  by_cases negative : y < 0
  · rw [if_pos negative, if_neg (not_le.mpr negative)]
    exact iff_of_true rfl fun zeros => absurd zeros.2 negative.ne
  · rw [if_neg negative, if_pos (not_lt.mp negative)]
    by_cases zeros : x = 0 ∧ y = 0
    · have folded : isoPow (64, true) x y = some 1 := by
        rw [isoPow, zeros.2, Int.toNat_zero, powLoop, if_pos rfl]
      rw [if_pos zeros, folded]
      exact iff_of_false (Option.some_ne_none 1).symm fun apart => apart zeros
    · rw [if_neg zeros]
      exact iff_of_true rfl zeros

theorem emitOp_eq_fold_iff {x y : Int} (x_fits : Fits 64 true x) (y_fits : Fits 64 true y)
    (op : ConstOp) : emitOp op x y = op.fold (64, true) x y ↔ op.FormMeets x y := by
  cases op with
  | plus => exact int64_eq_wrap64_iff
  | minus => exact int64_eq_wrap64_iff
  | times => exact int64_eq_wrap64_iff
  | div => exact emit_div_iff x_fits
  | mod => exact emit_mod_iff y_fits
  | pow => exact emit_pow_iff

/-! ### Expressions -/

namespace Extent

/-- The expression and what it is made of, as far as that has a form in its form. -/
def parts : Extent → List Extent
  | const value => [const value]
  | disc index => [disc index]
  | identity e => identity e :: e.parts
  | negate e => negate e :: e.parts
  | binary op left right => binary op left right :: (left.parts ++ right.parts)
  | call fn e => [call fn e]

/-- The form computes what is folded, and reports an error if nothing is. -/
def EvaluatesAlike (discs : List Int) (e : Extent) : Prop :=
  ∃ form, e.form = some form ∧ form.emit discs = e.fold discs

/-- Each operator has operands that it meets, as far as they are folded. -/
def FormMeets (discs : List Int) : Extent → Prop
  | const _ => True
  | disc _ => True
  | identity e => e.FormMeets discs
  | negate e => e.FormMeets discs ∧ ∀ x, e.fold discs = some x → Fits 64 true (-x)
  | binary op left right =>
      (left.FormMeets discs ∧ right.FormMeets discs) ∧
        ∀ x y, left.fold discs = some x → right.fold discs = some y → op.FormMeets x y
  | call _ _ => True

variable {discs : List Int}

theorem mem_parts_self (e : Extent) : e ∈ e.parts := by
  cases e <;> exact List.mem_cons_self ..

theorem leaf_eq_some {e : Extent} {form : ExtentForm} (leaf_eq : e.leaf = some form) :
    e.reads = false ∧ ∃ v, e.fold [] = some v ∧ form = .const v := by
  rw [leaf] at leaf_eq
  split at leaf_eq
  · cases leaf_eq
  · rename_i constant
    obtain ⟨v, folded, rfl⟩ := Option.map_eq_some_iff.mp leaf_eq
    exact ⟨Bool.eq_false_iff.mpr constant, v, folded, rfl⟩

/-- What is folded without discriminants has a form. -/
theorem form_of_fold {e : Extent} {v : Int} (constant : e.reads = false)
    (folded : e.fold [] = some v) : ∃ form, e.form = some form := by
  induction e generalizing v with
  | const value =>
      refine ⟨.const v, ?_⟩
      rw [form, leaf, constant, if_neg Bool.false_ne_true, folded]
      rfl
  | disc index => cases constant
  | identity e induction => exact induction constant folded
  | negate e induction =>
      obtain ⟨x, inner, -⟩ := Option.bind_eq_some_iff.mp folded
      obtain ⟨inner_form, inner_eq⟩ := induction constant inner
      exact ⟨.neg inner_form, by rw [form, inner_eq]⟩
  | binary op left right left_induction right_induction =>
      rw [reads, Bool.or_eq_false_iff] at constant
      obtain ⟨x, left_folded, folded⟩ := Option.bind_eq_some_iff.mp folded
      obtain ⟨y, right_folded, -⟩ := Option.bind_eq_some_iff.mp folded
      obtain ⟨left_form, left_eq⟩ := left_induction constant.1 left_folded
      obtain ⟨right_form, right_eq⟩ := right_induction constant.2 right_folded
      exact ⟨.binary op left_form right_form, by rw [form, left_eq, right_eq]⟩
  | call fn e induction =>
      refine ⟨.const v, ?_⟩
      rw [form, leaf, constant, if_neg Bool.false_ne_true, folded]
      rfl

/-- A form that is a constant is what is folded, whatever the discriminants. -/
theorem alike_of_leaf {e : Extent} {form : ExtentForm} (form_eq : e.form = e.leaf)
    (leaf_eq : e.leaf = some form) : e.EvaluatesAlike discs := by
  obtain ⟨constant, v, folded, rfl⟩ := leaf_eq_some leaf_eq
  exact ⟨.const v, form_eq.trans leaf_eq, by rw [fold_eq_of_not_reads constant [], folded]; rfl⟩

theorem negate_form {e : Extent} {form : ExtentForm} (form_eq : (negate e).form = some form) :
    ∃ inner, e.form = some inner ∧ form = .neg inner := by
  rw [Extent.form] at form_eq
  cases inner_eq : e.form with
  | some inner =>
      rw [inner_eq] at form_eq
      exact ⟨inner, rfl, (Option.some.inj form_eq).symm⟩
  | none =>
      rw [inner_eq] at form_eq
      obtain ⟨constant, v, folded, -⟩ := leaf_eq_some form_eq
      obtain ⟨x, inner, -⟩ := Option.bind_eq_some_iff.mp folded
      have inner_constant : e.reads = false := constant
      obtain ⟨_, inner_some⟩ := form_of_fold inner_constant inner
      rw [inner_some] at inner_eq
      cases inner_eq

theorem binary_form {op : ConstOp} {left right : Extent} {form : ExtentForm}
    (form_eq : (binary op left right).form = some form) :
    ∃ l r, left.form = some l ∧ right.form = some r ∧ form = .binary op l r := by
  have of_leaf : (binary op left right).leaf = some form →
      (∃ l, left.form = some l) ∧ ∃ r, right.form = some r := by
    intro leaf_eq
    obtain ⟨constant, v, folded, -⟩ := leaf_eq_some leaf_eq
    rw [reads, Bool.or_eq_false_iff] at constant
    obtain ⟨x, left_folded, folded⟩ := Option.bind_eq_some_iff.mp folded
    obtain ⟨y, right_folded, -⟩ := Option.bind_eq_some_iff.mp folded
    exact ⟨form_of_fold constant.1 left_folded, form_of_fold constant.2 right_folded⟩
  rw [Extent.form] at form_eq
  split at form_eq
  · rename_i l r left_eq right_eq
    exact ⟨l, r, left_eq, right_eq, (Option.some.inj form_eq).symm⟩
  · rename_i missing
    obtain ⟨⟨l, left_eq⟩, r, right_eq⟩ := of_leaf form_eq
    exact (missing l r left_eq right_eq).elim

/-! ### Each node -/

theorem negate_alike_iff {e : Extent} (inner_alike : e.EvaluatesAlike discs) :
    (negate e).EvaluatesAlike discs ↔ ∀ x, e.fold discs = some x → Fits 64 true (-x) := by
  obtain ⟨inner, inner_eq, emitted⟩ := inner_alike
  have form_eq : (negate e).form = some (.neg inner) := by rw [form, inner_eq]
  have at_node : (negate e).EvaluatesAlike discs ↔
      (e.fold discs).map (fun x => wrap64 (-x)) = (e.fold discs).bind fun x => int64 (-x) := by
    rw [← emitted, EvaluatesAlike, form_eq]
    simp only [Option.some.injEq, exists_eq_left', ExtentForm.emit, fold, emitted]
  rw [at_node]
  cases folded : e.fold discs with
  | none => exact iff_of_true rfl fun x none => absurd none (Option.some_ne_none x).symm
  | some x =>
      simp only [Option.map_some, Option.bind_some, int64_eq_wrap64_iff, Option.some.injEq,
        forall_eq']

theorem binary_alike_iff {op : ConstOp} {left right : Extent}
    (left_alike : left.EvaluatesAlike discs) (right_alike : right.EvaluatesAlike discs) :
    (binary op left right).EvaluatesAlike discs ↔
      ∀ x y, left.fold discs = some x → right.fold discs = some y → op.FormMeets x y := by
  obtain ⟨l, left_eq, left_emitted⟩ := left_alike
  obtain ⟨r, right_eq, right_emitted⟩ := right_alike
  have form_eq : (binary op left right).form = some (.binary op l r) := by
    rw [form, left_eq, right_eq]
  have at_node : (binary op left right).EvaluatesAlike discs ↔
      ((left.fold discs).bind fun x => (right.fold discs).bind fun y => emitOp op x y) =
        (left.fold discs).bind fun x => (right.fold discs).bind fun y =>
          op.fold (64, true) x y := by
    rw [EvaluatesAlike, form_eq]
    simp only [Option.some.injEq, exists_eq_left', ExtentForm.emit, fold, left_emitted,
      right_emitted]
  rw [at_node]
  cases left_folded : left.fold discs with
  | none => exact iff_of_true rfl fun x _ none => absurd none (Option.some_ne_none x).symm
  | some x =>
      cases right_folded : right.fold discs with
      | none => exact iff_of_true rfl fun _ y _ none => absurd none (Option.some_ne_none y).symm
      | some y =>
          have node := emitOp_eq_fold_iff (fits_fold left_folded) (fits_fold right_folded) op
          simp only [Option.bind_some, node, Option.some.injEq]
          constructor
          · rintro meets _ _ rfl rfl
            exact meets
          · intro meets
            exact meets x y rfl rfl

/-- For every expression that has a form, and all discriminants: the form of each part computes what
is folded of it, an error where nothing is, if and only if each operator has operands that it
meets. -/
theorem parts_alike_iff {e : Extent} (int64s : ∀ value ∈ discs, Fits 64 true value)
    (compiled : ∃ form, e.form = some form) :
    (∀ part ∈ e.parts, part.EvaluatesAlike discs) ↔ e.FormMeets discs := by
  induction e with
  | const value =>
      obtain ⟨form, form_eq⟩ := compiled
      have alike : (const value).EvaluatesAlike discs := alike_of_leaf rfl form_eq
      rw [parts, List.forall_mem_singleton]
      exact iff_of_true alike trivial
  | disc index =>
      have alike : (disc index).EvaluatesAlike discs := by
        refine ⟨.disc index, rfl, ?_⟩
        rw [ExtentForm.emit, fold]
        cases found : discs[index]? with
        | none => rfl
        | some value =>
            have fits := int64s value (List.mem_of_getElem? found)
            rw [Option.bind_some, ← int64_eq_wrap64_iff.mpr fits, wrap64_eq fits]
      rw [parts, List.forall_mem_singleton]
      exact iff_of_true alike trivial
  | identity e induction =>
      rw [parts, List.forall_mem_cons, induction compiled]
      constructor
      · exact And.right
      · intro meets
        exact ⟨(induction compiled).mpr meets e (mem_parts_self e), meets⟩
  | negate e induction =>
      obtain ⟨form, form_eq⟩ := compiled
      obtain ⟨inner, inner_eq, -⟩ := negate_form form_eq
      have inner_iff := induction ⟨inner, inner_eq⟩
      rw [parts, List.forall_mem_cons, inner_iff, and_comm, FormMeets]
      refine and_congr_right fun meets => ?_
      exact negate_alike_iff (inner_iff.mpr meets e (mem_parts_self e))
  | binary op left right left_induction right_induction =>
      obtain ⟨form, form_eq⟩ := compiled
      obtain ⟨l, r, left_eq, right_eq, -⟩ := binary_form form_eq
      have left_iff := left_induction ⟨l, left_eq⟩
      have right_iff := right_induction ⟨r, right_eq⟩
      rw [parts, List.forall_mem_cons, List.forall_mem_append, left_iff, right_iff, and_comm,
        FormMeets]
      refine and_congr_right fun meets => ?_
      exact binary_alike_iff (left_iff.mpr meets.1 left (mem_parts_self left))
        (right_iff.mpr meets.2 right (mem_parts_self right))
  | call fn e _ =>
      obtain ⟨form, form_eq⟩ := compiled
      have alike : (call fn e).EvaluatesAlike discs := alike_of_leaf rfl form_eq
      rw [parts, List.forall_mem_singleton]
      exact iff_of_true alike trivial

/-- The bound `2 * n` of an object with `n = 5`. -/
theorem twice_alike :
    (∀ part ∈ (binary .times (const 2) (disc 0)).parts, part.EvaluatesAlike [5]) ↔
      (binary .times (const 2) (disc 0)).FormMeets [5] :=
  parts_alike_iff (by decide) ⟨.binary .times (.const 2) (.disc 0), rfl⟩

/-- The bound `4 * n`, with a discriminant of which that is no number of 64 bits. -/
theorem fourfold_wraps :
    ¬∀ (e : Extent) (discs : List Int) (form : ExtentForm), (∀ value ∈ discs, Fits 64 true value) →
      e.form = some form → form.emit discs = e.fold discs := by
  intro alike
  have computed := alike (binary .times (const 4) (disc 0)) [2 ^ 62]
    (.binary .times (.const 4) (.disc 0)) (by decide) rfl
  exact absurd computed (by decide)

end Extent

end SchemaWalk

end Plang.CodeGen
