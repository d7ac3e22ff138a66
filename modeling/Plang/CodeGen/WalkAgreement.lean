import Plang.CodeGen.SchemaWalk

/-!
# The run-time walk is natural

Where extents have closed forms that compute what is folded, the walk over a declaration comes to the
natural layout of the type that the declaration resolves to.
-/

namespace Plang.CodeGen.SchemaWalk

open Plang.Sema.Storage StructLayout RecordTypes MachineInt

/-! ### Alignment by a mask -/

/-- The mask of a power of two clears the bits below it. -/
theorem and_mask {value : Nat} (k : Nat) (le : k ≤ 64) (fits : value < 2 ^ 64) :
    value &&& (2 ^ 64 - 2 ^ k) = value / 2 ^ k * 2 ^ k := by
  have positive := Nat.two_pow_pos k
  have within := Nat.pow_le_pow_right (show 0 < 2 by decide) le
  have mask : 2 ^ 64 - 2 ^ k = 2 ^ 64 - ((2 ^ k - 1) + 1) := by omega
  apply Nat.eq_of_testBit_eq
  intro i
  rw [Nat.testBit_and, mask, Nat.testBit_two_pow_sub_succ (by omega), Nat.testBit_two_pow_sub_one,
    Nat.testBit_mul_two_pow, Nat.testBit_div_two_pow]
  by_cases high : k ≤ i
  · rw [Nat.sub_add_cancel high]
    by_cases small : i < 64
    · simp [high, small]
    · have outside : value.testBit i = false :=
        Nat.testBit_lt_two_pow (lt_of_lt_of_le fits (Nat.pow_le_pow_right (by decide) (by omega)))
      simp [outside]
  · have low : i < k := by omega
    simp [high, low]

theorem alignUpV_eq {value align : Nat} (power : align.isPowerOfTwo) (bound : align ≤ 16)
    (fits : value < 2 ^ 63) : alignUpV value align = roundUp value align := by
  obtain ⟨k, rfl⟩ := power
  have positive := Nat.two_pow_pos k
  rw [alignUpV]
  split
  · rename_i le
    rw [show 2 ^ k = 1 by omega, roundUp_one]
  · have k_le : k ≤ 4 := (Nat.pow_le_pow_iff_right (by omega) (m := 4)).mp bound
    rw [u64, Nat.mod_eq_of_lt (by omega), and_mask k (by omega) (by omega), roundUp, if_neg (by omega),
      Nat.add_sub_assoc (by omega)]

theorem alignUpV_of_sound {shape : Shape} (storable : Storable shape) (fits : shape.size < 2 ^ 63) :
    alignUpV shape.size shape.align = shape.size := by
  rw [alignUpV_eq storable.sound.power storable.bound fits,
    roundUp_of_dvd storable.sound.positive storable.sound.whole]

/-- The components of an array, each of a stride, are as many as its bounds say. -/
theorem stride_eq {index : IndexRange} {shape : Shape} (storable : Storable shape)
    (counted : index.count < 2 ^ 64) (fits : index.count * shape.size < 2 ^ 63) :
    checkedMul64 (countV index.lo index.hi) (alignUpV shape.size shape.align) =
      some (index.count * shape.size) := by
  have ordered := index.ordered
  have positive := index.count_positive
  have count_eq : ((index.count : Nat) : Int) = index.hi - index.lo + 1 := by
    rw [IndexRange.count]
    omega
  rw [alignUpV_of_sound storable (elem_fits fits), countV, ← count_eq]
  rcases Nat.eq_zero_or_pos shape.size with empty | filled
  · rw [empty, Nat.mul_zero]
    rfl
  · have count_le : index.count ≤ index.count * shape.size := Nat.le_mul_of_pos_right _ filled
    rw [Int.emod_eq_of_lt (by omega) (by omega), if_neg (by omega), Int.toNat_natCast, checkedMul64,
      if_pos (by omega)]

/-! ### Declarations whose extents have forms -/

mutual

/-- Extents that are evaluated at run time have closed forms that compute what is folded. -/
def Denoter.regular : Denoter → Option (List Int) → Bool
  | .named _, _ => true
  | .packedOf inner, discs => inner.regular discs
  | .string capacity, some discs => capacity.regular discs
  | .string _, none => true
  | .array low high elem, some discs =>
      low.regular discs && (high.regular discs && elem.regular (some discs))
  | .array _ _ elem, none => elem.regular none
  | .indexed _ elem, discs => elem.regular discs
  | .record _ fields variant, discs => fields.regular discs && variant.regular discs
  | .schema actuals _ body, discs =>
      if actuals.any Extent.reads then
        actuals.all (·.regular (discs.getD [])) &&
          match foldAll (discs.getD []) actuals with
          | some inner => body.regular (some inner)
          | none => true
      else true

def FieldDecls.regular : FieldDecls → Option (List Int) → Bool
  | .nil, _ => true
  | .cons _ type rest, discs => type.regular discs && rest.regular discs

def VariantDecl.regular : VariantDecl → Option (List Int) → Bool
  | .absent, _ => true
  | .tagged _ tagType cases, discs => tagType.regular discs && cases.regular discs
  | .tagless cases, discs => cases.regular discs

def CaseDecls.regular : CaseDecls → Option (List Int) → Bool
  | .nil, _ => true
  | .cons fields nested rest, discs =>
      fields.regular discs && (nested.regular discs && rest.regular discs)

end

/-! ### Actual discriminants -/

/-- Outside of a schema nothing that reads a discriminant folds. -/
theorem Extent.fold_of_reads {e : Extent} (reads : e.reads = true) : e.fold [] = none := by
  induction e with
  | const value => exact absurd reads Bool.false_ne_true
  | disc index => rfl
  | identity e induction => exact induction reads
  | negate e induction => rw [fold, induction reads, Option.bind_none]
  | binary op left right left_induction right_induction =>
      rw [Extent.reads, Bool.or_eq_true] at reads
      rcases reads with left_reads | right_reads
      · rw [fold, left_induction left_reads, Option.bind_none]
      · rw [fold, right_induction right_reads]
        cases left.fold [] with
        | none => rfl
        | some x => rfl
  | call fn e induction => rw [fold, induction reads, Option.bind_none]

theorem foldAll_of_reads {actuals : List Extent} (reads : actuals.any Extent.reads = true) :
    foldAll [] actuals = none := by
  induction actuals with
  | nil => exact absurd reads Bool.false_ne_true
  | cons e rest induction =>
      rw [List.any_cons, Bool.or_eq_true] at reads
      rcases reads with here | later
      · rw [foldAll, Extent.fold_of_reads here, Option.bind_none]
      · rw [foldAll, induction later]
        cases e.fold [] with
        | none => rfl
        | some x => rfl

theorem foldAll_eq_of_not_reads {actuals : List Extent} (constant : actuals.any Extent.reads = false)
    (discs other : List Int) : foldAll discs actuals = foldAll other actuals := by
  induction actuals with
  | nil => rfl
  | cons e rest induction =>
      rw [List.any_cons, Bool.or_eq_false_iff] at constant
      rw [foldAll, foldAll, Extent.fold_eq_of_not_reads constant.1 other, induction constant.2]

/-- The closed forms of regular actuals have the values that are folded. -/
theorem emitAll_eq_foldAll {discs inner : List Int} {actuals : List Extent}
    (regular : actuals.all (·.regular discs) = true) (folded : foldAll discs actuals = some inner) :
    ∃ forms, actuals.mapM Extent.form = some forms ∧ emitAll discs forms = some inner ∧
      (actuals ≠ [] → forms ≠ []) := by
  induction actuals generalizing inner with
  | nil =>
      obtain rfl := Option.some.inj folded
      exact ⟨[], rfl, rfl, fun filled => absurd rfl filled⟩
  | cons e rest induction =>
      rw [List.all_cons, Bool.and_eq_true] at regular
      obtain ⟨x, e_folded, folded⟩ := Option.bind_eq_some_iff.mp folded
      obtain ⟨others, rest_folded, rfl⟩ := Option.map_eq_some_iff.mp folded
      obtain ⟨form, form_eq, emitted⟩ := Extent.emit_eq_fold regular.1 e_folded
      obtain ⟨forms, forms_eq, rest_emitted, -⟩ := induction regular.2 rest_folded
      refine ⟨form :: forms, by rw [List.mapM_cons, form_eq, forms_eq]; rfl, ?_,
        fun _ => List.cons_ne_nil _ _⟩
      rw [emitAll, emitted, Option.bind_some, rest_emitted, Option.map_some]

/-! ### Alignments -/

variable {dl : DataLayout} {pointer : PointerWidth}

mutual

/-- A declaration is aligned as the type that it resolves to. -/
theorem Denoter.rtAlign_eq : (d : Denoter) → {discs : List Int} → {ty : Ty} →
    d.resolve discs = some ty → Ty.suits dl pointer ty = true → (ty.shape pointer).size < 2 ^ 63 →
    d.rtAlign dl = (ty.shape pointer).align
  | .named ty, _, _, resolved, suits, fits => by
      obtain rfl := Option.some.inj resolved
      rw [Denoter.rtAlign, staticShape, Ty.lower_eq ty suits fits]
  | .packedOf inner, _, _, resolved, suits, fits => inner.rtAlign_eq resolved suits fits
  | .string _, _, _, resolved, _, _ => by
      obtain ⟨cap, -, resolved⟩ := Option.bind_eq_some_iff.mp resolved
      split at resolved
      · obtain rfl := Option.some.inj resolved
        rfl
      · cases resolved
  | .array _ _ elem, _, _, resolved, suits, fits => by
      obtain ⟨lo, -, resolved⟩ := Option.bind_eq_some_iff.mp resolved
      obtain ⟨hi, -, resolved⟩ := Option.bind_eq_some_iff.mp resolved
      split at resolved
      · obtain ⟨elem_ty, elem_resolved, rfl⟩ := Option.map_eq_some_iff.mp resolved
        have elem_align : elem.rtAlign dl = (elem_ty.shape pointer).align :=
          elem.rtAlign_eq elem_resolved suits (elem_fits fits)
        exact elem_align
      · cases resolved
  | .indexed _ elem, _, _, resolved, suits, fits => by
      obtain ⟨elem_ty, elem_resolved, rfl⟩ := Option.map_eq_some_iff.mp resolved
      have elem_align : elem.rtAlign dl = (elem_ty.shape pointer).align :=
        elem.rtAlign_eq elem_resolved suits (elem_fits fits)
      exact elem_align
  | .record packed fields variant, _, _, resolved, suits, fits => by
      obtain ⟨resolved_fields, fields_resolved, resolved⟩ := Option.bind_eq_some_iff.mp resolved
      obtain ⟨resolved_variant, variant_resolved, rfl⟩ := Option.map_eq_some_iff.mp resolved
      rw [Ty.suits, Bool.and_eq_true, Bool.and_eq_true] at suits
      change (recordOf pointer packed resolved_fields resolved_variant).shape.size < 2 ^ 63 at fits
      change _ = (recordOf pointer packed resolved_fields resolved_variant).align
      rw [Denoter.rtAlign, record_align]
      cases packed with
      | true =>
          rw [if_pos rfl, resolved_fields.packed_align, resolved_variant.packed_align]
          rfl
      | false =>
          obtain ⟨fields_fit, part_fits⟩ := slots_fit fits
          rw [if_neg (by decide), fields.rtAlign_eq fields_resolved suits.2.1 fields_fit,
            variant.rtAlign_eq variant_resolved suits.2.2 part_fits]
  | .schema _ _ body, _, _, resolved, suits, fits => by
      obtain ⟨inner, -, resolved⟩ := Option.bind_eq_some_iff.mp resolved
      obtain ⟨body_ty, body_resolved, rfl⟩ := Option.map_eq_some_iff.mp resolved
      have body_align : body.rtAlign dl = (body_ty.shape pointer).align :=
        body.rtAlign_eq body_resolved suits fits
      exact body_align

theorem FieldDecls.rtAlign_eq : (fields : FieldDecls) → {discs : List Int} →
    {resolved_fields : Fields} → fields.resolve discs = some resolved_fields →
    Fields.suits dl pointer resolved_fields = true →
    (∀ slot ∈ resolved_fields.slots pointer false, slot.shape.size < 2 ^ 63) →
    fields.rtAlign dl = slotsAlign (resolved_fields.slots pointer false)
  | .nil, _, _, resolved, _, _ => by
      obtain rfl := Option.some.inj resolved
      rfl
  | .cons name type rest, _, _, resolved, suits, fits => by
      obtain ⟨ty, type_resolved, resolved⟩ := Option.bind_eq_some_iff.mp resolved
      obtain ⟨others, rest_resolved, rfl⟩ := Option.map_eq_some_iff.mp resolved
      rw [Fields.suits, Bool.and_eq_true] at suits
      rw [FieldDecls.rtAlign, type.rtAlign_eq type_resolved suits.1 (fits _ List.mem_cons_self),
        rest.rtAlign_eq rest_resolved suits.2
          fun slot is_slot => fits slot (List.mem_cons_of_mem _ is_slot)]
      rfl

theorem VariantDecl.rtAlign_eq : (variant : VariantDecl) → {discs : List Int} →
    {resolved_variant : Variant} → variant.resolve discs = some resolved_variant →
    Variant.suits dl pointer resolved_variant = true →
    (∀ slot ∈ (resolved_variant.part pointer false).slots, slot.shape.size < 2 ^ 63) →
    variant.rtAlign dl = slotsAlign (resolved_variant.part pointer false).slots
  | .absent, _, _, resolved, _, _ => by
      obtain rfl := Option.some.inj resolved
      rfl
  | .tagged tagField tagType cases, _, _, resolved, suits, fits => by
      obtain ⟨ty, type_resolved, resolved⟩ := Option.bind_eq_some_iff.mp resolved
      obtain ⟨resolved_cases, cases_resolved, rfl⟩ := Option.map_eq_some_iff.mp resolved
      rw [Variant.suits, Bool.and_eq_true] at suits
      rw [VariantDecl.rtAlign, tagType.rtAlign_eq type_resolved suits.1 (fits _ List.mem_cons_self),
        cases.rtRunAlign_eq cases_resolved suits.2
          fun slot is_slot => fits slot (List.mem_cons_of_mem _ is_slot)]
      rfl
  | .tagless cases, _, _, resolved, suits, fits => by
      obtain ⟨resolved_cases, cases_resolved, rfl⟩ := Option.map_eq_some_iff.mp resolved
      exact cases.rtRunAlign_eq cases_resolved suits fits

theorem CaseDecls.rtRunAlign_eq : (cases : CaseDecls) → {discs : List Int} →
    {resolved_cases : Cases} → cases.resolve discs = some resolved_cases →
    Cases.suits dl pointer resolved_cases = true →
    (∀ slot ∈ (resolved_cases.arms pointer false).slots, slot.shape.size < 2 ^ 63) →
    cases.rtRunAlign dl = slotsAlign (resolved_cases.arms pointer false).slots
  | .nil, _, _, resolved, _, _ => by
      obtain rfl := Option.some.inj resolved
      rfl
  | .cons fields nested rest, _, _, resolved, suits, fits => by
      obtain ⟨own, fields_resolved, resolved⟩ := Option.bind_eq_some_iff.mp resolved
      obtain ⟨inner, nested_resolved, resolved⟩ := Option.bind_eq_some_iff.mp resolved
      obtain ⟨others, rest_resolved, rfl⟩ := Option.map_eq_some_iff.mp resolved
      rw [Cases.suits, Bool.and_eq_true, Bool.and_eq_true] at suits
      have others_fit : ∀ slot ∈ (inner.part pointer false).slots ++ (others.arms pointer false).slots,
          slot.shape.size < 2 ^ 63 := fun slot is_slot => fits slot (List.mem_append_right _ is_slot)
      rw [CaseDecls.rtRunAlign,
        fields.rtAlign_eq fields_resolved suits.1
          fun slot is_slot => fits slot (List.mem_append_left _ is_slot),
        nested.rtAlign_eq nested_resolved suits.2.1
          fun slot is_slot => others_fit slot (List.mem_append_left _ is_slot),
        rest.rtRunAlign_eq rest_resolved suits.2.2
          fun slot is_slot => others_fit slot (List.mem_append_right _ is_slot),
        Cases.arms, Arms.slots, slotsAlign_append, slotsAlign_append, Nat.max_assoc]

end

/-- The arms of a record's variant part are aligned as their slots are. -/
theorem CaseDecls.runAlign_eq {packed : Bool} {cases : CaseDecls} {discs : List Int}
    {resolved_cases : Cases} (resolved : cases.resolve discs = some resolved_cases)
    (suits : Cases.suits dl pointer resolved_cases = true) {position : Nat}
    (fits : (resolved_cases.arms pointer packed).finish position < 2 ^ 63) :
    (if packed then 1 else cases.rtRunAlign dl) =
      slotsAlign (resolved_cases.arms pointer packed).slots := by
  cases packed with
  | true => exact (resolved_cases.packed_align pointer).symm
  | false =>
      exact cases.rtRunAlign_eq resolved suits
        fun slot is_slot => (Arms.size_le_finish position is_slot).trans_lt fits

/-! ### Sizes and offsets -/

/-- A walk that has gone on over some slots. -/
def RtWalk.after (walk : RtWalk) (slots : List (Slot Text)) : RtWalk :=
  ⟨finish walk.off slots, walk.offsets ++ named (placed walk.off slots)⟩

/-- A walk that has gone on over the arms of a part. -/
def RtWalk.afterPart (walk : RtWalk) (part : Tail Text) : RtWalk :=
  ⟨part.finish walk.off, walk.offsets ++ named (part.placed walk.off)⟩

theorem RtWalk.after_off (own : List (Slot Text)) : (RtWalk.after ⟨0, []⟩ own).off = finish 0 own := rfl

theorem RtWalk.after_append (walk : RtWalk) (front back : List (Slot Text)) :
    walk.after (front ++ back) = (walk.after front).after back := by
  simp only [after, finish_append, placed_append, named_append, List.append_assoc]

theorem RtWalk.after_nil (walk : RtWalk) : walk.after [] = walk := by
  simp [after, finish, placed, named]

/-- Placing a component of a sound shape goes on over its slot. -/
theorem RtWalk.place_eq {packed : Bool} {walk : RtWalk} {name : Text} {shape : Shape}
    (storable : Storable shape) (fits : finish walk.off [slot packed name shape] < 2 ^ 63) :
    walk.place packed name shape.align (some shape.size) =
      some (walk.after [slot packed name shape]) := by
  have slot_storable : Storable (slot packed name shape).shape := slot_storable storable
  have size_eq : (slot packed name shape).shape.size = shape.size := by cases packed <;> rfl
  have align_eq : (slot packed name shape).shape.align = if packed then 1 else shape.align := by
    cases packed <;> rfl
  have lower := le_roundUp walk.off (slot packed name shape).shape.align
  simp only [finish] at fits
  have off_eq : alignUpV walk.off (slot packed name shape).shape.align =
      roundUp walk.off (slot packed name shape).shape.align :=
    alignUpV_eq slot_storable.sound.power slot_storable.bound (by omega)
  simp only [place, Option.map_some, ← align_eq, off_eq, after, finish, placed, named, List.map_cons,
    List.map_nil, ← size_eq, u64_eq fits]
  rfl

/-- The arms of a record start where the walk has them start. -/
theorem arms_start {own : List (Slot Text)} {arms : Arms Text}
    (storable : ∀ slot ∈ arms.slots, Storable slot.shape) (fits : (Record.mk own arms).finish < 2 ^ 63) :
    alignUpV (finish 0 own) (slotsAlign arms.slots) = (Record.mk own arms).base := by
  have own_bound := (Record.mk own arms).own_le_base
  have base_bound := (Record.mk own arms).base_le_finish
  exact alignUpV_eq (slotsAlign_power fun slot is_slot => (storable slot is_slot).sound.power)
    (slotsAlign_bound storable) ((own_bound.trans base_bound).trans_lt fits)

/-- The bounds of an array, as the walk has them. -/
theorem bounds_eq {discs : List Int} {low high : Extent} {lo hi : Int}
    (low_regular : low.regular discs = true) (high_regular : high.regular discs = true)
    (low_folded : low.fold discs = some lo) (high_folded : high.fold discs = some hi) :
    ((low.form.bind (·.emit discs)).bind fun lo =>
      (high.form.bind (·.emit discs)).map fun hi => (lo, hi)) = some (lo, hi) := by
  obtain ⟨low_form, low_eq, low_emitted⟩ := Extent.emit_eq_fold low_regular low_folded
  obtain ⟨high_form, high_eq, high_emitted⟩ := Extent.emit_eq_fold high_regular high_folded
  rw [low_eq, high_eq, Option.bind_some, Option.bind_some, low_emitted, high_emitted,
    Option.bind_some, Option.map_some]

mutual

/-- The walk's size of a declaration is that of the type it resolves to. -/
theorem Denoter.rtSize_eq : (d : Denoter) → {discs : Option (List Int)} → {ty : Ty} →
    d.resolve (discs.getD []) = some ty → d.regular discs = true → Ty.suits dl pointer ty = true →
    ty.counted = true → (ty.shape pointer).size < 2 ^ 63 →
    d.rtSize dl discs = some (ty.shape pointer).size
  | .named ty, _, _, resolved, _, suits, _, fits => by
      obtain rfl := Option.some.inj resolved
      rw [Denoter.rtSize, staticShape, Ty.lower_eq ty suits fits]
  | .packedOf inner, _, _, resolved, regular, suits, counted, fits =>
      inner.rtSize_eq resolved regular suits counted fits
  | .string capacity, some discs, _, resolved, regular, _, _, fits => by
      obtain ⟨cap, folded, resolved⟩ := Option.bind_eq_some_iff.mp resolved
      split at resolved
      · rename_i positive
        obtain rfl := Option.some.inj resolved
        obtain ⟨form, form_eq, emitted⟩ := Extent.emit_eq_fold regular folded
        have within := fits_signed.mp (Extent.fits_fold folded)
        have lower := le_roundUp (8 + capacityOf cap.toNat) 8
        simp only [Ty.shape, Cell.shape, capacityOf] at fits lower ⊢
        rw [if_pos (by omega)] at fits lower ⊢
        rw [Denoter.rtSize, form_eq, Option.bind_some, emitted, Option.map_some,
          Int.emod_eq_of_lt (by omega) (by omega), u64_eq (by omega),
          alignUpV_eq ⟨3, rfl⟩ (by decide) (by omega)]
      · cases resolved
  | .string capacity, none, _, resolved, _, suits, _, fits => by
      have resolved_eq : (Denoter.string capacity).resolve [] = some _ := resolved
      rw [Denoter.rtSize, resolved_eq, Option.map_some, staticShape, Ty.lower_eq _ suits fits]
  | .array low high elem, discs, _, resolved, regular, suits, counted, fits => by
      obtain ⟨lo, low_folded, resolved⟩ := Option.bind_eq_some_iff.mp resolved
      obtain ⟨hi, high_folded, resolved⟩ := Option.bind_eq_some_iff.mp resolved
      split at resolved
      · obtain ⟨elem_ty, elem_resolved, rfl⟩ := Option.map_eq_some_iff.mp resolved
        rw [Ty.counted, Bool.and_eq_true, decide_eq_true_eq] at counted
        have elem_align : elem.rtAlign dl = (elem_ty.shape pointer).align :=
          elem.rtAlign_eq elem_resolved suits (elem_fits fits)
        cases discs with
        | some discs =>
            rw [Denoter.regular, Bool.and_eq_true, Bool.and_eq_true] at regular
            have elem_size : elem.rtSize dl (some discs) = some (elem_ty.shape pointer).size :=
              elem.rtSize_eq elem_resolved regular.2.2 suits counted.2 (elem_fits fits)
            simp only [Denoter.rtSize]
            rw [bounds_eq regular.1 regular.2.1 low_folded high_folded, Option.bind_some, elem_size,
              Option.bind_some, elem_align, stride_eq (elem_ty.storable pointer) counted.1 fits]
            rfl
        | none =>
            have elem_size : elem.rtSize dl none = some (elem_ty.shape pointer).size :=
              elem.rtSize_eq elem_resolved regular suits counted.2 (elem_fits fits)
            rw [Option.getD_none] at low_folded high_folded
            simp only [Denoter.rtSize, low_folded, high_folded, Option.bind_some, Option.map_some,
              elem_size, elem_align, stride_eq (elem_ty.storable pointer) counted.1 fits]
            rfl
      · cases resolved
  | .indexed index elem, discs, _, resolved, regular, suits, counted, fits => by
      obtain ⟨elem_ty, elem_resolved, rfl⟩ := Option.map_eq_some_iff.mp resolved
      rw [Ty.counted, Bool.and_eq_true, decide_eq_true_eq] at counted
      have elem_align : elem.rtAlign dl = (elem_ty.shape pointer).align :=
        elem.rtAlign_eq elem_resolved suits (elem_fits fits)
      have elem_size : elem.rtSize dl discs = some (elem_ty.shape pointer).size :=
        elem.rtSize_eq elem_resolved regular suits counted.2 (elem_fits fits)
      rw [Denoter.rtSize, elem_size, Option.bind_some, elem_align,
        stride_eq (elem_ty.storable pointer) counted.1 fits]
      rfl
  | .record packed fields variant, discs, _, resolved, regular, suits, counted, fits => by
      have whole_resolved := resolved
      obtain ⟨own, fields_resolved, resolved⟩ := Option.bind_eq_some_iff.mp resolved
      obtain ⟨part, variant_resolved, rfl⟩ := Option.map_eq_some_iff.mp resolved
      have storable := record_storable_slots pointer packed own part
      have record_align_eq : (if packed then 1 else max (fields.rtAlign dl) (variant.rtAlign dl)) =
          (recordOf pointer packed own part).align :=
        (Denoter.record packed fields variant).rtAlign_eq whole_resolved suits fits
      rw [Ty.suits, Bool.and_eq_true, Bool.and_eq_true] at suits
      rw [Ty.counted, Bool.and_eq_true] at counted
      rw [Denoter.regular, Bool.and_eq_true] at regular
      change (recordOf pointer packed own part).shape.size < 2 ^ 63 at fits
      have whole_fits := (recordOf pointer packed own part).finish_le_size
      obtain ⟨fields_fits, -, -⟩ := record_fits pointer fits
      have power := Record.align_power fun slot is_slot => (storable slot is_slot).sound
      rw [Denoter.rtSize, fields.rtWalk_eq fields_resolved regular.1 suits.2.1 counted.1 fields_fits,
        Option.bind_some, variant.rtWalk_eq variant_resolved regular.2 suits.2.2 counted.2
          (whole_fits.trans_lt fits), Option.map_some, record_align_eq]
      exact congrArg some (alignUpV_eq power (slotsAlign_bound storable) (whole_fits.trans_lt fits))
  | .schema actuals last body, discs, _, resolved, regular, suits, counted, fits => by
      obtain ⟨inner, actuals_folded, resolved⟩ := Option.bind_eq_some_iff.mp resolved
      obtain ⟨body_ty, body_resolved, rfl⟩ := Option.map_eq_some_iff.mp resolved
      rw [Denoter.regular] at regular
      cases reads : actuals.any Extent.reads with
      | false =>
          have forms_eq : actualForms actuals = [] := by rw [actualForms, reads, if_neg (by decide)]
          have last_folded : foldAll last actuals = some inner :=
            (foldAll_eq_of_not_reads reads last _).trans actuals_folded
          have lower_eq : (Ty.lower dl body_ty).shape dl = body_ty.shape pointer :=
            Ty.lower_eq body_ty suits fits
          simp only [Denoter.rtSize, forms_eq, last_folded, Option.bind_some, body_resolved,
            Option.map_some, staticShape, lower_eq]
          rfl
      | true =>
          rw [reads, if_pos rfl, Bool.and_eq_true, actuals_folded] at regular
          cases discs with
          | none =>
              rw [Option.getD_none, foldAll_of_reads reads] at actuals_folded
              cases actuals_folded
          | some discs =>
              obtain ⟨forms, mapped, emitted, filled⟩ := emitAll_eq_foldAll regular.1 actuals_folded
              have forms_eq : actualForms actuals = forms := by
                rw [actualForms, reads, if_pos rfl, mapped, Option.getD_some]
              have body_size : body.rtSize dl (some inner) = some (body_ty.shape pointer).size :=
                body.rtSize_eq body_resolved regular.2 suits counted fits
              cases forms with
              | nil =>
                  have actuals_filled : actuals ≠ [] := by
                    rintro rfl
                    exact Bool.false_ne_true reads
                  exact absurd rfl (filled actuals_filled)
              | cons form others =>
                  have emitted_eq : emitAll discs (form :: others) = some inner := emitted
                  simp only [Denoter.rtSize, forms_eq]
                  rw [emitted_eq, Option.bind_some, body_size]
                  rfl

theorem FieldDecls.rtWalk_eq {packed : Bool} : (fields : FieldDecls) →
    {discs : Option (List Int)} → {own : Fields} → {walk : RtWalk} →
    fields.resolve (discs.getD []) = some own → fields.regular discs = true →
    Fields.suits dl pointer own = true → own.counted = true →
    finish walk.off (own.slots pointer packed) < 2 ^ 63 →
    fields.rtWalk dl packed discs walk = some (walk.after (own.slots pointer packed))
  | .nil, _, _, walk, resolved, _, _, _, _ => by
      obtain rfl := Option.some.inj resolved
      exact congrArg some walk.after_nil.symm
  | .cons name type rest, _, _, walk, resolved, regular, suits, counted, fits => by
      obtain ⟨ty, type_resolved, resolved⟩ := Option.bind_eq_some_iff.mp resolved
      obtain ⟨others, rest_resolved, rfl⟩ := Option.map_eq_some_iff.mp resolved
      rw [Fields.suits, Bool.and_eq_true] at suits
      rw [Fields.counted, Bool.and_eq_true] at counted
      rw [FieldDecls.regular, Bool.and_eq_true] at regular
      rw [Fields.slots] at fits
      obtain ⟨size_le, slot_le⟩ := size_le_finish walk.off (slot packed name (ty.shape pointer))
        (others.slots pointer packed)
      have size_eq : (slot packed name (ty.shape pointer)).shape.size = (ty.shape pointer).size := by
        cases packed <;> rfl
      have ty_fits : (ty.shape pointer).size < 2 ^ 63 := by omega
      rw [FieldDecls.rtWalk, type.rtAlign_eq type_resolved suits.1 ty_fits,
        type.rtSize_eq type_resolved regular.1 suits.1 counted.1 ty_fits,
        RtWalk.place_eq (ty.storable pointer) (by omega), Option.bind_some,
        rest.rtWalk_eq rest_resolved regular.2 suits.2 counted.2 (by exact fits),
        ← RtWalk.after_append]
      rfl

/-- The variant part of a record, behind slots of its own. -/
theorem VariantDecl.rtWalk_eq {packed : Bool} {own : List (Slot Text)} : (variant : VariantDecl) →
    {discs : Option (List Int)} → {part : Variant} →
    variant.resolve (discs.getD []) = some part → variant.regular discs = true →
    Variant.suits dl pointer part = true → part.counted = true →
    (Record.mk (own ++ part.tag pointer packed) (part.arms pointer packed)).finish < 2 ^ 63 →
    variant.rtWalk dl packed false discs (RtWalk.after ⟨0, []⟩ own) =
      some ⟨(Record.mk (own ++ part.tag pointer packed) (part.arms pointer packed)).finish,
        named (Record.mk (own ++ part.tag pointer packed) (part.arms pointer packed)).placed⟩
  | .absent, _, _, resolved, _, _, _, _ => by
      obtain rfl := Option.some.inj resolved
      simp [VariantDecl.rtWalk, RtWalk.after, Variant.tag, Variant.arms, Record.finish, Record.placed,
        Record.base, Arms.finish, Arms.slots, Arms.placed, slotsAlign]
  | .tagged tagField tagType cases, _, _, resolved, regular, suits, counted, fits => by
      obtain ⟨ty, type_resolved, resolved⟩ := Option.bind_eq_some_iff.mp resolved
      obtain ⟨resolved_cases, cases_resolved, rfl⟩ := Option.map_eq_some_iff.mp resolved
      rw [Variant.suits, Bool.and_eq_true] at suits
      rw [Variant.counted, Bool.and_eq_true] at counted
      rw [VariantDecl.regular, Bool.and_eq_true] at regular
      have own_bound := (Record.mk (own ++ [slot packed tagField (ty.shape pointer)])
        (resolved_cases.arms pointer packed)).own_le_base
      have base_bound := (Record.mk (own ++ [slot packed tagField (ty.shape pointer)])
        (resolved_cases.arms pointer packed)).base_le_finish
      have size_le := (size_le_finish (finish 0 own) (slot packed tagField (ty.shape pointer)) []).1
      have size_eq : (slot packed tagField (ty.shape pointer)).shape.size = (ty.shape pointer).size := by
        cases packed <;> rfl
      simp only [Variant.tag, Variant.arms] at fits ⊢
      simp only [finish_append] at own_bound
      have ty_fits : (ty.shape pointer).size < 2 ^ 63 := by omega
      rw [VariantDecl.rtWalk, tagType.rtAlign_eq type_resolved suits.1 ty_fits,
        tagType.rtSize_eq type_resolved regular.1 suits.1 counted.1 ty_fits,
        RtWalk.place_eq (ty.storable pointer) (by show finish (finish 0 own) _ < _; omega),
        Option.bind_some, ← RtWalk.after_append]
      simp only [Bool.false_eq_true, if_false]
      rw [cases.runAlign_eq cases_resolved suits.2 fits, RtWalk.after_off,
        arms_start (resolved_cases.storable pointer packed) fits]
      have start : (Record.mk (own ++ [slot packed tagField (ty.shape pointer)]) (resolved_cases.arms pointer packed)).base ≤
          (RtWalk.mk (Record.mk (own ++ [slot packed tagField (ty.shape pointer)]) (resolved_cases.arms pointer packed)).base
            (named (placed 0 (own ++ [slot packed tagField (ty.shape pointer)])))).off := le_rfl
      refine (cases.rtWalk_eq cases_resolved regular.2 suits.2 counted.2 start fits).trans ?_
      simp only [← named_append]
      rw [Nat.max_eq_right (by exact base_bound)]
      rfl
  | .tagless cases, _, _, resolved, regular, suits, counted, fits => by
      obtain ⟨resolved_cases, cases_resolved, rfl⟩ := Option.map_eq_some_iff.mp resolved
      have base_bound := (Record.mk own (resolved_cases.arms pointer packed)).base_le_finish
      simp only [Variant.tag, Variant.arms, List.append_nil] at fits ⊢
      simp only [VariantDecl.rtWalk, Bool.false_eq_true, if_false]
      rw [cases.runAlign_eq cases_resolved suits fits, RtWalk.after_off,
        arms_start (resolved_cases.storable pointer packed) fits]
      have start : (Record.mk own (resolved_cases.arms pointer packed)).base ≤
          (RtWalk.mk (Record.mk own (resolved_cases.arms pointer packed)).base
            (named (placed 0 own))).off := le_rfl
      refine (cases.rtWalk_eq cases_resolved regular suits counted start fits).trans ?_
      simp only [← named_append]
      rw [Nat.max_eq_right (by exact base_bound)]
      rfl

/-- A variant part of an arm. -/
theorem VariantDecl.rtWalk_nested {packed : Bool} : (variant : VariantDecl) →
    {discs : Option (List Int)} → {part : Variant} → {walk : RtWalk} →
    variant.resolve (discs.getD []) = some part → variant.regular discs = true →
    Variant.suits dl pointer part = true → part.counted = true →
    (part.part pointer packed).finish walk.off < 2 ^ 63 →
    variant.rtWalk dl packed true discs walk = some (walk.afterPart (part.part pointer packed))
  | .absent, _, _, walk, resolved, _, _, _, _ => by
      obtain rfl := Option.some.inj resolved
      simp [VariantDecl.rtWalk, RtWalk.afterPart, Variant.part, Tail.finish, Tail.placed, named]
  | .tagged tagField tagType cases, _, _, walk, resolved, regular, suits, counted, fits => by
      obtain ⟨ty, type_resolved, resolved⟩ := Option.bind_eq_some_iff.mp resolved
      obtain ⟨resolved_cases, cases_resolved, rfl⟩ := Option.map_eq_some_iff.mp resolved
      rw [Variant.suits, Bool.and_eq_true] at suits
      rw [Variant.counted, Bool.and_eq_true] at counted
      rw [VariantDecl.regular, Bool.and_eq_true] at regular
      rw [Variant.part, Tail.finish] at fits
      have ends := (resolved_cases.arms pointer packed).le_finish
        (finish walk.off [slot packed tagField (ty.shape pointer)])
      have size_le := (size_le_finish walk.off (slot packed tagField (ty.shape pointer)) []).1
      have size_eq : (slot packed tagField (ty.shape pointer)).shape.size = (ty.shape pointer).size := by
        cases packed <;> rfl
      have ty_fits : (ty.shape pointer).size < 2 ^ 63 := by omega
      rw [VariantDecl.rtWalk, tagType.rtAlign_eq type_resolved suits.1 ty_fits,
        tagType.rtSize_eq type_resolved regular.1 suits.1 counted.1 ty_fits,
        RtWalk.place_eq (ty.storable pointer) (by omega), Option.bind_some]
      simp only [if_true]
      rw [cases.rtWalk_eq cases_resolved regular.2 suits.2 counted.2 le_rfl fits]
      simp only [RtWalk.afterPart, Variant.part, Tail.finish, Tail.placed, RtWalk.after, named_append,
        List.append_assoc, Nat.max_eq_right ends]
  | .tagless cases, _, _, walk, resolved, regular, suits, counted, fits => by
      obtain ⟨resolved_cases, cases_resolved, rfl⟩ := Option.map_eq_some_iff.mp resolved
      have ends := (resolved_cases.arms pointer packed).le_finish walk.off
      simp only [VariantDecl.rtWalk, if_true]
      rw [cases.rtWalk_eq cases_resolved regular suits counted le_rfl fits, Nat.max_eq_right ends]
      rfl

theorem CaseDecls.rtWalk_eq {packed : Bool} : (cases : CaseDecls) →
    {discs : Option (List Int)} → {resolved_cases : Cases} → {base : Nat} → {walk : RtWalk} →
    cases.resolve (discs.getD []) = some resolved_cases → cases.regular discs = true →
    Cases.suits dl pointer resolved_cases = true → resolved_cases.counted = true → base ≤ walk.off →
    (resolved_cases.arms pointer packed).finish base < 2 ^ 63 →
    cases.rtWalk dl packed discs base walk =
      some ⟨max walk.off ((resolved_cases.arms pointer packed).finish base),
        walk.offsets ++ named ((resolved_cases.arms pointer packed).placed base)⟩
  | .nil, _, _, base, walk, resolved, _, _, _, le, _ => by
      obtain rfl := Option.some.inj resolved
      simp [CaseDecls.rtWalk, Cases.arms, Arms.finish, Arms.placed, named, Nat.max_eq_left le]
  | .cons fields nested rest, _, _, base, walk, resolved, regular, suits, counted, le, fits => by
      obtain ⟨own, fields_resolved, resolved⟩ := Option.bind_eq_some_iff.mp resolved
      obtain ⟨part, nested_resolved, resolved⟩ := Option.bind_eq_some_iff.mp resolved
      obtain ⟨others, rest_resolved, rfl⟩ := Option.map_eq_some_iff.mp resolved
      rw [Cases.suits, Bool.and_eq_true, Bool.and_eq_true] at suits
      rw [Cases.counted, Bool.and_eq_true, Bool.and_eq_true] at counted
      rw [CaseDecls.regular, Bool.and_eq_true, Bool.and_eq_true] at regular
      rw [Cases.arms, Arms.finish, max_lt_iff] at fits
      have inner := (part.part pointer packed).le_finish (finish base (own.slots pointer packed))
      have own_eq : fields.rtWalk dl packed _ ⟨base, walk.offsets⟩ = some _ :=
        fields.rtWalk_eq fields_resolved regular.1 suits.1 counted.1 (by show finish base _ < _; omega)
      rw [CaseDecls.rtWalk, own_eq, Option.bind_some,
        nested.rtWalk_nested nested_resolved regular.2.1 suits.2.1 counted.2.1 fits.1,
        Option.bind_some,
        rest.rtWalk_eq rest_resolved regular.2.2 suits.2.2 counted.2.2
          (le.trans (Nat.le_max_left ..)) fits.2]
      simp only [RtWalk.afterPart, RtWalk.after, Cases.arms, Arms.finish, Arms.placed, named_append,
        Nat.max_assoc, List.append_assoc]

end

/-- The walk over a record comes to its slots and its arms. -/
theorem recordRtWalk_eq {packed : Bool} {fields : FieldDecls} {variant : VariantDecl}
    {discs : Option (List Int)} {own : Fields} {part : Variant}
    (fields_resolved : fields.resolve (discs.getD []) = some own)
    (variant_resolved : variant.resolve (discs.getD []) = some part)
    (regular : (Denoter.record packed fields variant).regular discs = true)
    (suits : Ty.suits dl pointer (.record packed own part) = true)
    (counted : (Ty.record packed own part).counted = true)
    (fits : (recordOf pointer packed own part).shape.size < 2 ^ 63) :
    recordRtWalk dl packed fields variant discs =
      some ⟨(recordOf pointer packed own part).finish,
        named (recordOf pointer packed own part).placed⟩ := by
  rw [Ty.suits, Bool.and_eq_true, Bool.and_eq_true] at suits
  rw [Ty.counted, Bool.and_eq_true] at counted
  rw [Denoter.regular, Bool.and_eq_true] at regular
  have whole_fits := (recordOf pointer packed own part).finish_le_size
  obtain ⟨fields_fits, -, -⟩ := record_fits pointer fits
  rw [recordRtWalk, fields.rtWalk_eq fields_resolved regular.1 suits.2.1 counted.1 fields_fits,
    Option.bind_some, variant.rtWalk_eq variant_resolved regular.2 suits.2.2 counted.2
      (whole_fits.trans_lt fits)]
  rfl

end Plang.CodeGen.SchemaWalk
