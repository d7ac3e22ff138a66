import Plang.CodeGen.RecordTypes

/-!
# The generator's layouts are natural

On a target that suits a type, what the generator lowers it to takes what the checker says, and has
every field of a record where the checker has it.
-/

namespace Plang.CodeGen.RecordTypes

open Plang.Sema.Storage StructLayout

variable {dl : DataLayout} {pointer : PointerWidth}

theorem shapesOf_append (packed : Bool) (front back : List LType) :
    shapesOf dl packed (front ++ back) = shapesOf dl packed front ++ shapesOf dl packed back := by
  induction front with
  | nil => rfl
  | cons elem rest induction => rw [List.cons_append, shapesOf, shapesOf, induction, List.cons_append]

theorem slot_shape (packed : Bool) (name : Text) (shape : Shape) :
    (slot packed name shape).shape = pack packed shape := rfl

/-- The shape of the storage of the arms, where the target has its cells. -/
theorem variantBlobType_shape {size align : Nat} (power : align.isPowerOfTwo) (bound : align ≤ 16)
    (suits : (LType.int (8 * align)).shape dl = ⟨align, align⟩) :
    (variantBlobType size align).shape dl = ⟨roundUp size align, align⟩ := by
  have positive := Nat.pos_of_isPowerOfTwo power
  have unit_eq : (if 16 ≤ align then 16 else if 8 ≤ align then 8 else if 4 ≤ align then 4
      else if 2 ≤ align then 2 else 1) = align := by
    obtain ⟨k, rfl⟩ := power
    have k_le : k ≤ 4 := (Nat.pow_le_pow_iff_right (by omega) (m := 4)).mp bound
    have cases : k = 0 ∨ k = 1 ∨ k = 2 ∨ k = 3 ∨ k = 4 := by omega
    rcases cases with rfl | rfl | rfl | rfl | rfl <;> rfl
  rw [variantBlobType]
  simp only [unit_eq, LType.shape] at suits ⊢
  rw [suits, roundUp, if_neg (by omega)]

/-- A component that is placed ends where its slot does. -/
theorem placeIn_eq (name : Text) {packed : Bool} {position : Nat} {ty : LType} {shape : Shape}
    (storable : Storable shape) (shape_eq : ty.shape dl = shape)
    (fits : finish position [slot packed name shape] < 2 ^ 63) :
    placeIn dl packed position ty = finish position [slot packed name shape] ∧
      roundUp64 position (if packed then 1 else (ty.shape dl).align) =
        roundUp position (slot packed name shape).shape.align := by
  have slot_storable : Storable (slot packed name shape).shape := slot_storable storable
  have align_eq : (slot packed name shape).shape.align = if packed then 1 else shape.align := by
    cases packed <;> rfl
  have size_eq : (slot packed name shape).shape.size = shape.size := by cases packed <;> rfl
  have lower := le_roundUp position (slot packed name shape).shape.align
  simp only [finish] at fits ⊢
  rw [placeIn, shape_eq, ← align_eq, ← size_eq,
    roundUp64_eq (by omega : position < 2 ^ 63) slot_storable.bound]
  exact ⟨u64_eq fits, rfl⟩

/-- The slots that a record's elements are laid out as. -/
def elementSlots (record : Record Text) : List (Slot Text) :=
  record.own ++ if 0 < record.arms.finish 0 then
    [⟨[], ⟨roundUp (record.arms.finish 0) (slotsAlign record.arms.slots),
      slotsAlign record.arms.slots⟩⟩] else []

section Elements

variable {record : Record Text}

/-- The storage of the arms stands where the record has them. -/
theorem element_base (filled : 0 < record.arms.finish 0) :
    placed 0 (elementSlots record) = placed 0 record.own ++
      [(⟨[], ⟨roundUp (record.arms.finish 0) (slotsAlign record.arms.slots),
        slotsAlign record.arms.slots⟩⟩, record.base)] := by
  rw [elementSlots, if_pos filled, placed_append]
  rfl

variable (storable : ∀ slot ∈ record.slots, Storable slot.shape)

include storable

/-- A structure of the elements takes what the record does. -/
theorem elements_shape :
    (⟨roundUp (finish 0 (elementSlots record)) (slotsAlign (elementSlots record)),
      slotsAlign (elementSlots record)⟩ : Shape) = record.shape := by
  have arms_storable : ∀ slot ∈ record.arms.slots, Storable slot.shape :=
    fun slot is_slot => storable slot (List.mem_append_right _ is_slot)
  have positive : 0 < slotsAlign record.arms.slots := one_le_slotsAlign _
  have record_positive : 0 < record.align :=
    Record.align_positive fun slot is_slot => (storable slot is_slot).sound
  have align_eq : slotsAlign (elementSlots record) = record.align := by
    rw [elementSlots, slotsAlign_append, Record.align, Record.slots, slotsAlign_append]
    split
    · simp only [slotsAlign]
      rw [Nat.max_eq_left positive]
    · rename_i empty
      rw [Arms.align_of_hollow (fun slot is_slot => (arms_storable slot is_slot).sound)
        (by omega : record.arms.finish 0 = 0)]
      rfl
  rw [align_eq, Record.shape]
  congr 1
  by_cases filled : 0 < record.arms.finish 0
  · have blob_eq := (base_add_blob storable).1
    have finish_eq : finish 0 (elementSlots record) =
        roundUp record.finish (slotsAlign record.arms.slots) := by
      rw [elementSlots, if_pos filled, finish_append, ← blob_eq]
      rfl
    rw [finish_eq, roundUp_roundUp positive record_positive (arms_dvd_align storable)]
  · have hollow : slotsAlign record.arms.slots = 1 :=
      Arms.align_of_hollow (fun slot is_slot => (arms_storable slot is_slot).sound)
        (by omega : record.arms.finish 0 = 0)
    rw [elementSlots, if_neg filled, List.append_nil, finish_eq_base_add storable, Record.base, hollow,
      roundUp_one, show record.arms.finish 0 = 0 by omega, Nat.add_zero]

end Elements

/-- The element that the arms share, with the slots that have it. -/
theorem blob_shapes {packed : Bool} {arms : Arms Text} {size align : Nat}
    (storable : ∀ slot ∈ arms.slots, Storable slot.shape) (size_eq : size = arms.finish 0)
    (align_eq : (if packed then 1 else align) = slotsAlign arms.slots)
    (suits : (LType.int (8 * slotsAlign arms.slots)).shape dl =
      ⟨slotsAlign arms.slots, slotsAlign arms.slots⟩) :
    shapesOf dl packed
        (if 0 < size then [variantBlobType size (if packed then 1 else align)] else []) =
      (elementSlots ⟨[], arms⟩).map Slot.shape := by
  rw [align_eq, size_eq, elementSlots, List.nil_append]
  by_cases filled : 0 < arms.finish 0
  · rw [if_pos filled, if_pos filled]
    have power : (slotsAlign arms.slots).isPowerOfTwo :=
      slotsAlign_power fun slot is_slot => (storable slot is_slot).sound.power
    rw [shapesOf, variantBlobType_shape power (slotsAlign_bound storable) suits, shapesOf]
    cases packed with
    | true =>
        have one : slotsAlign arms.slots = 1 := align_eq.symm
        rw [one]
        rfl
    | false => rfl
  · rw [if_neg filled, if_neg filled]
    rfl

/-- The slots of a record fit if the record does. -/
theorem slots_fit {packed : Bool} {fields : Fields} {variant : Variant} {limit : Nat}
    (fits : (recordOf pointer packed fields variant).shape.size < limit) :
    (∀ slot ∈ fields.slots pointer packed, slot.shape.size < limit) ∧
      ∀ slot ∈ (variant.part pointer packed).slots, slot.shape.size < limit := by
  have all_fit : ∀ slot ∈ (recordOf pointer packed fields variant).slots, slot.shape.size < limit :=
    fun slot is_slot => (Record.size_le is_slot).trans_lt fits
  constructor
  · intro slot is_slot
    exact all_fit slot (List.mem_append_left _ (List.mem_append_left _ is_slot))
  · intro slot is_slot
    rw [variant.part_slots] at is_slot
    apply all_fit slot
    rw [Record.slots, recordOf, List.append_assoc]
    exact List.mem_append_right _ is_slot

mutual

/-- What a type is lowered to takes what the checker says. -/
theorem Ty.lower_eq : (ty : Ty) → Ty.suits dl pointer ty = true →
    (ty.shape pointer).size < 2 ^ 63 → (Ty.lower dl ty).shape dl = ty.shape pointer
  | .cell kind, suits, _ => of_decide_eq_true suits
  | .array index elem, suits, fits => by
      have elem_eq := Ty.lower_eq elem suits (elem_fits fits)
      rw [Ty.lower, LType.shape, elem_eq]
      rfl
  | .record packed fields variant, suits, fits => by
      rw [Ty.suits, Bool.and_eq_true, Bool.and_eq_true, decide_eq_true_eq] at suits
      change (recordOf pointer packed fields variant).shape.size < 2 ^ 63 at fits
      obtain ⟨fields_fits, own_fits, arms_fits⟩ := record_fits pointer fits
      have variant_eq := Variant.lower_eq variant suits.2.2 own_fits arms_fits suits.1
      rw [Ty.lower, LType.shape, shapesOf_append, Fields.lower_eq fields suits.2.1 fields_fits,
        variant_eq, ← List.map_append, ← List.append_assoc, struct_map]
      exact elements_shape (record_storable_slots pointer packed fields variant)
  | .object object, suits, fits => by
      rw [Ty.lower, LType.shape, Obj.lower_eq object suits fits, struct_map, ← object_shape]
      rfl
  | .schemaInstance body, suits, fits => Ty.lower_eq body suits fits

theorem Obj.lower_eq : (object : Obj) → Obj.suits dl pointer object = true →
    (Record.mk (object.slots pointer) Arms.nil).shape.size < 2 ^ 63 →
    shapesOf dl false (Obj.lower dl object) = (object.slots pointer).map Slot.shape
  | .root fields declares, suits, fits => by
      rw [Obj.suits, Bool.and_eq_true] at suits
      rw [Obj.lower, shapesOf_append, Fields.lower_eq fields suits.1 (front_fits fits), Obj.slots,
        List.map_append]
      congr 1
      cases declares with
      | true =>
          have vptr := of_decide_eq_true suits.2
          simp only [if_true, shapesOf, vptr]
          rfl
      | false => rfl
  | .derived parent fields declares, suits, fits => by
      rw [Obj.suits, Bool.and_eq_true, Bool.and_eq_true] at suits
      rw [Obj.slots, ← List.cons_append] at fits
      have whole_fits := front_fits fits
      have parent_fits := (size_le_finish 0
        ⟨[], (Record.mk (parent.slots pointer) Arms.nil).shape⟩ (fields.slots pointer false)).1
      have parent_eq : (LType.struct false (Obj.lower dl parent)).shape dl =
          (Record.mk (parent.slots pointer) Arms.nil).shape := by
        rw [LType.shape, Obj.lower_eq parent suits.1 (lt_of_le_of_lt parent_fits whole_fits),
          struct_map, ← object_shape]
      rw [Obj.lower, shapesOf, parent_eq, shapesOf_append,
        Fields.lower_eq fields suits.2.1 (by exact whole_fits), Obj.slots, List.map_cons,
        List.map_append]
      congr 2
      cases introduces : declares && !parent.hasVmt with
      | true =>
          rw [introduces] at suits
          have vptr := of_decide_eq_true suits.2.2
          simp only [if_true, shapesOf, vptr]
          rfl
      | false => rfl

theorem Fields.lower_eq {packed : Bool} {position : Nat} : (fields : Fields) →
    Fields.suits dl pointer fields = true → finish position (fields.slots pointer packed) < 2 ^ 63 →
    shapesOf dl packed (Fields.lower dl fields) = (fields.slots pointer packed).map Slot.shape
  | .nil, _, _ => rfl
  | .cons name ty rest, suits, fits => by
      rw [Fields.suits, Bool.and_eq_true] at suits
      have size_le := (size_le_finish position (slot packed name (ty.shape pointer))
        (rest.slots pointer packed)).1
      have size_eq : (slot packed name (ty.shape pointer)).shape.size = (ty.shape pointer).size := by
        cases packed <;> rfl
      rw [Fields.slots] at fits
      rw [Fields.lower, shapesOf, Ty.lower_eq ty suits.1 (by omega),
        Fields.lower_eq rest suits.2 (by exact fits), Fields.slots, List.map_cons, slot_shape]

/-- The tag and the storage of the arms, behind slots of a record's own. -/
theorem Variant.lower_eq {packed : Bool} {own : List (Slot Text)} : (variant : Variant) →
    Variant.suits dl pointer variant = true →
    finish 0 (own ++ variant.tag pointer packed) < 2 ^ 63 →
    (variant.arms pointer packed).finish 0 < 2 ^ 63 →
    (LType.int (8 * slotsAlign (variant.arms pointer packed).slots)).shape dl =
      ⟨slotsAlign (variant.arms pointer packed).slots,
        slotsAlign (variant.arms pointer packed).slots⟩ →
    shapesOf dl packed (Variant.lower dl packed variant) =
      (variant.tag pointer packed ++ (elementSlots ⟨[], variant.arms pointer packed⟩)).map Slot.shape
  | .absent, _, _, _, _ => rfl
  | .tagged tagField tagType cases, suits, own_fits, arms_fits, unit_eq => by
      rw [Variant.suits, Bool.and_eq_true] at suits
      rw [Variant.tag, finish_append] at own_fits
      have size_le := (size_le_finish (finish 0 own) (slot packed tagField (tagType.shape pointer)) []).1
      have size_eq : (slot packed tagField (tagType.shape pointer)).shape.size =
          (tagType.shape pointer).size := by cases packed <;> rfl
      have reach_eq : Cases.reach dl packed 0 cases 0 = (cases.arms pointer packed).finish 0 := by
        rw [Cases.reach_eq cases suits.2 le_rfl arms_fits, Nat.zero_max]
      have align_eq : (if packed then 1 else Cases.runAlign dl cases) =
          slotsAlign (cases.arms pointer packed).slots := by
        cases packed with
        | true => exact (cases.packed_align pointer).symm
        | false =>
            exact Cases.runAlign_eq cases suits.2
              fun _ is_slot => (Arms.size_le_finish 0 is_slot).trans_lt arms_fits
      rw [Variant.lower, shapesOf, Ty.lower_eq tagType suits.1 (by omega), Variant.tag,
        List.singleton_append, List.map_cons, slot_shape,
        blob_shapes (cases.storable pointer packed) reach_eq align_eq unit_eq]
      rfl
  | .tagless cases, suits, _, arms_fits, unit_eq => by
      have reach_eq : Cases.reach dl packed 0 cases 0 = (cases.arms pointer packed).finish 0 := by
        rw [Cases.reach_eq cases suits le_rfl arms_fits, Nat.zero_max]
      have align_eq : (if packed then 1 else Cases.runAlign dl cases) =
          slotsAlign (cases.arms pointer packed).slots := by
        cases packed with
        | true => exact (cases.packed_align pointer).symm
        | false =>
            exact Cases.runAlign_eq cases suits
              fun _ is_slot => (Arms.size_le_finish 0 is_slot).trans_lt arms_fits
      rw [Variant.lower]
      exact blob_shapes (cases.storable pointer packed) reach_eq align_eq unit_eq

theorem Fields.reach_eq {packed : Bool} : (fields : Fields) → {position : Nat} →
    Fields.suits dl pointer fields = true → finish position (fields.slots pointer packed) < 2 ^ 63 →
    Fields.reach dl packed fields position = finish position (fields.slots pointer packed)
  | .nil, _, _, _ => rfl
  | .cons name ty rest, position, suits, fits => by
      rw [Fields.suits, Bool.and_eq_true] at suits
      rw [Fields.slots] at fits
      obtain ⟨size_le, slot_le⟩ := size_le_finish position (slot packed name (ty.shape pointer))
        (rest.slots pointer packed)
      have size_eq : (slot packed name (ty.shape pointer)).shape.size = (ty.shape pointer).size := by
        cases packed <;> rfl
      have ty_eq := Ty.lower_eq ty suits.1 (by omega)
      rw [Fields.reach, (placeIn_eq name (ty.storable pointer) ty_eq (by omega)).1,
        Fields.reach_eq rest suits.2 (by exact fits)]
      rfl

theorem Variant.reach_eq {packed : Bool} : (variant : Variant) → {position : Nat} →
    Variant.suits dl pointer variant = true →
    (variant.part pointer packed).finish position < 2 ^ 63 →
    Variant.reach dl packed variant position = (variant.part pointer packed).finish position
  | .absent, _, _, _ => rfl
  | .tagged tagField tagType cases, position, suits, fits => by
      rw [Variant.suits, Bool.and_eq_true] at suits
      rw [Variant.part, Tail.finish] at fits
      have ends := (cases.arms pointer packed).le_finish
        (finish position [slot packed tagField (tagType.shape pointer)])
      have size_le := (size_le_finish position (slot packed tagField (tagType.shape pointer)) []).1
      have size_eq : (slot packed tagField (tagType.shape pointer)).shape.size =
          (tagType.shape pointer).size := by cases packed <;> rfl
      have ty_eq := Ty.lower_eq tagType suits.1 (by omega)
      rw [Variant.reach, (placeIn_eq tagField (tagType.storable pointer) ty_eq (by omega)).1,
        Cases.reach_eq cases suits.2 le_rfl fits, Nat.max_eq_right ends]
      rfl
  | .tagless cases, position, suits, fits => by
      have ends := (cases.arms pointer packed).le_finish position
      have reach_eq : Cases.reach dl packed position cases position = _ :=
        Cases.reach_eq cases suits le_rfl fits
      rw [Variant.reach, reach_eq, Nat.max_eq_right ends]
      rfl

theorem Cases.reach_eq {packed : Bool} : (cases : Cases) → {base furthest : Nat} →
    Cases.suits dl pointer cases = true → base ≤ furthest →
    (cases.arms pointer packed).finish base < 2 ^ 63 →
    Cases.reach dl packed base cases furthest =
      max furthest ((cases.arms pointer packed).finish base)
  | .nil, _, _, _, le, _ => (Nat.max_eq_left le).symm
  | .cons fields nested rest, base, furthest, suits, le, fits => by
      rw [Cases.suits, Bool.and_eq_true, Bool.and_eq_true] at suits
      rw [Cases.arms, Arms.finish, max_lt_iff] at fits
      have inner := (nested.part pointer packed).le_finish (finish base (fields.slots pointer packed))
      rw [Cases.reach, Fields.reach_eq fields suits.1 (by omega),
        Variant.reach_eq nested suits.2.1 fits.1,
        Cases.reach_eq rest suits.2.2 (le.trans (Nat.le_max_left ..)) fits.2, Nat.max_assoc]
      rfl

/-- A denoter is aligned as its type is. -/
theorem Ty.rtAlign_eq : (ty : Ty) → Ty.suits dl pointer ty = true →
    (ty.shape pointer).size < 2 ^ 63 → Ty.rtAlign dl ty = (ty.shape pointer).align
  | .cell kind, suits, _ => by
      have shape_eq : (Cell.lower kind).shape dl = kind.shape pointer := of_decide_eq_true suits
      cases kind with
      | varString _ => rfl
      | shortString _ => rfl
      | _ => exact congrArg Shape.align shape_eq
  | .array _ elem, suits, fits => Ty.rtAlign_eq elem suits (elem_fits fits)
  | .record packed fields variant, suits, fits => by
      rw [Ty.suits, Bool.and_eq_true, Bool.and_eq_true] at suits
      change (recordOf pointer packed fields variant).shape.size < 2 ^ 63 at fits
      change _ = (recordOf pointer packed fields variant).align
      rw [Ty.rtAlign, record_align]
      cases packed with
      | true => rw [if_pos rfl, fields.packed_align, variant.packed_align]; rfl
      | false =>
          obtain ⟨fields_fit, part_fits⟩ := slots_fit fits
          rw [if_neg (by decide), Variant.rtAlign_eq variant suits.2.2 part_fits,
            Fields.rtAlign_eq fields suits.2.1 fields_fit]
  | .object object, suits, fits => by
      rw [Ty.rtAlign, LType.shape, Obj.lower_eq object suits fits, struct_map, ← object_shape]
      rfl
  | .schemaInstance body, suits, fits => Ty.rtAlign_eq body suits fits

theorem Fields.rtAlign_eq : (fields : Fields) → Fields.suits dl pointer fields = true →
    (∀ slot ∈ fields.slots pointer false, slot.shape.size < 2 ^ 63) →
    Fields.rtAlign dl fields = slotsAlign (fields.slots pointer false)
  | .nil, _, _ => rfl
  | .cons name ty rest, suits, fits => by
      rw [Fields.suits, Bool.and_eq_true] at suits
      have ty_fits : (ty.shape pointer).size < 2 ^ 63 := fits _ List.mem_cons_self
      rw [Fields.rtAlign, Ty.rtAlign_eq ty suits.1 ty_fits, Fields.rtAlign_eq rest suits.2
        fun slot is_slot => fits slot (List.mem_cons_of_mem _ is_slot)]
      rfl

theorem Variant.rtAlign_eq : (variant : Variant) → Variant.suits dl pointer variant = true →
    (∀ slot ∈ (variant.part pointer false).slots, slot.shape.size < 2 ^ 63) →
    Variant.rtAlign dl variant = slotsAlign (variant.part pointer false).slots
  | .absent, _, _ => rfl
  | .tagged tagField tagType cases, suits, fits => by
      rw [Variant.suits, Bool.and_eq_true] at suits
      have tag_fits : (tagType.shape pointer).size < 2 ^ 63 := fits _ List.mem_cons_self
      rw [Variant.rtAlign, Ty.rtAlign_eq tagType suits.1 tag_fits, Cases.runAlign_eq cases suits.2
        fun slot is_slot => fits slot (List.mem_cons_of_mem _ is_slot)]
      rfl
  | .tagless cases, suits, fits => Cases.runAlign_eq cases suits fits

theorem Cases.runAlign_eq : (cases : Cases) → Cases.suits dl pointer cases = true →
    (∀ slot ∈ (cases.arms pointer false).slots, slot.shape.size < 2 ^ 63) →
    Cases.runAlign dl cases = slotsAlign (cases.arms pointer false).slots
  | .nil, _, _ => rfl
  | .cons fields nested rest, suits, fits => by
      rw [Cases.suits, Bool.and_eq_true, Bool.and_eq_true] at suits
      have others_fit : ∀ slot ∈ (nested.part pointer false).slots ++ (rest.arms pointer false).slots,
          slot.shape.size < 2 ^ 63 := fun slot is_slot => fits slot (List.mem_append_right _ is_slot)
      rw [Cases.runAlign,
        Fields.rtAlign_eq fields suits.1 fun slot is_slot => fits slot (List.mem_append_left _ is_slot),
        Variant.rtAlign_eq nested suits.2.1
          fun slot is_slot => others_fit slot (List.mem_append_left _ is_slot),
        Cases.runAlign_eq rest suits.2.2
          fun slot is_slot => others_fit slot (List.mem_append_right _ is_slot), Cases.arms,
        Arms.slots, slotsAlign_append, slotsAlign_append, Nat.max_assoc]

end

/-! ### Fields stand where the record has them -/

/-- The elements of a record's structure are its own slots and the storage of its arms. -/
theorem record_shapes {packed : Bool} {fields : Fields} {variant : Variant}
    (suits : Ty.suits dl pointer (.record packed fields variant) = true)
    (fits : (recordOf pointer packed fields variant).shape.size < 2 ^ 63) :
    shapesOf dl packed (Fields.lower dl fields ++ Variant.lower dl packed variant) =
      (elementSlots (recordOf pointer packed fields variant)).map Slot.shape := by
  rw [Ty.suits, Bool.and_eq_true, Bool.and_eq_true, decide_eq_true_eq] at suits
  obtain ⟨fields_fits, own_fits, arms_fits⟩ := record_fits pointer fits
  rw [shapesOf_append, Fields.lower_eq fields suits.2.1 fields_fits,
    Variant.lower_eq variant suits.2.2 own_fits arms_fits suits.1, ← List.map_append,
    ← List.append_assoc]
  rfl

/-- The places of the fields of an arm are offsets from where the arms start. -/
def sharedPlaces (blob : Nat) (entries : List (Text × Nat)) : List FieldPlace :=
  entries.map fun entry => ⟨entry.1, blob, true, entry.2⟩

theorem sharedPlaces_append (blob : Nat) (front back : List (Text × Nat)) :
    sharedPlaces blob (front ++ back) = sharedPlaces blob front ++ sharedPlaces blob back :=
  List.map_append

theorem Fields.placesIn_eq {packed : Bool} {blob : Nat} : (fields : Fields) → {position : Nat} →
    Fields.suits dl pointer fields = true → finish position (fields.slots pointer packed) < 2 ^ 63 →
    Fields.placesIn dl packed blob fields position =
      sharedPlaces blob (named (placed position (fields.slots pointer packed)))
  | .nil, _, _, _ => rfl
  | .cons name ty rest, position, suits, fits => by
      rw [Fields.suits, Bool.and_eq_true] at suits
      rw [Fields.slots] at fits
      obtain ⟨size_le, slot_le⟩ := size_le_finish position (slot packed name (ty.shape pointer))
        (rest.slots pointer packed)
      have size_eq : (slot packed name (ty.shape pointer)).shape.size = (ty.shape pointer).size := by
        cases packed <;> rfl
      have ty_eq := Ty.lower_eq ty suits.1 (by omega)
      have slot_fits : finish position [slot packed name (ty.shape pointer)] < 2 ^ 63 := by omega
      obtain ⟨end_eq, off_eq⟩ := placeIn_eq name (ty.storable pointer) ty_eq slot_fits
      rw [Fields.placesIn, end_eq, off_eq, Fields.placesIn_eq rest suits.2 (by exact fits)]
      rfl

mutual

theorem Variant.placesIn_eq {packed : Bool} {blob : Nat} : (variant : Variant) → {position : Nat} →
    Variant.suits dl pointer variant = true →
    (variant.part pointer packed).finish position < 2 ^ 63 →
    Variant.placesIn dl packed blob variant position =
      sharedPlaces blob (named ((variant.part pointer packed).placed position))
  | .absent, _, _, _ => rfl
  | .tagged tagField tagType cases, position, suits, fits => by
      rw [Variant.suits, Bool.and_eq_true] at suits
      rw [Variant.part, Tail.finish] at fits
      have ends := (cases.arms pointer packed).le_finish
        (finish position [slot packed tagField (tagType.shape pointer)])
      have size_le := (size_le_finish position (slot packed tagField (tagType.shape pointer)) []).1
      have size_eq : (slot packed tagField (tagType.shape pointer)).shape.size =
          (tagType.shape pointer).size := by cases packed <;> rfl
      have ty_eq := Ty.lower_eq tagType suits.1 (by omega)
      have slot_fits : finish position [slot packed tagField (tagType.shape pointer)] < 2 ^ 63 := by omega
      obtain ⟨end_eq, off_eq⟩ := placeIn_eq tagField (tagType.storable pointer) ty_eq slot_fits
      rw [Variant.placesIn, end_eq, off_eq, Cases.placesIn_eq cases suits.2 fits]
      rfl
  | .tagless cases, _, suits, fits => Cases.placesIn_eq cases suits fits

theorem Cases.placesIn_eq {packed : Bool} {blob : Nat} : (cases : Cases) → {base : Nat} →
    Cases.suits dl pointer cases = true → (cases.arms pointer packed).finish base < 2 ^ 63 →
    Cases.placesIn dl packed blob cases base =
      sharedPlaces blob (named ((cases.arms pointer packed).placed base))
  | .nil, _, _, _ => rfl
  | .cons fields nested rest, base, suits, fits => by
      rw [Cases.suits, Bool.and_eq_true, Bool.and_eq_true] at suits
      rw [Cases.arms, Arms.finish, max_lt_iff] at fits
      have inner := (nested.part pointer packed).le_finish (finish base (fields.slots pointer packed))
      rw [Cases.placesIn, Fields.placesIn_eq fields suits.1 (by omega),
        Fields.reach_eq fields suits.1 (by omega), Variant.placesIn_eq nested suits.2.1 fits.1,
        Cases.placesIn_eq rest suits.2.2 fits.2, Cases.arms, Arms.placed, named_append, named_append,
        sharedPlaces_append, sharedPlaces_append]

end

/-- The places of slots that are elements of their own. -/
def elementPlaces (index : Nat) : List (Slot Text) → List FieldPlace
  | [] => []
  | slot :: rest => ⟨slot.name, index, false, 0⟩ :: elementPlaces (index + 1) rest

theorem elementPlaces_append (index : Nat) (front back : List (Slot Text)) :
    elementPlaces index (front ++ back) =
      elementPlaces index front ++ elementPlaces (index + front.length) back := by
  induction front generalizing index with
  | nil => rfl
  | cons slot rest induction =>
      rw [List.cons_append, elementPlaces, elementPlaces, induction, List.length_cons,
        show index + (rest.length + 1) = index + 1 + rest.length by omega, List.cons_append]

theorem Fields.places_eq (pointer : PointerWidth) (packed : Bool) : (fields : Fields) →
    (index : Nat) → Fields.places fields index = elementPlaces index (fields.slots pointer packed)
  | .nil, _ => rfl
  | .cons _ _ rest, index => congrArg _ (Fields.places_eq pointer packed rest (index + 1))

theorem Fields.length_eq (pointer : PointerWidth) (packed : Bool) : (fields : Fields) →
    Fields.length fields = (fields.slots pointer packed).length
  | .nil => rfl
  | .cons _ _ rest => congrArg (· + 1) (Fields.length_eq pointer packed rest)

/-- Elements of their own stand where the structure has them. -/
theorem elementPlaces_offsets {front back : List Nat} {shapes : List Shape} {slots : List (Slot Text)}
    {position : Nat}
    (shapes_eq : (place 0 shapes).1 = front ++ ((placed position slots).map Prod.snd ++ back)) :
    (elementPlaces front.length slots).map (fun place => (place.name, place.offsetIn shapes)) =
      (named (placed position slots)).map fun entry => (entry.1, some entry.2) := by
  induction slots generalizing front position with
  | nil => rfl
  | cons slot rest induction =>
      have head_eq : elementOffset shapes front.length =
          some (roundUp position slot.shape.align) := by
        rw [elementOffset, shapes_eq]
        simp [placed]
      have rest_eq := @induction (front ++ [roundUp position slot.shape.align])
        (roundUp position slot.shape.align + slot.shape.size)
        (by rw [shapes_eq]; simp [placed])
      rw [List.length_append, List.length_singleton] at rest_eq
      rw [elementPlaces, List.map_cons, rest_eq]
      simp only [FieldPlace.offsetIn, head_eq, Option.map_some, Bool.false_eq_true, if_false,
        Nat.add_zero, placed, named, List.map_cons]

/-- The places of a record: its own slots as elements, and those of its arms in the next one. -/
theorem record_places {packed : Bool} {fields : Fields} {variant : Variant}
    (suits : Variant.suits dl pointer variant = true)
    (fits : (variant.arms pointer packed).finish 0 < 2 ^ 63) :
    Fields.places fields 0 ++ Variant.places dl packed (Fields.length fields) variant =
      elementPlaces 0 (recordOf pointer packed fields variant).own ++
        sharedPlaces (recordOf pointer packed fields variant).own.length
          (named ((variant.arms pointer packed).placed 0)) := by
  rw [Fields.places_eq pointer packed, Fields.length_eq pointer packed, recordOf]
  cases variant with
  | absent => simp [Variant.places, Variant.tag, Variant.arms, Arms.placed, named, sharedPlaces]
  | tagged tagField tagType cases =>
      rw [Variant.suits, Bool.and_eq_true] at suits
      rw [Variant.places, Cases.placesIn_eq cases suits.2 fits, elementPlaces_append, Variant.tag,
        List.length_append, Nat.zero_add, List.append_assoc]
      rfl
  | tagless cases =>
      rw [Variant.places, Cases.placesIn_eq cases suits fits, Variant.tag, List.append_nil]
      rfl

section Offsets

variable {packed : Bool} {fields : Fields} {variant : Variant}
  (suits : Ty.suits dl pointer (.record packed fields variant) = true)
  (fits : (recordOf pointer packed fields variant).shape.size < 2 ^ 63)

include suits fits

theorem fieldOffsets_split :
    fieldOffsets dl packed fields variant =
      (elementPlaces 0 (recordOf pointer packed fields variant).own ++
          sharedPlaces (recordOf pointer packed fields variant).own.length
            (named ((recordOf pointer packed fields variant).arms.placed 0))).map
        fun place => (place.name,
          place.offsetIn ((elementSlots (recordOf pointer packed fields variant)).map Slot.shape)) := by
  have shapes := record_shapes suits fits
  rw [Ty.suits, Bool.and_eq_true, Bool.and_eq_true] at suits
  rw [fieldOffsets, shapes, record_places suits.2.2 (record_fits pointer fits).2.2]
  rfl

/-- Where the arms take storage, or have no fields, every field stands where the record has it. -/
theorem fieldOffsets_eq
    (used : 0 < (recordOf pointer packed fields variant).arms.finish 0 ∨
      (recordOf pointer packed fields variant).arms.slots = []) :
    fieldOffsets dl packed fields variant =
      (named (recordOf pointer packed fields variant).placed).map
        fun entry => (entry.1, some entry.2) := by
  have storable := record_storable_slots pointer packed fields variant
  rw [fieldOffsets_split suits fits]
  generalize recordOf pointer packed fields variant = record at storable used ⊢
  have elements_eq : (place 0 ((elementSlots record).map Slot.shape)).1 =
      [] ++ ((placed 0 record.own).map Prod.snd ++
        if 0 < record.arms.finish 0 then [record.base] else []) := by
    rw [place_map, List.nil_append]
    by_cases filled : 0 < record.arms.finish 0
    · rw [element_base filled, if_pos filled, List.map_append]
      rfl
    · rw [elementSlots, if_neg filled, if_neg filled, List.append_nil, List.append_nil]
  have own_eq := elementPlaces_offsets elements_eq
  rw [List.length_nil] at own_eq
  rw [List.map_append, own_eq, Record.placed, named_append, List.map_append]
  congr 1
  rcases used with filled | empty
  · have base_eq : elementOffset ((elementSlots record).map Slot.shape) record.own.length =
        some record.base := by
      have length_eq : ((placed 0 record.own).map Prod.snd).length = record.own.length := by
        rw [List.length_map, ← List.length_map Prod.fst, placed_fst]
      rw [elementOffset, elements_eq, if_pos filled, List.nil_append,
        List.getElem?_append_right (by omega), length_eq, Nat.sub_self]
      rfl
    rw [placed_eq_shift storable, named_shift, sharedPlaces, List.map_map, List.map_map]
    apply List.map_congr_left
    intro entry _
    simp [FieldPlace.offsetIn, base_eq]
  · rw [Arms.placed_of_empty empty, Arms.placed_of_empty empty]
    rfl

/-- Fields of arms that take no storage have no place. -/
theorem fieldOffsets_hollow
    (hollow : (recordOf pointer packed fields variant).arms.finish 0 = 0)
    (has_fields : (recordOf pointer packed fields variant).arms.slots ≠ []) :
    ∃ name, (name, none) ∈ fieldOffsets dl packed fields variant := by
  rw [fieldOffsets_split suits fits]
  generalize recordOf pointer packed fields variant = record at hollow has_fields ⊢
  rw [← record.arms.placed_fst 0, Ne, List.map_eq_nil_iff] at has_fields
  obtain ⟨entry, is_entry⟩ := List.exists_mem_of_ne_nil _ has_fields
  refine ⟨entry.1.name, List.mem_map.mpr ⟨⟨entry.1.name, record.own.length, true, entry.2⟩,
    List.mem_append_right _ (List.mem_map.mpr ⟨(entry.1.name, entry.2),
      List.mem_map.mpr ⟨entry, is_entry, rfl⟩, rfl⟩), ?_⟩⟩
  have missing : elementOffset ((elementSlots record).map Slot.shape) record.own.length = none := by
    rw [elementOffset, place_map, elementSlots, if_neg (by omega), List.append_nil]
    apply List.getElem?_eq_none
    rw [List.length_map, ← List.length_map Prod.fst, placed_fst]
  rw [FieldPlace.offsetIn, missing]
  rfl

end Offsets

end Plang.CodeGen.RecordTypes
