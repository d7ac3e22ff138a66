import Plang.CodeGen.WalkAgreement

/-!
# The layouts of a record agree

The checker, the generator and the run-time walk each lay a record out by themselves.  On targets
that suit its type they come to one layout, unless the record has arms with fields that take no
storage: the generator has no element for those.
-/

namespace Plang.CodeGen.LayoutAgreement

open Plang.Sema.Storage StructLayout RecordTypes SchemaWalk

/-! ### What the checker has a size for -/

section Plain

variable {pointer : PointerWidth}

mutual

/-- The checker has a size for nothing that an instance of a schema is stored in. -/
theorem Ty.plain_of_size : (ty : Ty) → ty.counted = true → {size : Nat} →
    ty.byteSizeOf pointer = some size → ty.plain = true
  | .cell _, _, _, _ => rfl
  | .array index elem, counted, _, sized => by
      rw [Ty.counted, Bool.and_eq_true, decide_eq_true_eq] at counted
      rw [Ty.byteSizeOf, ordinalRangeCount_eq counted.1] at sized
      obtain ⟨size, elem_sized, -⟩ := Option.map_eq_some_iff.mp sized
      have elem_plain : elem.plain = true := Ty.plain_of_size elem counted.2 elem_sized
      exact elem_plain
  | .record packed fields variant, counted, _, sized => by
      rw [Ty.counted, Bool.and_eq_true] at counted
      obtain ⟨walk, walked, -⟩ := Option.map_eq_some_iff.mp sized
      obtain ⟨front, fields_walked, variant_walked⟩ := Option.bind_eq_some_iff.mp walked
      rw [Ty.plain, Fields.plain_of_place fields counted.1 fields_walked,
        Variant.plain_of_place variant counted.2 variant_walked]
      rfl
  | .object object, counted, _, sized => by
      obtain ⟨walk, walked, -⟩ := Option.map_eq_some_iff.mp sized
      have object_plain : object.plain = true := Obj.plain_of_place object counted walked
      exact object_plain
  | .schemaInstance _, _, _, sized => by cases sized

theorem Obj.plain_of_place : (object : Obj) → object.counted = true → {walk : Walk} →
    object.place pointer = some walk → object.plain = true
  | .root fields _, counted, _, walked => by
      obtain ⟨front, fields_walked, -⟩ := Option.map_eq_some_iff.mp walked
      have fields_plain : fields.plain = true := Fields.plain_of_place fields counted fields_walked
      exact fields_plain
  | .derived parent fields _, counted, _, walked => by
      rw [Obj.counted, Bool.and_eq_true] at counted
      obtain ⟨whole, parent_walked, walked⟩ := Option.bind_eq_some_iff.mp walked
      obtain ⟨front, fields_walked, -⟩ := Option.map_eq_some_iff.mp walked
      rw [Obj.plain, Obj.plain_of_place parent counted.1 parent_walked,
        Fields.plain_of_place fields counted.2 fields_walked]
      rfl

theorem Fields.plain_of_place {packed : Bool} : (fields : Fields) → fields.counted = true →
    {start walk : Walk} → fields.place pointer packed start = some walk → fields.plain = true
  | .nil, _, _, _, _ => rfl
  | .cons name ty rest, counted, _, _, walked => by
      rw [Fields.counted, Bool.and_eq_true] at counted
      obtain ⟨next, placed, walked⟩ := Option.bind_eq_some_iff.mp walked
      obtain ⟨size, sized, -⟩ := Option.map_eq_some_iff.mp placed
      rw [Fields.plain, Ty.plain_of_size ty counted.1 sized,
        Fields.plain_of_place rest counted.2 walked]
      rfl

theorem Variant.plain_of_place {packed : Bool} : (variant : Variant) → variant.counted = true →
    {start walk : Walk} → variant.place pointer packed start = some walk → variant.plain = true
  | .absent, _, _, _, _ => rfl
  | .tagged _ tagType cases, counted, _, _, walked => by
      rw [Variant.counted, Bool.and_eq_true] at counted
      obtain ⟨next, placed, walked⟩ := Option.bind_eq_some_iff.mp walked
      obtain ⟨size, sized, -⟩ := Option.map_eq_some_iff.mp placed
      obtain ⟨arms, cases_walked, -⟩ := Option.map_eq_some_iff.mp walked
      rw [Variant.plain, Ty.plain_of_size tagType counted.1 sized,
        Cases.plain_of_reach cases counted.2 cases_walked]
      rfl
  | .tagless cases, counted, _, _, walked => by
      obtain ⟨arms, cases_walked, -⟩ := Option.map_eq_some_iff.mp walked
      have cases_plain : cases.plain = true := Cases.plain_of_reach cases counted cases_walked
      exact cases_plain

theorem Variant.plain_of_placeNested {packed : Bool} : (variant : Variant) →
    variant.counted = true → {start walk : Walk} →
    variant.placeNested pointer packed start = some walk → variant.plain = true
  | .absent, _, _, _, _ => rfl
  | .tagged _ tagType cases, counted, _, _, walked => by
      rw [Variant.counted, Bool.and_eq_true] at counted
      obtain ⟨next, placed, walked⟩ := Option.bind_eq_some_iff.mp walked
      obtain ⟨size, sized, -⟩ := Option.map_eq_some_iff.mp placed
      rw [Variant.plain, Ty.plain_of_size tagType counted.1 sized,
        Cases.plain_of_reach cases counted.2 walked]
      rfl
  | .tagless cases, counted, _, _, walked => by
      have cases_plain : cases.plain = true := Cases.plain_of_reach cases counted walked
      exact cases_plain

theorem Cases.plain_of_reach {packed : Bool} : (cases : Cases) → cases.counted = true →
    {base : Nat} → {start walk : Walk} → cases.reach pointer packed base start = some walk →
    cases.plain = true
  | .nil, _, _, _, _, _ => rfl
  | .cons fields nested rest, counted, _, _, _, walked => by
      rw [Cases.counted, Bool.and_eq_true, Bool.and_eq_true] at counted
      obtain ⟨arm, arm_walked, rest_walked⟩ := Option.bind_eq_some_iff.mp walked
      obtain ⟨front, fields_walked, nested_walked⟩ := Option.bind_eq_some_iff.mp arm_walked
      rw [Cases.plain, Fields.plain_of_place fields counted.1 fields_walked,
        Variant.plain_of_placeNested nested counted.2.1 nested_walked,
        Cases.plain_of_reach rest counted.2.2 rest_walked]
      rfl

end

end Plain

/-! ### Targets of 64 bits -/

/-- Targets of 64 bits have an integer for every cell of a variant part. -/
theorem lp64_unit {unit : Nat} (power : unit.isPowerOfTwo) (bound : unit ≤ 16) :
    (LType.int (8 * unit)).shape lp64 = ⟨unit, unit⟩ := by
  obtain ⟨k, rfl⟩ := power
  have k_le : k ≤ 4 := (Nat.pow_le_pow_iff_right (by omega) (m := 4)).mp bound
  have cases : k = 0 ∨ k = 1 ∨ k = 2 ∨ k = 3 ∨ k = 4 := by omega
  rcases cases with rfl | rfl | rfl | rfl | rfl <;> decide

theorem lp64_cell (kind : Cell) : (Cell.lower kind).shape lp64 = kind.shape .bits64 := by
  cases kind with
  | ordinal width => cases width <;> decide
  | varString capacity =>
      simp [Cell.lower, LType.shape, shapesOf, pack, allocated, struct, place, maxAlign, lp64, Cell.shape,
        show intBytes 64 = 8 by decide, show intBytes 8 = 1 by decide, roundUp]
  | shortString capacity =>
      simp [Cell.lower, LType.shape, shapesOf, pack, allocated, struct, place, maxAlign, lp64, Cell.shape,
        show intBytes 8 = 1 by decide, roundUp, Nat.add_comm]
  | _ => decide +kernel

mutual

/-- Targets of 64 bits suit every type. -/
theorem Ty.lp64_suits : (ty : Ty) → Ty.suits lp64 .bits64 ty = true
  | .cell kind => decide_eq_true (lp64_cell kind)
  | .array _ elem => Ty.lp64_suits elem
  | .record packed fields variant => by
      have storable := variant.arms_storable .bits64 packed
      have unit_eq := lp64_unit
        (slotsAlign_power fun slot is_slot => (storable slot is_slot).sound.power)
        (slotsAlign_bound storable)
      rw [Ty.suits, unit_eq, Fields.lp64_suits fields, Variant.lp64_suits variant]
      simp
  | .object object => Obj.lp64_suits object
  | .schemaInstance body => Ty.lp64_suits body

theorem Obj.lp64_suits : (object : Obj) → Obj.suits lp64 .bits64 object = true
  | .root fields declares => by
      rw [Obj.suits, Fields.lp64_suits fields]
      cases declares <;> decide
  | .derived parent fields declares => by
      rw [Obj.suits, Obj.lp64_suits parent, Fields.lp64_suits fields]
      cases (declares && !parent.hasVmt) <;> decide

theorem Fields.lp64_suits : (fields : Fields) → Fields.suits lp64 .bits64 fields = true
  | .nil => rfl
  | .cons _ ty rest => by
      rw [Fields.suits, Ty.lp64_suits ty, Fields.lp64_suits rest]
      rfl

theorem Variant.lp64_suits : (variant : Variant) → Variant.suits lp64 .bits64 variant = true
  | .absent => rfl
  | .tagged _ tagType cases => by
      rw [Variant.suits, Ty.lp64_suits tagType, Cases.lp64_suits cases]
      rfl
  | .tagless cases => Cases.lp64_suits cases

theorem Cases.lp64_suits : (cases : Cases) → Cases.suits lp64 .bits64 cases = true
  | .nil => rfl
  | .cons fields nested rest => by
      rw [Cases.suits, Fields.lp64_suits fields, Variant.lp64_suits nested, Cases.lp64_suits rest]
      rfl

end

/-! ### Record types -/

/-- A record type as it is declared, in a schema body with its discriminants or outside of one, and
as it is resolved. -/
structure RecordType where
  packed : Bool
  fields : FieldDecls
  variant : VariantDecl
  discs : Option (List Int)
  own : Fields
  part : Variant
  fields_resolved : fields.resolve (discs.getD []) = some own
  variant_resolved : variant.resolve (discs.getD []) = some part

namespace RecordType

variable (type : RecordType) (dl : DataLayout) (pointer : PointerWidth)

def decl : Denoter := .record type.packed type.fields type.variant

def ty : Ty := .record type.packed type.own type.part

def record : Record Text := recordOf pointer type.packed type.own type.part

/-- The size and alignment of the generator's type. -/
def lowered : Shape := (Ty.lower dl type.ty).shape dl

/-- The offsets that the generator has for the fields. -/
def places : List (Text × Option Nat) := fieldOffsets dl type.packed type.own type.part

/-- Offsets of fields that have one. -/
def known (offsets : List (Text × Nat)) : List (Text × Option Nat) :=
  offsets.map fun entry => (entry.1, some entry.2)

/-- The three layouts are one, which has its fields apart, aligned and inside. -/
structure LayoutsAgree : Prop where
  sized : type.ty.plain = true →
    ∃ walk, recordWalk pointer type.packed type.own type.part = some walk
  checker : ∀ walk, recordWalk pointer type.packed type.own type.part = some walk →
    type.ty.byteSizeOf pointer = some (type.lowered dl).size ∧
      type.ty.byteAlignOf pointer = (type.lowered dl).align ∧
        known walk.offsets = type.places dl
  walk : ∃ walk, recordRtWalk dl type.packed type.fields type.variant type.discs = some walk ∧
    type.decl.rtSize dl type.discs = some (type.lowered dl).size ∧
      type.decl.rtAlign dl = (type.lowered dl).align ∧ known walk.offsets = type.places dl
  placed : type.places dl = known (named (type.record pointer).placed)
  inside : ∀ entry ∈ (type.record pointer).placed,
    entry.1.shape.align ∣ entry.2 ∧ entry.2 + entry.1.shape.size ≤ (type.lowered dl).size
  apart : ∀ selected, (type.record pointer).arms.Selects selected →
    (StructLayout.placed 0 (type.record pointer).own ++
          StructLayout.placed (type.record pointer).base selected).Sublist
        (type.record pointer).placed ∧
      (StructLayout.placed 0 (type.record pointer).own ++
          StructLayout.placed (type.record pointer).base selected).Pairwise
        fun earlier later => earlier.2 + earlier.1.shape.size ≤ later.2
  starts : ∀ arms position, (type.record pointer).Opens arms position →
    ∀ slots nested, arms.Has slots nested →
      (StructLayout.placed position slots).Sublist (type.record pointer).placed
  firsts : ∀ first slots nested, (type.record pointer).arms.Has (first :: slots) nested →
    (first, (type.record pointer).base) ∈ (type.record pointer).placed

/-- The arms of the variant part have fields, and none of them takes storage. -/
def Hollow : Prop :=
  (type.record pointer).arms.slots ≠ [] ∧
    ∀ slot ∈ (type.record pointer).arms.slots, slot.shape.size = 0

/-- The target suits the type, extents have closed forms, and the type's bits are counted in 64 bits. -/
structure Ordinary : Prop where
  suits : Ty.suits dl pointer type.ty = true
  regular : type.decl.regular type.discs = true
  counted : type.ty.counted = true
  fits : (type.ty.shape pointer).size < 2 ^ 61

instance : Decidable (type.Hollow pointer) :=
  inferInstanceAs (Decidable (_ ∧ ∀ slot ∈ (type.record pointer).arms.slots, slot.shape.size = 0))

variable {type dl pointer}

theorem storable : ∀ slot ∈ (type.record pointer).slots, Storable slot.shape :=
  record_storable_slots pointer type.packed type.own type.part

theorem hollow_iff : type.Hollow pointer ↔
    (type.record pointer).arms.slots ≠ [] ∧ (type.record pointer).arms.finish 0 = 0 := by
  have sound : ∀ slot ∈ (type.record pointer).arms.slots, slot.shape.Sound :=
    fun slot is_slot => (storable slot (List.mem_append_right _ is_slot)).sound
  constructor
  · rintro ⟨has_fields, hollow⟩
    exact ⟨has_fields, Arms.finish_of_hollow sound hollow⟩
  · rintro ⟨has_fields, empty⟩
    refine ⟨has_fields, fun slot is_slot => ?_⟩
    have within := Arms.size_le_finish 0 is_slot
    omega

theorem resolved : type.decl.resolve (type.discs.getD []) = some type.ty := by
  rw [decl, Denoter.resolve, type.fields_resolved, Option.bind_some, type.variant_resolved]
  rfl

section Agreement

variable (ordinary : type.Ordinary dl pointer)

include ordinary

theorem record_fits : (type.record pointer).shape.size < 2 ^ 63 :=
  lt_trans ordinary.fits (by decide)

theorem lowered_eq : type.lowered dl = (type.record pointer).shape :=
  Ty.lower_eq type.ty ordinary.suits (record_fits ordinary)

/-- Where arms with fields take storage, every field has its place. -/
theorem places_eq (solid : ¬type.Hollow pointer) :
    type.places dl = known (named (type.record pointer).placed) := by
  apply fieldOffsets_eq ordinary.suits (record_fits ordinary)
  by_cases empty : (type.record pointer).arms.slots = []
  · exact Or.inr empty
  · left
    by_contra none_taken
    exact solid (hollow_iff.mpr ⟨empty, Nat.eq_zero_of_not_pos none_taken⟩)

theorem checker_offsets (solid : ¬type.Hollow pointer) (plain : type.ty.plain = true) {walk : Walk}
    (walked : recordWalk pointer type.packed type.own type.part = some walk) :
    known walk.offsets = type.places dl := by
  rw [recordWalk_eq pointer plain ordinary.counted (record_fits ordinary)] at walked
  obtain rfl := Option.some.inj walked
  rw [places_eq ordinary solid]
  congr 1
  by_cases filled : 0 < (type.record pointer).arms.finish 0
  · exact reserve_offsets storable (type.part.arms_packed pointer type.packed) (record_fits ordinary)
      filled
  · have empty : (type.record pointer).arms.slots = [] := by
      by_contra has_fields
      exact solid (hollow_iff.mpr ⟨has_fields, by omega⟩)
    change (((ownWalk (type.record pointer).own).reserve type.packed
      (armsWalk (type.record pointer).arms)).offsets) = named (type.record pointer).placed
    rw [Walk.reserve, if_neg (by exact filled), armsWalk, Record.placed,
      Arms.placed_of_empty empty, Arms.placed_of_empty empty, List.append_nil]
    exact List.append_nil _

theorem agree_of_solid (solid : ¬type.Hollow pointer) : type.LayoutsAgree dl pointer := by
  have fits := record_fits ordinary
  have sound : ∀ slot ∈ (type.record pointer).slots, slot.shape.Sound :=
    fun slot is_slot => (storable slot is_slot).sound
  have shape_eq := lowered_eq ordinary
  constructor
  case sized =>
    exact fun plain => ⟨_, recordWalk_eq pointer plain ordinary.counted fits⟩
  case checker =>
    intro walk walked
    have plain : type.ty.plain = true := by
      apply Ty.plain_of_size type.ty ordinary.counted
      exact congrArg (Option.map fun walk : Walk => roundUp64 walk.off walk.align) walked
    rw [shape_eq]
    exact ⟨type.ty.byteSizeOf_eq pointer plain ordinary.counted fits,
      type.ty.byteAlignOf_eq pointer plain, checker_offsets ordinary solid plain walked⟩
  case walk =>
    refine ⟨_, recordRtWalk_eq type.fields_resolved type.variant_resolved ordinary.regular
      ordinary.suits ordinary.counted fits, ?_, ?_, (places_eq ordinary solid).symm⟩
    · rw [shape_eq]
      exact type.decl.rtSize_eq resolved ordinary.regular ordinary.suits ordinary.counted fits
    · rw [shape_eq]
      exact type.decl.rtAlign_eq resolved ordinary.suits fits
  case placed => exact places_eq ordinary solid
  case inside =>
    rw [shape_eq]
    exact fun entry is_entry => Record.mem_placed sound is_entry
  case apart => exact fun selected selects => Record.selected_pairwise sound selects
  case starts =>
    exact fun arms position opens slots nested has => (has.sublist position).1.trans opens.sublist
  case firsts => exact fun first slots nested has => Record.first_placed sound has

/-- The layouts of a record agree unless its arms have fields and take nothing. -/
theorem layouts_agree_iff : type.LayoutsAgree dl pointer ↔ ¬type.Hollow pointer := by
  constructor
  · intro agree hollow
    obtain ⟨has_fields, empty⟩ := hollow_iff.mp hollow
    obtain ⟨name, missing⟩ :=
      fieldOffsets_hollow ordinary.suits (record_fits ordinary) empty has_fields
    have placed := agree.placed
    rw [places] at placed
    rw [placed] at missing
    obtain ⟨entry, -, entry_eq⟩ := List.mem_map.mp missing
    cases congrArg Prod.snd entry_eq
  · exact agree_of_solid ordinary

end Agreement

/-- A record of a schema body with a tag, a string and an array of its discriminant, and a part in one
of its arms. -/
def partsList : RecordType where
  packed := false
  fields := .cons ['k'] (.named (.cell .char))
    (.cons ['s'] (.string (.binary .times (.disc 0) (.const 2)))
      (.cons ['v'] (.array (.const 1) (.disc 0) (.named (.cell (.ordinal .bits64)))) .nil))
  variant := .tagged ['t'] (.named (.cell .boolean))
    (.cons (.cons ['p'] (.named (.cell .pointer)) (.cons ['e'] (.named (.cell .set)) .nil)) .absent
      (.cons (.cons ['c'] (.named (.cell .char)) .nil)
        (.tagless (.cons (.cons ['f'] (.named (.cell .file)) .nil) .absent .nil)) .nil))
  discs := some [5]
  own := .cons ['k'] (.cell .char)
    (.cons ['s'] (.cell (.varString 10))
      (.cons ['v'] (.array ⟨1, 5, by decide, by decide, by decide⟩ (.cell (.ordinal .bits64))) .nil))
  part := .tagged ['t'] (.cell .boolean)
    (.cons (.cons ['p'] (.cell .pointer) (.cons ['e'] (.cell .set) .nil)) .absent
      (.cons (.cons ['c'] (.cell .char) .nil)
        (.tagless (.cons (.cons ['f'] (.cell .file) .nil) .absent .nil)) .nil))
  fields_resolved := by rfl
  variant_resolved := by rfl

theorem partsList_agrees : partsList.LayoutsAgree lp64 .bits64 :=
  (layouts_agree_iff
    ⟨Ty.lp64_suits _, by decide +kernel, by decide +kernel, by decide +kernel⟩).mpr (by decide +kernel)

/-- A record with an arm whose one field is an empty record. -/
def emptyArm : RecordType where
  packed := false
  fields := .cons ['c'] (.named (.cell .char)) .nil
  variant := .tagless
    (.cons (.cons ['x'] (.named (.record false .nil .absent)) .nil) .absent
      (.cons .nil .absent .nil))
  discs := none
  own := .cons ['c'] (.cell .char) .nil
  part := .tagless
    (.cons (.cons ['x'] (.record false .nil .absent) .nil) .absent (.cons .nil .absent .nil))
  fields_resolved := by rfl
  variant_resolved := by rfl

/-- The generator's structure has no element for the arms, where the field would be. -/
theorem emptyArm_disagrees : ¬emptyArm.LayoutsAgree lp64 .bits64 := by
  intro agree
  have places : emptyArm.places lp64 = [(['c'], some 0), (['x'], none)] := by decide +kernel
  have placed : known (named (emptyArm.record .bits64).placed) = [(['c'], some 0), (['x'], some 1)] := by
    decide +kernel
  have same := agree.placed
  rw [places, placed] at same
  cases same

end RecordType

end Plang.CodeGen.LayoutAgreement
