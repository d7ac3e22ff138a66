import Plang.Sema.Storage

/-!
# Sizes to the checker

The sizes, alignments and offsets that the checker works out by itself, in 64 bits and without the
target's data layout.
-/

namespace Plang.Sema.Storage

open StructLayout

/-! ### Numbers of 64 bits -/

def u64 (number : Nat) : Nat := number % 2 ^ 64

/-- `roundUp`, which the sum before the division may wrap. -/
def roundUp64 (number align : Nat) : Nat :=
  if align = 0 then number else u64 (number + align - 1) / align * align

theorem u64_eq {number : Nat} (fits : number < 2 ^ 63) : u64 number = number :=
  Nat.mod_eq_of_lt (by omega)

theorem roundUp64_eq {number align : Nat} (fits : number < 2 ^ 63) (bound : align ≤ 16) :
    roundUp64 number align = roundUp number align := by
  rw [roundUp64, roundUp, u64, Nat.mod_eq_of_lt (by omega)]

/-! ### Types without components -/

/-- Doubled until it holds the bytes. -/
def doubled (bytes : Nat) : Nat → Nat → Nat
  | 0, power => power
  | rounds + 1, power => if power < bytes then doubled bytes rounds (power * 2) else power

def intBytes (bits : Nat) : Nat := doubled ((bits + 7) / 8) ((bits + 7) / 8) 1

def intAlign (bits : Nat) : Nat := min (intBytes bits) 16

def plangMaxSetElements : Nat := 256

def plangFileNameCap : Nat := 512

/-- The fields of the file record, one by one. -/
def fileBytes : Nat :=
  let name := 8 + 8 + 8 + 4 + 1 + 1 + 1 + plangFileNameCap
  let mode := roundUp64 name 4 + 4
  let recSize := roundUp64 mode 8 + 8
  roundUp64 recSize 8

def Cell.byteSize (pointer : PointerWidth) : Cell → Nat
  | .ordinal width => intBytes width.bits
  | .boolean => intBytes 8
  | .char => 1
  | .real => 64 / 8
  | .single => 32 / 8
  | .complex => 16
  | .set => intBytes plangMaxSetElements
  | .pointer => pointer.bytes
  | .varString capacity => roundUp64 (u64 (8 + capacityOf capacity)) 8
  | .shortString capacity => u64 (capacityOf capacity + 1)
  | .file => fileBytes

def Cell.byteAlign (pointer : PointerWidth) : Cell → Nat
  | .ordinal width => intAlign width.bits
  | .boolean => intAlign 8
  | .char => 1
  | .real => 64 / 8
  | .single => 32 / 8
  | .complex => 8
  | .set => intAlign plangMaxSetElements
  | .pointer => pointer.bytes
  | .varString _ => 8
  | .shortString _ => 1
  | .file => 8

/-! ### Alignments -/

mutual

def Ty.byteAlignOf (pointer : PointerWidth) : Ty → Nat
  | .cell kind => kind.byteAlign pointer
  | .array _ elem => elem.byteAlignOf pointer
  | .record packed fields variant =>
      if packed then 1 else variant.widest pointer (fields.widest pointer 1)
  | .object object =>
      if object.hasVmt then max (object.widest pointer 1) 8 else object.widest pointer 1
  | .schemaInstance _ => 1

/-- The alignments of a list of fields, from one that is there already. -/
def Fields.widest (pointer : PointerWidth) : Fields → Nat → Nat
  | .nil, align => align
  | .cons _ ty rest, align => rest.widest pointer (max align (ty.byteAlignOf pointer))

/-- The fields of all the ancestors stand in front of a type's own. -/
def Obj.widest (pointer : PointerWidth) : Obj → Nat → Nat
  | .root fields _, align => fields.widest pointer align
  | .derived parent fields _, align => fields.widest pointer (parent.widest pointer align)

/-- The fields of every arm are in a record's list of fields. -/
def Variant.widest (pointer : PointerWidth) : Variant → Nat → Nat
  | .absent, align => align
  | .tagged _ tagType cases, align =>
      cases.widest pointer (max align (tagType.byteAlignOf pointer))
  | .tagless cases, align => cases.widest pointer align

def Cases.widest (pointer : PointerWidth) : Cases → Nat → Nat
  | .nil, align => align
  | .cons fields nested rest, align =>
      rest.widest pointer (nested.widest pointer (fields.widest pointer align))

end

/-! ### Sizes and offsets -/

/-- Where a walk over the fields stands, the alignment it has met, and the offsets it has given. -/
structure Walk where
  off : Nat
  align : Nat
  offsets : List (Text × Nat)
  deriving DecidableEq, Repr

/-- One more field; a field of no size leaves the record without one. -/
def Walk.place (packed : Bool) (walk : Walk) (name : Text) (size : Option Nat) (align : Nat) :
    Option Walk :=
  size.map fun size =>
    let align := if packed then 1 else align
    let off := roundUp64 walk.off align
    ⟨u64 (off + size), max walk.align align, walk.offsets ++ [(name, off)]⟩

/-- The storage that a variant part reserves, in whole cells. -/
def variantBlobBytes (size align : Nat) : Nat :=
  roundUp64 size
    (if 16 ≤ align then 16 else if 8 ≤ align then 8 else if 4 ≤ align then 4
      else if 2 ≤ align then 2 else 1)

/-- The walk over a record behind its variant part, whose arms have been walked from 0. -/
def Walk.reserve (packed : Bool) (walk arms : Walk) : Walk :=
  let align := if packed then 1 else arms.align
  if 0 < arms.off then
    let off := roundUp64 walk.off align
    ⟨u64 (off + variantBlobBytes arms.off align), max walk.align align,
      walk.offsets ++ arms.offsets.map fun entry => (entry.1, u64 (off + entry.2))⟩
  else ⟨walk.off, walk.align, walk.offsets ++ arms.offsets⟩

/-- The end of an object: the pointer to its table, where it is introduced, and the padding. -/
def Walk.close (introduces : Bool) (walk : Walk) : Walk :=
  if introduces then
    ⟨roundUp64 (u64 (roundUp64 walk.off 8 + 8)) (max walk.align 8), max walk.align 8, walk.offsets⟩
  else ⟨roundUp64 walk.off walk.align, walk.align, walk.offsets⟩

def ordinalRangeCount (index : IndexRange) : Option Nat :=
  let diff := (index.hi - index.lo).toNat
  if diff = 2 ^ 64 - 1 then none else some (diff + 1)

def checkedMul64 (left right : Nat) : Option Nat :=
  if left * right < 2 ^ 64 then some (left * right) else none

mutual

def Ty.byteSizeOf (pointer : PointerWidth) : Ty → Option Nat
  | .cell kind => some (kind.byteSize pointer)
  | .array index elem =>
      match ordinalRangeCount index with
      | none => some (2 ^ 64 - 1)
      | some count =>
          (elem.byteSizeOf pointer).map fun size => (checkedMul64 count size).getD (2 ^ 64 - 1)
  | .record packed fields variant =>
      ((fields.place pointer packed ⟨0, 1, []⟩).bind (variant.place pointer packed)).map
        fun walk => roundUp64 walk.off walk.align
  | .object object => (object.place pointer).map Walk.off
  | .schemaInstance _ => none

/-- An object's own fields behind its ancestor's whole storage. -/
def Obj.place (pointer : PointerWidth) : Obj → Option Walk
  | .root fields declares =>
      (fields.place pointer false ⟨0, 1, []⟩).map (Walk.close declares)
  | .derived parent fields declares =>
      (parent.place pointer).bind fun whole =>
        (fields.place pointer false
            ⟨whole.off, (Ty.object parent).byteAlignOf pointer, whole.offsets⟩).map
          (Walk.close (declares && !parent.hasVmt))

def Fields.place (pointer : PointerWidth) (packed : Bool) : Fields → Walk → Option Walk
  | .nil, walk => some walk
  | .cons name ty rest, walk =>
      (walk.place packed name (ty.byteSizeOf pointer) (ty.byteAlignOf pointer)).bind
        (rest.place pointer packed)

/-- The variant part of a record. -/
def Variant.place (pointer : PointerWidth) (packed : Bool) : Variant → Walk → Option Walk
  | .absent, walk => some walk
  | .tagged tagField tagType cases, walk =>
      (walk.place packed tagField (tagType.byteSizeOf pointer) (tagType.byteAlignOf pointer)).bind
        fun walk => (cases.reach pointer packed 0 ⟨0, 1, []⟩).map (walk.reserve packed)
  | .tagless cases, walk => (cases.reach pointer packed 0 ⟨0, 1, []⟩).map (walk.reserve packed)

/-- A variant part of an arm, behind the arm's own fields. -/
def Variant.placeNested (pointer : PointerWidth) (packed : Bool) : Variant → Walk → Option Walk
  | .absent, walk => some walk
  | .tagged tagField tagType cases, walk =>
      (walk.place packed tagField (tagType.byteSizeOf pointer) (tagType.byteAlignOf pointer)).bind
        fun walk => cases.reach pointer packed walk.off walk
  | .tagless cases, walk => cases.reach pointer packed walk.off walk

/-- `layoutVariantCase` for arms that start at one base: the walk is where the longest one ends. -/
def Cases.reach (pointer : PointerWidth) (packed : Bool) : Cases → Nat → Walk → Option Walk
  | .nil, _, walk => some walk
  | .cons fields nested rest, base, walk =>
      ((fields.place pointer packed ⟨base, walk.align, walk.offsets⟩).bind
        (nested.placeNested pointer packed)).bind fun arm =>
          rest.reach pointer packed base ⟨max walk.off arm.off, arm.align, arm.offsets⟩

end

/-- The checker's walk over a record, when every field has a size. -/
def recordWalk (pointer : PointerWidth) (packed : Bool) (fields : Fields) (variant : Variant) :
    Option Walk := (fields.place pointer packed ⟨0, 1, []⟩).bind (variant.place pointer packed)

/-! ### Agreement with the natural layout -/

mutual

/-- No instance of a schema is stored in the type: the checker has no size for one. -/
def Ty.plain : Ty → Bool
  | .cell _ => true
  | .array _ elem => elem.plain
  | .record _ fields variant => fields.plain && variant.plain
  | .object object => object.plain
  | .schemaInstance _ => false

def Obj.plain : Obj → Bool
  | .root fields _ => fields.plain
  | .derived parent fields _ => parent.plain && fields.plain

def Fields.plain : Fields → Bool
  | .nil => true
  | .cons _ ty rest => ty.plain && rest.plain

def Variant.plain : Variant → Bool
  | .absent => true
  | .tagged _ tagType cases => tagType.plain && cases.plain
  | .tagless cases => cases.plain

def Cases.plain : Cases → Bool
  | .nil => true
  | .cons fields nested rest => fields.plain && (nested.plain && rest.plain)

end

theorem Cell.byteAlign_eq (pointer : PointerWidth) (kind : Cell) :
    kind.byteAlign pointer = (kind.shape pointer).align := by
  cases kind with
  | ordinal width => cases width <;> rfl
  | _ => rfl

theorem Cell.byteSize_eq (pointer : PointerWidth) (kind : Cell)
    (fits : (kind.shape pointer).size < 2 ^ 63) :
    kind.byteSize pointer = (kind.shape pointer).size := by
  cases kind with
  | ordinal width => cases width <;> rfl
  | varString capacity =>
      have size := le_roundUp (8 + capacityOf capacity) 8
      simp only [Cell.shape] at fits
      rw [byteSize, u64_eq (by omega), roundUp64_eq (by omega) (by decide), shape]
  | shortString capacity =>
      simp only [Cell.shape] at fits
      exact u64_eq fits
  | _ => rfl

section Packed

variable (pointer : PointerWidth)

mutual

theorem Fields.packed_align : (fields : Fields) → slotsAlign (fields.slots pointer true) = 1
  | .nil => rfl
  | .cons _ _ rest => by
      rw [Fields.slots, slotsAlign, rest.packed_align]
      rfl

end

mutual

theorem Variant.packed_align :
    (variant : Variant) → slotsAlign (variant.part pointer true).slots = 1
  | .absent => rfl
  | .tagged _ _ cases => by
      rw [Variant.part, Tail.slots, slotsAlign_append, cases.packed_align]
      rfl
  | .tagless cases => cases.packed_align

theorem Cases.packed_align : (cases : Cases) → slotsAlign (cases.arms pointer true).slots = 1
  | .nil => rfl
  | .cons fields nested rest => by
      rw [Cases.arms, Arms.slots, slotsAlign_append, slotsAlign_append, fields.packed_align,
        nested.packed_align, rest.packed_align]
      rfl

end

end Packed

/-- The slots of a variant part are its tag and those of its arms. -/
theorem Variant.part_slots (pointer : PointerWidth) (packed : Bool) (variant : Variant) :
    (variant.part pointer packed).slots =
      variant.tag pointer packed ++ (variant.arms pointer packed).slots := by
  cases variant with
  | absent => rfl
  | tagged _ _ _ => rfl
  | tagless cases => rfl

theorem record_align (pointer : PointerWidth) (packed : Bool) (fields : Fields) (variant : Variant) :
    (recordOf pointer packed fields variant).align =
      max (slotsAlign (fields.slots pointer packed))
        (slotsAlign (variant.part pointer packed).slots) := by
  rw [Record.align, Record.slots, recordOf, slotsAlign_append, slotsAlign_append, Nat.max_assoc,
    ← slotsAlign_append, ← Variant.part_slots]

theorem object_align (slots : List (Slot Text)) :
    (Record.mk slots Arms.nil).align = slotsAlign slots := by
  rw [Record.align, Record.slots, Arms.slots, List.append_nil]

section Alignments

variable (pointer : PointerWidth)

theorem Fields.le_widest {least : Nat} : (fields : Fields) → {align : Nat} → least ≤ align →
    least ≤ fields.widest pointer align
  | .nil, _, le => le
  | .cons _ _ rest, _, le => rest.le_widest (le.trans (Nat.le_max_left ..))

theorem Obj.le_widest {least : Nat} : (object : Obj) → {align : Nat} → least ≤ align →
    least ≤ object.widest pointer align
  | .root fields _, _, le => fields.le_widest pointer le
  | .derived parent fields _, _, le => fields.le_widest pointer (parent.le_widest le)

mutual

/-- The checker's alignment is the natural one. -/
theorem Ty.byteAlignOf_eq :
    (ty : Ty) → ty.plain = true → ty.byteAlignOf pointer = (ty.shape pointer).align
  | .cell kind, _ => kind.byteAlign_eq pointer
  | .array _ elem, plain => elem.byteAlignOf_eq plain
  | .record packed fields variant, plain => by
      rw [Ty.plain, Bool.and_eq_true] at plain
      show _ = (recordOf pointer packed fields variant).align
      rw [record_align, Ty.byteAlignOf]
      cases packed with
      | true =>
          rw [if_pos rfl, fields.packed_align, variant.packed_align]
          rfl
      | false =>
          have positive := one_le_slotsAlign (fields.slots pointer false)
          rw [if_neg (by decide), fields.widest_eq plain.1 le_rfl,
            variant.widest_eq plain.2 (by omega), Nat.max_eq_right positive]
  | .object object, plain => by
      show _ = (Record.mk (object.slots pointer) Arms.nil).align
      rw [object_align, Ty.byteAlignOf, object.widest_eq plain le_rfl]
      exact Nat.max_eq_right (one_le_slotsAlign _)
  | .schemaInstance _, plain => absurd plain Bool.false_ne_true

theorem Obj.widest_eq : (object : Obj) → object.plain = true → {align : Nat} → 1 ≤ align →
    (if object.hasVmt then max (object.widest pointer align) 8 else object.widest pointer align) =
      max align (slotsAlign (object.slots pointer))
  | .root fields declares, plain, align, positive => by
      rw [Obj.widest, fields.widest_eq plain positive, Obj.hasVmt, Obj.slots, slotsAlign_append]
      have fields_positive := one_le_slotsAlign (fields.slots pointer false)
      cases declares with
      | true =>
          simp only [if_true, slotsAlign, vptrSlot]
          omega
      | false =>
          simp only [Bool.false_eq_true, if_false, slotsAlign]
          omega
  | .derived parent fields declares, plain, align, positive => by
      rw [Obj.plain, Bool.and_eq_true] at plain
      have inherited := parent.widest_eq plain.1 positive
      have fields_positive := one_le_slotsAlign (fields.slots pointer false)
      have parent_positive : 1 ≤ parent.widest pointer align := parent.le_widest pointer positive
      rw [Obj.widest, fields.widest_eq plain.2 parent_positive, Obj.hasVmt, Obj.slots, slotsAlign,
        slotsAlign_append]
      show _ = max align (max (Record.mk (parent.slots pointer) Arms.nil).align _)
      rw [object_align]
      cases vmt : parent.hasVmt with
      | true =>
          rw [vmt, if_pos rfl] at inherited
          simp only [Bool.true_or, if_true, Bool.not_true, Bool.and_false, Bool.false_eq_true, if_false,
            slotsAlign]
          omega
      | false =>
          rw [vmt, if_neg (by decide)] at inherited
          cases declares with
          | true =>
              simp only [Bool.or_true, if_true, Bool.not_false, Bool.and_true, slotsAlign, vptrSlot]
              omega
          | false =>
              simp only [Bool.or_false, Bool.false_and, Bool.false_eq_true, if_false, slotsAlign]
              omega

theorem Fields.widest_eq : (fields : Fields) → fields.plain = true → {align : Nat} → 1 ≤ align →
    fields.widest pointer align = max align (slotsAlign (fields.slots pointer false))
  | .nil, _, _, positive => (Nat.max_eq_left positive).symm
  | .cons name ty rest, plain, align, positive => by
      rw [Fields.plain, Bool.and_eq_true] at plain
      rw [Fields.widest, rest.widest_eq plain.2 (positive.trans (Nat.le_max_left ..)),
        ty.byteAlignOf_eq plain.1, Nat.max_assoc]
      rfl

theorem Variant.widest_eq : (variant : Variant) → variant.plain = true → {align : Nat} → 1 ≤ align →
    variant.widest pointer align = max align (slotsAlign (variant.part pointer false).slots)
  | .absent, _, _, positive => (Nat.max_eq_left positive).symm
  | .tagged tagField tagType cases, plain, align, positive => by
      rw [Variant.plain, Bool.and_eq_true] at plain
      rw [Variant.widest, cases.widest_eq plain.2 (positive.trans (Nat.le_max_left ..)),
        tagType.byteAlignOf_eq plain.1, Nat.max_assoc]
      rfl
  | .tagless cases, plain, _, positive => cases.widest_eq plain positive

theorem Cases.widest_eq : (cases : Cases) → cases.plain = true → {align : Nat} → 1 ≤ align →
    cases.widest pointer align = max align (slotsAlign (cases.arms pointer false).slots)
  | .nil, _, _, positive => (Nat.max_eq_left positive).symm
  | .cons fields nested rest, plain, align, positive => by
      rw [Cases.plain, Bool.and_eq_true, Bool.and_eq_true] at plain
      rw [Cases.widest, fields.widest_eq plain.1 positive,
        nested.widest_eq plain.2.1 (positive.trans (Nat.le_max_left ..)),
        rest.widest_eq plain.2.2
          ((positive.trans (Nat.le_max_left ..)).trans (Nat.le_max_left ..)),
        Cases.arms, Arms.slots, slotsAlign_append, slotsAlign_append, Nat.max_assoc, Nat.max_assoc]

end

end Alignments

/-! ### Sizes and offsets are natural -/

mutual

/-- No array has as many components as all the numbers of 64 bits. -/
def Ty.counted : Ty → Bool
  | .cell _ => true
  | .array index elem => decide (index.count < 2 ^ 64) && elem.counted
  | .record _ fields variant => fields.counted && variant.counted
  | .object object => object.counted
  | .schemaInstance body => body.counted

def Obj.counted : Obj → Bool
  | .root fields _ => fields.counted
  | .derived parent fields _ => parent.counted && fields.counted

def Fields.counted : Fields → Bool
  | .nil => true
  | .cons _ ty rest => ty.counted && rest.counted

def Variant.counted : Variant → Bool
  | .absent => true
  | .tagged _ tagType cases => tagType.counted && cases.counted
  | .tagless cases => cases.counted

def Cases.counted : Cases → Bool
  | .nil => true
  | .cons fields nested rest => fields.counted && (nested.counted && rest.counted)

end

/-- Offsets by the names of what is placed there. -/
def named (entries : List (Slot Text × Nat)) : List (Text × Nat) :=
  entries.map fun entry => (entry.1.name, entry.2)

@[simp] theorem named_append (front back : List (Slot Text × Nat)) :
    named (front ++ back) = named front ++ named back := List.map_append

theorem named_shift (base : Nat) (entries : List (Slot Text × Nat)) :
    named (shift base entries) = (named entries).map fun entry => (entry.1, base + entry.2) := by
  simp [named, shift]

/-- A walk that has gone on over some slots. -/
def Walk.after (walk : Walk) (slots : List (Slot Text)) : Walk :=
  ⟨finish walk.off slots, max walk.align (slotsAlign slots),
    walk.offsets ++ named (placed walk.off slots)⟩

/-- A walk that has gone on over the arms of a part. -/
def Walk.afterPart (walk : Walk) (part : Tail Text) : Walk :=
  ⟨part.finish walk.off, max walk.align (slotsAlign part.slots),
    walk.offsets ++ named (part.placed walk.off)⟩

theorem Walk.after_append (walk : Walk) (front back : List (Slot Text)) :
    walk.after (front ++ back) = (walk.after front).after back := by
  simp only [after, finish_append, slotsAlign_append, placed_append, named_append, Nat.max_assoc,
    List.append_assoc]

theorem Walk.after_nil {walk : Walk} (positive : 1 ≤ walk.align) : walk.after [] = walk := by
  simp [after, finish, slotsAlign, placed, named, Nat.max_eq_left positive]

@[simp] theorem Walk.after_off (walk : Walk) (slots : List (Slot Text)) :
    (walk.after slots).off = finish walk.off slots := rfl

@[simp] theorem Walk.after_align (walk : Walk) (slots : List (Slot Text)) :
    (walk.after slots).align = max walk.align (slotsAlign slots) := rfl

/-- A slot's size is no more than where it ends. -/
theorem size_le_finish (position : Nat) (slot : Slot Text) (rest : List (Slot Text)) :
    slot.shape.size ≤ finish position (slot :: rest) ∧
      finish position [slot] ≤ finish position (slot :: rest) := by
  have own := le_finish (roundUp position slot.shape.align + slot.shape.size) rest
  rw [finish, finish, finish]
  omega

/-- Placing a component of a sound shape goes on over its slot. -/
theorem Walk.place_eq {packed : Bool} {walk : Walk} {name : Text} {shape : Shape}
    (storable : Storable shape) (fits : finish walk.off [slot packed name shape] < 2 ^ 63) :
    walk.place packed name (some shape.size) shape.align = some (walk.after [slot packed name shape]) := by
  have slot_storable : Storable (slot packed name shape).shape := slot_storable storable
  have size_eq : (slot packed name shape).shape.size = shape.size := by cases packed <;> rfl
  have align_eq : (slot packed name shape).shape.align = if packed then 1 else shape.align := by
    cases packed <;> rfl
  have lower := le_roundUp walk.off (slot packed name shape).shape.align
  simp only [finish] at fits
  have off_eq : roundUp64 walk.off (slot packed name shape).shape.align =
      roundUp walk.off (slot packed name shape).shape.align :=
    roundUp64_eq (by omega) slot_storable.bound
  simp only [place, Option.map_some, ← align_eq, off_eq, after, finish, slotsAlign, placed, named,
    List.map_cons, List.map_nil, ← size_eq, u64_eq fits]
  rw [Nat.max_eq_left slot_storable.sound.positive]
  rfl

/-- The cell that a part's storage is made of is as wide as the part's alignment. -/
theorem variantBlobBytes_eq (size : Nat) {align : Nat} (power : align.isPowerOfTwo) (bound : align ≤ 16)
    (fits : size < 2 ^ 63) : variantBlobBytes size align = roundUp size align := by
  obtain ⟨k, rfl⟩ := power
  have k_le : k ≤ 4 := (Nat.pow_le_pow_iff_right (by omega) (m := 4)).mp bound
  rw [variantBlobBytes, roundUp64_eq fits (by split_ifs <;> omega)]
  have cases : k = 0 ∨ k = 1 ∨ k = 2 ∨ k = 3 ∨ k = 4 := by omega
  rcases cases with rfl | rfl | rfl | rfl | rfl <;> rfl

section Reserve

variable {packed : Bool} {record : Record Text}

/-- The walk over the arms of a record's part. -/
def armsWalk (arms : Arms Text) : Walk :=
  ⟨arms.finish 0, slotsAlign arms.slots, named (arms.placed 0)⟩

/-- The walk over the slots of a record's own. -/
def ownWalk (own : List (Slot Text)) : Walk := ⟨finish 0 own, slotsAlign own, named (placed 0 own)⟩

theorem after_start (own : List (Slot Text)) : Walk.after ⟨0, 1, []⟩ own = ownWalk own := by
  simp only [Walk.after, ownWalk, List.nil_append]
  rw [Nat.max_eq_right (one_le_slotsAlign own)]

theorem armsWalk_eq (arms : Arms Text) :
    (⟨max 0 (arms.finish 0), max 1 (slotsAlign arms.slots), [] ++ named (arms.placed 0)⟩ : Walk) =
      armsWalk arms := by
  rw [armsWalk, Nat.zero_max, Nat.max_eq_right (one_le_slotsAlign _), List.nil_append]

variable (storable : ∀ slot ∈ record.slots, Storable slot.shape)
  (arms_packed : packed = true → slotsAlign record.arms.slots = 1)

include storable

theorem arms_dvd_align : slotsAlign record.arms.slots ∣ record.align := by
  apply dvd_of_le
    (slotsAlign_power fun slot is_slot => (storable slot (List.mem_append_right _ is_slot)).sound.power)
    (Record.align_power fun slot is_slot => (storable slot is_slot).sound)
  rw [Record.align, Record.slots, slotsAlign_append]
  exact Nat.le_max_right ..

theorem finish_eq_base_add : record.finish = record.base + record.arms.finish 0 := by
  have sound : ∀ slot ∈ record.slots, slot.shape.Sound := fun slot is_slot => (storable slot is_slot).sound
  rw [Record.finish, ← record.arms.finish_add (Record.arms_positive sound) (Record.dvd_base sound),
    Nat.add_zero]

theorem placed_eq_shift : record.arms.placed record.base = shift record.base (record.arms.placed 0) := by
  have sound : ∀ slot ∈ record.slots, slot.shape.Sound := fun slot is_slot => (storable slot is_slot).sound
  rw [← record.arms.placed_add (Record.arms_positive sound) (Record.dvd_base sound), Nat.add_zero]

/-- The storage of the arms in whole cells ends inside the record. -/
theorem base_add_blob :
    record.base + roundUp (record.arms.finish 0) (slotsAlign record.arms.slots) =
        roundUp record.finish (slotsAlign record.arms.slots) ∧
      roundUp record.finish (slotsAlign record.arms.slots) ≤ record.shape.size := by
  have sound : ∀ slot ∈ record.slots, slot.shape.Sound := fun slot is_slot => (storable slot is_slot).sound
  have positive : 0 < slotsAlign record.arms.slots := one_le_slotsAlign _
  constructor
  · have whole : slotsAlign record.arms.slots ∣ record.base := dvd_roundUp positive _
    rw [finish_eq_base_add storable, roundUp_add positive whole]
  · exact roundUp_le positive
      ((arms_dvd_align storable).trans (dvd_roundUp (Record.align_positive sound) _))
      record.finish_le_size

include arms_packed

/-- Reserving the storage of the arms leaves the walk where the record's padding begins. -/
theorem reserve_size (fits : record.shape.size < 2 ^ 63) :
    let walk := (ownWalk record.own).reserve packed (armsWalk record.arms)
    walk.align = record.align ∧ roundUp64 walk.off walk.align = record.shape.size := by
  have sound : ∀ slot ∈ record.slots, slot.shape.Sound := fun slot is_slot => (storable slot is_slot).sound
  have arms_storable : ∀ slot ∈ record.arms.slots, Storable slot.shape :=
    fun slot is_slot => storable slot (List.mem_append_right _ is_slot)
  have align_eq : (if packed then 1 else slotsAlign record.arms.slots) = slotsAlign record.arms.slots := by
    cases packed with
    | true => exact (arms_packed rfl).symm
    | false => rfl
  have record_align : max (slotsAlign record.own) (slotsAlign record.arms.slots) = record.align := by
    rw [Record.align, Record.slots, slotsAlign_append]
  have record_bound : record.align ≤ 16 := slotsAlign_bound storable
  have size_bound := record.finish_le_size
  have base_bound := record.base_le_finish
  have own_bound := record.own_le_base
  obtain ⟨blob_eq, blob_le⟩ := base_add_blob storable
  have positive : 0 < slotsAlign record.arms.slots := one_le_slotsAlign _
  have power : (slotsAlign record.arms.slots).isPowerOfTwo :=
    slotsAlign_power fun slot is_slot => (arms_storable slot is_slot).sound.power
  have run_eq := finish_eq_base_add storable
  by_cases filled : 0 < record.arms.finish 0
  · have off_eq : roundUp64 (finish 0 record.own) (slotsAlign record.arms.slots) = record.base :=
      roundUp64_eq (by omega) (slotsAlign_bound arms_storable)
    have blob_bytes := variantBlobBytes_eq (record.arms.finish 0) power
      (slotsAlign_bound arms_storable) (by omega)
    simp only [Walk.reserve, ownWalk, armsWalk, align_eq, if_pos filled, off_eq, blob_bytes, blob_eq,
      record_align, true_and]
    rw [u64_eq (by omega), roundUp64_eq (by omega) record_bound,
      roundUp_roundUp positive (Record.align_positive sound) (arms_dvd_align storable)]
    rfl
  · have hollow : slotsAlign record.arms.slots = 1 :=
      Arms.align_of_hollow (fun slot is_slot => (arms_storable slot is_slot).sound)
        (by omega : record.arms.finish 0 = 0)
    have own_align : slotsAlign record.own = record.align := by
      rw [← record_align, hollow, Nat.max_eq_left (one_le_slotsAlign _)]
    have base_eq : record.base = finish 0 record.own := by rw [Record.base, hollow, roundUp_one]
    simp only [Walk.reserve, ownWalk, armsWalk, if_neg filled, own_align, true_and]
    rw [roundUp64_eq (by omega) record_bound, Record.shape, run_eq, base_eq,
      show record.arms.finish 0 = 0 by omega, Nat.add_zero]

/-- Arms that take storage stand where the record has them. -/
theorem reserve_offsets (fits : record.shape.size < 2 ^ 63) (filled : 0 < record.arms.finish 0) :
    ((ownWalk record.own).reserve packed (armsWalk record.arms)).offsets = named record.placed := by
  have sound : ∀ slot ∈ record.slots, slot.shape.Sound := fun slot is_slot => (storable slot is_slot).sound
  have arms_storable : ∀ slot ∈ record.arms.slots, Storable slot.shape :=
    fun slot is_slot => storable slot (List.mem_append_right _ is_slot)
  have align_eq : (if packed then 1 else slotsAlign record.arms.slots) = slotsAlign record.arms.slots := by
    cases packed with
    | true => exact (arms_packed rfl).symm
    | false => rfl
  have size_bound := record.finish_le_size
  have base_bound := record.base_le_finish
  have own_bound := record.own_le_base
  have off_eq : roundUp64 (finish 0 record.own) (slotsAlign record.arms.slots) = record.base :=
    roundUp64_eq (by omega) (slotsAlign_bound arms_storable)
  simp only [Walk.reserve, ownWalk, armsWalk, align_eq, if_pos filled, off_eq]
  rw [Record.placed, named_append, placed_eq_shift storable, named_shift]
  congr 1
  apply List.map_congr_left
  intro entry is_entry
  obtain ⟨placed_entry, is_placed, rfl⟩ := List.mem_map.mp is_entry
  have inside := (Arms.mem_placed (Record.arms_positive sound) is_placed).2.2
  have run_eq := finish_eq_base_add storable
  rw [u64_eq (by simp only; omega)]

end Reserve

section Sizes

variable (pointer : PointerWidth)

theorem ordinalRangeCount_eq {index : IndexRange} (counted : index.count < 2 ^ 64) :
    ordinalRangeCount index = some index.count := by
  have ordered := index.ordered
  rw [IndexRange.count] at counted
  simp only [ordinalRangeCount, IndexRange.count]
  rw [if_neg (by omega)]
  congr 1
  omega

theorem Variant.arms_packed (packed : Bool) (variant : Variant) (is_packed : packed = true) :
    slotsAlign (variant.arms pointer packed).slots = 1 := by
  subst is_packed
  cases variant with
  | absent => rfl
  | tagged _ _ cases => exact cases.packed_align pointer
  | tagless cases => exact cases.packed_align pointer

theorem record_storable_slots (packed : Bool) (fields : Fields) (variant : Variant) :
    ∀ slot ∈ (recordOf pointer packed fields variant).slots, Storable slot.shape := by
  intro slot is_slot
  rcases List.mem_append.mp is_slot with in_own | in_arms
  · rcases List.mem_append.mp in_own with in_fields | in_tag
    · exact fields.storable pointer packed slot in_fields
    · exact variant.tag_storable pointer packed slot in_tag
  · exact variant.arms_storable pointer packed slot in_arms

theorem object_storable_slots {slots : List (Slot Text)} (storable : ∀ slot ∈ slots, Storable slot.shape) :
    ∀ slot ∈ (Record.mk slots Arms.nil).slots, Storable slot.shape := by
  intro slot is_slot
  rw [Record.slots, Arms.slots, List.append_nil] at is_slot
  exact storable slot is_slot

/-- An object is as long as its slots, rounded up to its alignment. -/
theorem object_shape (slots : List (Slot Text)) :
    (Record.mk slots Arms.nil).shape = ⟨roundUp (finish 0 slots) (slotsAlign slots), slotsAlign slots⟩ := by
  rw [Record.shape, object_align, Record.finish, Record.base, Arms.slots, Arms.finish]
  simp only [slotsAlign, roundUp_one]

/-- What stands in front fits if the object does. -/
theorem front_fits {front back : List (Slot Text)} {limit : Nat}
    (fits : (Record.mk (front ++ back) Arms.nil).shape.size < limit) : finish 0 front < limit := by
  have padding := le_roundUp (finish 0 (front ++ back)) (slotsAlign (front ++ back))
  have behind := le_finish (finish 0 front) back
  rw [object_shape] at fits
  rw [finish_append] at padding
  simp only [finish_append] at fits
  omega

/-- Closing an object places the pointer to its table, where it is introduced. -/
theorem close_eq {introduces : Bool} {slots : List (Slot Text)} {walk : Walk}
    (storable : ∀ slot ∈ slots, Storable slot.shape)
    (off_eq : walk.off = finish 0 slots) (align_eq : walk.align = slotsAlign slots)
    (fits : (Record.mk (slots ++ if introduces then [vptrSlot] else []) Arms.nil).shape.size < 2 ^ 63) :
    let whole := (Record.mk (slots ++ if introduces then [vptrSlot] else []) Arms.nil).shape
    (walk.close introduces).off = whole.size ∧ (walk.close introduces).align = whole.align := by
  have all_storable : ∀ slot ∈ slots ++ (if introduces then [vptrSlot] else []), Storable slot.shape := by
    intro slot is_slot
    rcases List.mem_append.mp is_slot with in_slots | is_vptr
    · exact storable slot in_slots
    · exact vptr_storable is_vptr
  have bound := slotsAlign_bound all_storable
  rw [object_shape] at fits ⊢
  cases introduces with
  | true =>
      simp only [if_true, finish_append, slotsAlign_append, finish, slotsAlign, vptrSlot,
        show max 8 1 = 8 from rfl] at fits bound ⊢
      have lower := le_roundUp (roundUp (finish 0 slots) 8 + 8) (max (slotsAlign slots) 8)
      have inner := le_roundUp (finish 0 slots) 8
      simp only [Walk.close, if_true, off_eq, align_eq]
      rw [roundUp64_eq (by omega : finish 0 slots < 2 ^ 63) (by decide), u64_eq (by omega),
        roundUp64_eq (by omega) bound]
      exact ⟨rfl, trivial⟩
  | false =>
      simp only [Bool.false_eq_true, if_false, List.append_nil] at fits bound ⊢
      have lower := le_roundUp (finish 0 slots) (slotsAlign slots)
      simp only [Walk.close, Bool.false_eq_true, if_false, off_eq, align_eq]
      rw [roundUp64_eq (by omega) bound]
      exact ⟨rfl, trivial⟩

/-- An array's components fit as the array does. -/
theorem elem_fits {index : IndexRange} {size limit : Nat} (fits : index.count * size < limit) :
    size < limit := (Nat.le_mul_of_pos_left size index.count_positive).trans_lt fits

/-- What stands in a record fits if the record does. -/
theorem record_fits {packed : Bool} {fields : Fields} {variant : Variant} {limit : Nat}
    (fits : (recordOf pointer packed fields variant).shape.size < limit) :
    finish 0 (fields.slots pointer packed) < limit ∧
      finish 0 (fields.slots pointer packed ++ variant.tag pointer packed) < limit ∧
      (variant.arms pointer packed).finish 0 < limit := by
  have size_bound := (recordOf pointer packed fields variant).finish_le_size
  have own_bound := (recordOf pointer packed fields variant).own_le_base
  have run_eq := finish_eq_base_add (record_storable_slots pointer packed fields variant)
  have front := le_finish (finish 0 (fields.slots pointer packed)) (variant.tag pointer packed)
  have own_eq : (recordOf pointer packed fields variant).own =
      fields.slots pointer packed ++ variant.tag pointer packed := rfl
  have arms_eq : (recordOf pointer packed fields variant).arms = variant.arms pointer packed := rfl
  rw [own_eq, finish_append] at own_bound
  rw [arms_eq] at run_eq
  rw [finish_append]
  omega

mutual

/-- The checker's size of a type is its natural one. -/
theorem Ty.byteSizeOf_eq : (ty : Ty) → ty.plain = true → ty.counted = true →
    (ty.shape pointer).size < 2 ^ 63 → ty.byteSizeOf pointer = some (ty.shape pointer).size
  | .cell kind, _, _, fits => congrArg some (kind.byteSize_eq pointer fits)
  | .array index elem, plain, counted, fits => by
      rw [Ty.counted, Bool.and_eq_true, decide_eq_true_eq] at counted
      have elem_size := elem.byteSizeOf_eq plain counted.2 (elem_fits fits)
      simp only [Ty.shape] at fits
      rw [Ty.byteSizeOf, ordinalRangeCount_eq counted.1, elem_size]
      simp only [Option.map_some, checkedMul64]
      rw [if_pos (by omega)]
      rfl
  | .record packed fields variant, plain, counted, fits => by
      rw [Ty.plain, Bool.and_eq_true] at plain
      rw [Ty.counted, Bool.and_eq_true] at counted
      change (recordOf pointer packed fields variant).shape.size < 2 ^ 63 at fits
      obtain ⟨fields_fits, own_fits, arms_fits⟩ := record_fits pointer fits
      obtain ⟨-, size_eq⟩ := reserve_size (record_storable_slots pointer packed fields variant)
        (variant.arms_packed pointer packed) fits
      rw [Ty.byteSizeOf, fields.place_eq plain.1 counted.1 le_rfl fields_fits, after_start,
        Option.bind_some, variant.place_eq plain.2 counted.2 own_fits arms_fits, Option.map_some]
      exact congrArg some size_eq
  | .object object, plain, counted, fits => by
      obtain ⟨walk, walk_eq, size_eq, -⟩ := object.place_eq plain counted fits
      rw [Ty.byteSizeOf, walk_eq, Option.map_some, size_eq]
      rfl
  | .schemaInstance _, plain, _, _ => absurd plain Bool.false_ne_true

theorem Obj.place_eq : (object : Obj) → object.plain = true → object.counted = true →
    (Record.mk (object.slots pointer) Arms.nil).shape.size < 2 ^ 63 →
    ∃ walk, object.place pointer = some walk ∧
      walk.off = (Record.mk (object.slots pointer) Arms.nil).shape.size ∧
      walk.align = (Record.mk (object.slots pointer) Arms.nil).shape.align
  | .root fields declares, plain, counted, fits => by
      have fields_fits : finish 0 (fields.slots pointer false) < 2 ^ 63 := front_fits fits
      refine ⟨_, by rw [Obj.place, fields.place_eq plain counted le_rfl fields_fits, after_start,
        Option.map_some], ?_⟩
      exact close_eq (fields.storable pointer false) rfl rfl fits
  | .derived parent fields declares, plain, counted, fits => by
      rw [Obj.plain, Bool.and_eq_true] at plain
      rw [Obj.counted, Bool.and_eq_true] at counted
      have front_storable : ∀ slot ∈ ⟨[], (Record.mk (parent.slots pointer) Arms.nil).shape⟩ ::
          fields.slots pointer false, Storable slot.shape := by
        intro slot is_slot
        rcases List.mem_cons.mp is_slot with rfl | in_fields
        · exact record_storable (object_storable_slots (parent.storable pointer))
        · exact fields.storable pointer false slot in_fields
      have front_fits : finish 0 (⟨[], (Record.mk (parent.slots pointer) Arms.nil).shape⟩ ::
          fields.slots pointer false) < 2 ^ 63 := front_fits fits
      have parent_fits := (size_le_finish 0
        ⟨[], (Record.mk (parent.slots pointer) Arms.nil).shape⟩ (fields.slots pointer false)).1
      obtain ⟨whole, whole_eq, off_eq, align_eq⟩ := parent.place_eq plain.1 counted.1
        (lt_of_le_of_lt parent_fits front_fits)
      have object_align := (Ty.object parent).byteAlignOf_eq pointer plain.1
      change _ = (Record.mk (parent.slots pointer) Arms.nil).shape.align at object_align
      rw [finish, roundUp_zero, Nat.zero_add, ← off_eq] at front_fits
      have own_eq : fields.place pointer false
          ⟨whole.off, (Ty.object parent).byteAlignOf pointer, whole.offsets⟩ = some _ :=
        fields.place_eq plain.2 counted.2
          (object_align ▸ (record_storable (object_storable_slots (parent.storable pointer))).sound.positive)
          front_fits
      refine ⟨_, by rw [Obj.place, whole_eq, Option.bind_some, own_eq, Option.map_some], ?_⟩
      apply close_eq front_storable _ _ fits
      · rw [Walk.after_off, finish, roundUp_zero, Nat.zero_add, off_eq]
      · rw [Walk.after_align, object_align]
        rfl

theorem Fields.place_eq {packed : Bool} : (fields : Fields) → fields.plain = true →
    fields.counted = true → {walk : Walk} → 1 ≤ walk.align →
    finish walk.off (fields.slots pointer packed) < 2 ^ 63 →
    fields.place pointer packed walk = some (walk.after (fields.slots pointer packed))
  | .nil, _, _, _, positive, _ => congrArg some (Walk.after_nil positive).symm
  | .cons name ty rest, plain, counted, walk, positive, fits => by
      rw [Fields.plain, Bool.and_eq_true] at plain
      rw [Fields.counted, Bool.and_eq_true] at counted
      rw [Fields.slots] at fits
      obtain ⟨size_le, slot_le⟩ := size_le_finish walk.off (slot packed name (ty.shape pointer))
        (rest.slots pointer packed)
      have size_eq : (slot packed name (ty.shape pointer)).shape.size = (ty.shape pointer).size := by
        cases packed <;> rfl
      rw [Fields.place, ty.byteSizeOf_eq plain.1 counted.1 (by omega), ty.byteAlignOf_eq pointer plain.1,
        Walk.place_eq (ty.storable pointer) (by omega), Option.bind_some,
        rest.place_eq plain.2 counted.2 (positive.trans (Nat.le_max_left ..)) fits, ← Walk.after_append]
      rfl

/-- The variant part of a record, behind slots of its own. -/
theorem Variant.place_eq {packed : Bool} : (variant : Variant) → variant.plain = true →
    variant.counted = true → {own : List (Slot Text)} →
    finish 0 (own ++ variant.tag pointer packed) < 2 ^ 63 →
    (variant.arms pointer packed).finish 0 < 2 ^ 63 →
    variant.place pointer packed (ownWalk own) =
      some ((ownWalk (own ++ variant.tag pointer packed)).reserve packed
        (armsWalk (variant.arms pointer packed)))
  | .absent, _, _, own, _, _ => by
      simp [Variant.place, Variant.tag, Variant.arms, armsWalk, Arms.finish, Walk.reserve, Arms.placed,
        named, ownWalk]
  | .tagged tagField tagType cases, plain, counted, own, own_fits, arms_fits => by
      rw [Variant.plain, Bool.and_eq_true] at plain
      rw [Variant.counted, Bool.and_eq_true] at counted
      rw [Variant.tag, finish_append] at own_fits
      have size_le := (size_le_finish (finish 0 own) (slot packed tagField (tagType.shape pointer)) []).1
      have size_eq : (slot packed tagField (tagType.shape pointer)).shape.size =
          (tagType.shape pointer).size := by cases packed <;> rfl
      have arms_eq : cases.reach pointer packed 0 ⟨0, 1, []⟩ = some (armsWalk (cases.arms pointer packed)) := by
        rw [← armsWalk_eq]
        exact cases.reach_eq plain.2 counted.2 le_rfl le_rfl arms_fits
      rw [Variant.place, tagType.byteSizeOf_eq plain.1 counted.1 (by omega),
        tagType.byteAlignOf_eq pointer plain.1,
        Walk.place_eq (tagType.storable pointer) own_fits, Option.bind_some,
        arms_eq, Option.map_some, ← after_start, ← Walk.after_append, after_start]
      rfl
  | .tagless cases, plain, counted, own, _, arms_fits => by
      have arms_eq : cases.reach pointer packed 0 ⟨0, 1, []⟩ = some (armsWalk (cases.arms pointer packed)) := by
        rw [← armsWalk_eq]
        exact cases.reach_eq plain counted le_rfl le_rfl arms_fits
      rw [Variant.place, arms_eq, Option.map_some, Variant.tag, List.append_nil]
      rfl

theorem Variant.placeNested_eq {packed : Bool} : (variant : Variant) → variant.plain = true →
    variant.counted = true → {walk : Walk} → 1 ≤ walk.align →
    (variant.part pointer packed).finish walk.off < 2 ^ 63 →
    variant.placeNested pointer packed walk = some (walk.afterPart (variant.part pointer packed))
  | .absent, _, _, walk, positive, _ => by
      simp [Variant.placeNested, Walk.afterPart, Variant.part, Tail.finish, Tail.slots, Tail.placed,
        slotsAlign, named, Nat.max_eq_left positive]
  | .tagged tagField tagType cases, plain, counted, walk, positive, fits => by
      rw [Variant.plain, Bool.and_eq_true] at plain
      rw [Variant.counted, Bool.and_eq_true] at counted
      rw [Variant.part, Tail.finish] at fits
      have ends := (cases.arms pointer packed).le_finish
        (finish walk.off [slot packed tagField (tagType.shape pointer)])
      have size_le := (size_le_finish walk.off (slot packed tagField (tagType.shape pointer)) []).1
      have size_eq : (slot packed tagField (tagType.shape pointer)).shape.size =
          (tagType.shape pointer).size := by cases packed <;> rfl
      rw [Variant.placeNested, tagType.byteSizeOf_eq plain.1 counted.1 (by omega),
        tagType.byteAlignOf_eq pointer plain.1, Walk.place_eq (tagType.storable pointer) (by omega),
        Option.bind_some,
        cases.reach_eq plain.2 counted.2 (positive.trans (Nat.le_max_left ..)) le_rfl fits]
      simp only [Walk.afterPart, Variant.part, Tail.finish, Tail.slots, Tail.placed, Walk.after,
        slotsAlign_append, named_append, Nat.max_assoc, List.append_assoc, Nat.max_eq_right ends]
  | .tagless cases, plain, counted, walk, positive, fits => by
      have ends := (cases.arms pointer packed).le_finish walk.off
      rw [Variant.placeNested, cases.reach_eq plain counted positive le_rfl fits, Nat.max_eq_right ends]
      rfl

theorem Cases.reach_eq {packed : Bool} : (cases : Cases) → cases.plain = true →
    cases.counted = true → {base : Nat} → {walk : Walk} → 1 ≤ walk.align → base ≤ walk.off →
    (cases.arms pointer packed).finish base < 2 ^ 63 →
    cases.reach pointer packed base walk =
      some ⟨max walk.off ((cases.arms pointer packed).finish base),
        max walk.align (slotsAlign (cases.arms pointer packed).slots),
        walk.offsets ++ named ((cases.arms pointer packed).placed base)⟩
  | .nil, _, _, base, walk, positive, le, _ => by
      simp [Cases.reach, Cases.arms, Arms.finish, Arms.slots, Arms.placed, slotsAlign, named,
        Nat.max_eq_left positive, Nat.max_eq_left le]
  | .cons fields nested rest, plain, counted, base, walk, positive, le, fits => by
      rw [Cases.plain, Bool.and_eq_true, Bool.and_eq_true] at plain
      rw [Cases.counted, Bool.and_eq_true, Bool.and_eq_true] at counted
      rw [Cases.arms, Arms.finish, max_lt_iff] at fits
      have inner := (nested.part pointer packed).le_finish (finish base (fields.slots pointer packed))
      have own_eq : fields.place pointer packed ⟨base, walk.align, walk.offsets⟩ = some _ :=
        fields.place_eq plain.1 counted.1 positive (by show finish base _ < _; omega)
      rw [Cases.reach, own_eq, Option.bind_some,
        nested.placeNested_eq plain.2.1 counted.2.1 (positive.trans (Nat.le_max_left ..)) fits.1,
        Option.bind_some, rest.reach_eq plain.2.2 counted.2.2
          ((positive.trans (Nat.le_max_left ..)).trans (Nat.le_max_left ..))
          (le.trans (Nat.le_max_left ..)) fits.2]
      simp only [Walk.afterPart, Walk.after, Cases.arms, Arms.finish, Arms.slots, Arms.placed,
        slotsAlign_append, named_append, Nat.max_assoc, List.append_assoc]

end

/-- The checker's walk over a record: its own slots, and the storage of its arms. -/
theorem recordWalk_eq {packed : Bool} {fields : Fields} {variant : Variant}
    (plain : (Ty.record packed fields variant).plain = true)
    (counted : (Ty.record packed fields variant).counted = true)
    (fits : (recordOf pointer packed fields variant).shape.size < 2 ^ 63) :
    recordWalk pointer packed fields variant =
      some ((ownWalk (recordOf pointer packed fields variant).own).reserve packed
        (armsWalk (recordOf pointer packed fields variant).arms)) := by
  rw [Ty.plain, Bool.and_eq_true] at plain
  rw [Ty.counted, Bool.and_eq_true] at counted
  obtain ⟨fields_fits, own_fits, arms_fits⟩ := record_fits pointer fits
  rw [recordWalk, fields.place_eq pointer plain.1 counted.1 le_rfl fields_fits, after_start,
    Option.bind_some, variant.place_eq pointer plain.2 counted.2 own_fits arms_fits]
  rfl

end Sizes

end Plang.Sema.Storage
