import Plang.Basic.Text
import Plang.Library.StructLayout

/-!
# Types that have storage

The types that variables and fields are stored as, and their natural layout: every component at the
next multiple of its alignment, nothing aligned in a packed record, and the arms of a variant part
at one start.
-/

namespace Plang.Sema.Storage

open StructLayout

/-! ### Types -/

/-- The widths that are stamped on ordinal types. -/
inductive OrdinalWidth where
  | bits8 | bits16 | bits32 | bits64
  deriving DecidableEq, Repr

def OrdinalWidth.bits : OrdinalWidth → Nat
  | bits8 => 8
  | bits16 => 16
  | bits32 => 32
  | bits64 => 64

/-- The width of the target's pointers. -/
inductive PointerWidth where
  | bits32 | bits64
  deriving DecidableEq, Repr

def PointerWidth.bytes : PointerWidth → Nat
  | bits32 => 4
  | bits64 => 8

/-- Types without components: integers, subranges, enumerations and loose booleans are ordinals;
pointers, `nil`, strings of no capacity and procedural values are pointers. -/
inductive Cell where
  | ordinal (width : OrdinalWidth)
  | boolean
  | char
  | real
  | single
  | complex
  | set
  | pointer
  | varString (capacity : Nat)
  | shortString (capacity : Nat)
  | file
  deriving DecidableEq, Repr

/-- Bounds in 64 bits, and not inverted. -/
structure IndexRange where
  lo : Int
  hi : Int
  lower : -2 ^ 63 ≤ lo
  ordered : lo ≤ hi
  upper : hi < 2 ^ 63
  deriving DecidableEq

def IndexRange.count (range : IndexRange) : Nat := (range.hi - range.lo + 1).toNat

theorem IndexRange.count_positive (range : IndexRange) : 0 < range.count := by
  have ordered := range.ordered
  rw [count]
  omega

mutual

inductive Ty where
  | cell (kind : Cell)
  | array (index : IndexRange) (elem : Ty)
  | record (packed : Bool) (fields : Fields) (variant : Variant)
  | object (object : Obj)
  | schemaInstance (body : Ty)

/-- Object types by their ancestors; whether one declares a virtual method. -/
inductive Obj where
  | root (fields : Fields) (declares : Bool)
  | derived (parent : Obj) (fields : Fields) (declares : Bool)

inductive Fields where
  | nil
  | cons (name : Text) (ty : Ty) (rest : Fields)

/-- A variant part, with a tag field or without. -/
inductive Variant where
  | absent
  | tagged (tagField : Text) (tagType : Ty) (cases : Cases)
  | tagless (cases : Cases)

inductive Cases where
  | nil
  | cons (fields : Fields) (nested : Variant) (rest : Cases)

end

/-- Whether the table of virtual methods is not empty: an inherited slot stays. -/
def Obj.hasVmt : Obj → Bool
  | .root _ declares => declares
  | .derived parent _ declares => parent.hasVmt || declares

/-- Whether the type is the one that the pointer to the table comes with. -/
def Obj.introducesVptr : Obj → Bool
  | .root _ declares => declares
  | .derived parent _ declares => declares && !parent.hasVmt

/-! ### Natural layout -/

/-- The capacity of a string, 255 where none was given. -/
def capacityOf (capacity : Nat) : Nat := if 0 < capacity then capacity else 255

/-- The size of a type without components, and its alignment. -/
def Cell.shape (pointer : PointerWidth) : Cell → Shape
  | .ordinal width => ⟨width.bits / 8, width.bits / 8⟩
  | .boolean => ⟨1, 1⟩
  | .char => ⟨1, 1⟩
  | .real => ⟨8, 8⟩
  | .single => ⟨4, 4⟩
  | .complex => ⟨16, 8⟩
  | .set => ⟨32, 16⟩
  | .pointer => ⟨pointer.bytes, pointer.bytes⟩
  | .varString capacity => ⟨roundUp (8 + capacityOf capacity) 8, 8⟩
  | .shortString capacity => ⟨capacityOf capacity + 1, 1⟩
  | .file => ⟨560, 8⟩

/-- A component, which is not aligned in a packed record. -/
def slot (packed : Bool) (name : Text) (shape : Shape) : Slot Text :=
  ⟨name, if packed then ⟨shape.size, 1⟩ else shape⟩

/-- The pointer to the table of virtual methods. -/
def vptrSlot : Slot Text := ⟨[], ⟨8, 8⟩⟩

mutual

def Ty.shape (pointer : PointerWidth) : Ty → Shape
  | .cell kind => kind.shape pointer
  | .array index elem => ⟨index.count * (elem.shape pointer).size, (elem.shape pointer).align⟩
  | .record packed fields variant =>
      (Record.mk (fields.slots pointer packed ++ variant.tag pointer packed)
        (variant.arms pointer packed)).shape
  | .object object => (Record.mk (object.slots pointer) Arms.nil).shape
  | .schemaInstance body => body.shape pointer

/-- An ancestor's storage stands in front of a type's own fields, as it is. -/
def Obj.slots (pointer : PointerWidth) : Obj → List (Slot Text)
  | .root fields declares => fields.slots pointer false ++ if declares then [vptrSlot] else []
  | .derived parent fields declares =>
      ⟨[], (Record.mk (parent.slots pointer) Arms.nil).shape⟩ ::
        (fields.slots pointer false ++ if declares && !parent.hasVmt then [vptrSlot] else [])

def Fields.slots (pointer : PointerWidth) (packed : Bool) : Fields → List (Slot Text)
  | .nil => []
  | .cons name ty rest => slot packed name (ty.shape pointer) :: rest.slots pointer packed

def Variant.tag (pointer : PointerWidth) (packed : Bool) : Variant → List (Slot Text)
  | .absent => []
  | .tagged tagField tagType _ => [slot packed tagField (tagType.shape pointer)]
  | .tagless _ => []

def Variant.arms (pointer : PointerWidth) (packed : Bool) : Variant → Arms Text
  | .absent => .nil
  | .tagged _ _ cases => cases.arms pointer packed
  | .tagless cases => cases.arms pointer packed

def Variant.part (pointer : PointerWidth) (packed : Bool) : Variant → Tail Text
  | .absent => .absent
  | .tagged tagField tagType cases =>
      .choice [slot packed tagField (tagType.shape pointer)] (cases.arms pointer packed)
  | .tagless cases => .choice [] (cases.arms pointer packed)

def Cases.arms (pointer : PointerWidth) (packed : Bool) : Cases → Arms Text
  | .nil => .nil
  | .cons fields nested rest =>
      .cons (fields.slots pointer packed) (nested.part pointer packed) (rest.arms pointer packed)

end

/-- A record type as slots and arms. -/
def recordOf (pointer : PointerWidth) (packed : Bool) (fields : Fields) (variant : Variant) :
    Record Text :=
  ⟨fields.slots pointer packed ++ variant.tag pointer packed, variant.arms pointer packed⟩

/-! ### Shapes are sound -/

/-- A shape that can be laid out, aligned to sixteen bytes at most. -/
structure Storable (shape : Shape) : Prop where
  sound : shape.Sound
  bound : shape.align ≤ 16

theorem storable_of_power {size : Nat} (k : Nat) (le : k ≤ 4) (positive : 0 < size)
    (whole : 2 ^ k ∣ size) : Storable ⟨size, 2 ^ k⟩ :=
  ⟨⟨⟨k, rfl⟩, whole, fun hollow => absurd positive (by simp only at hollow; omega)⟩,
    Nat.pow_le_pow_right (by decide) le⟩

theorem Cell.storable (pointer : PointerWidth) (kind : Cell) : Storable (kind.shape pointer) := by
  cases kind with
  | ordinal width =>
      cases width with
      | bits8 => exact storable_of_power 0 (by decide) (by decide) (by decide)
      | bits16 => exact storable_of_power 1 (by decide) (by decide) (by decide)
      | bits32 => exact storable_of_power 2 (by decide) (by decide) (by decide)
      | bits64 => exact storable_of_power 3 (by decide) (by decide) (by decide)
  | boolean => exact storable_of_power 0 (by decide) (by decide) (by decide)
  | char => exact storable_of_power 0 (by decide) (by decide) (by decide)
  | real => exact storable_of_power 3 (by decide) (by decide) (by decide)
  | single => exact storable_of_power 2 (by decide) (by decide) (by decide)
  | complex => exact storable_of_power 3 (by decide) (by decide) (by decide)
  | set => exact storable_of_power 4 (by decide) (by decide) (by decide)
  | pointer =>
      cases pointer with
      | bits32 => exact storable_of_power 2 (by decide) (by decide) (by decide)
      | bits64 => exact storable_of_power 3 (by decide) (by decide) (by decide)
  | varString capacity =>
      have size := le_roundUp (8 + capacityOf capacity) 8
      exact storable_of_power 3 (by decide) (by omega) (dvd_roundUp (by decide) _)
  | shortString capacity => exact storable_of_power 0 (by decide) (by omega) (one_dvd _)
  | file => exact storable_of_power 3 (by decide) (by decide) (by decide)

theorem slot_storable {packed : Bool} {name : Text} {shape : Shape} (storable : Storable shape) :
    Storable (slot packed name shape).shape := by
  rw [slot]
  cases packed with
  | false => exact storable
  | true => exact ⟨⟨⟨0, rfl⟩, one_dvd _, fun _ => rfl⟩, (by decide : (1 : Nat) ≤ 16)⟩

theorem slotsAlign_bound {slots : List (Slot Text)} (storable : ∀ slot ∈ slots, Storable slot.shape) :
    slotsAlign slots ≤ 16 := by
  induction slots with
  | nil => decide
  | cons head rest induction =>
      exact Nat.max_le.mpr ⟨(storable head List.mem_cons_self).bound,
        induction fun other is_other => storable other (List.mem_cons_of_mem _ is_other)⟩

theorem record_storable {record : Record Text} (storable : ∀ slot ∈ record.slots, Storable slot.shape) :
    Storable record.shape :=
  ⟨Record.shape_sound fun slot is_slot => (storable slot is_slot).sound, slotsAlign_bound storable⟩

theorem vptr_storable {slot : Slot Text} {present : Bool}
    (is_slot : slot ∈ if present then [vptrSlot] else []) : Storable slot.shape := by
  cases present with
  | false => exact absurd is_slot List.not_mem_nil
  | true =>
      rw [List.mem_singleton.mp is_slot]
      exact storable_of_power 3 (by decide) (by decide) (by decide)

variable (pointer : PointerWidth)

mutual

theorem Ty.storable : (ty : Ty) → Storable (ty.shape pointer)
  | .cell kind => kind.storable pointer
  | .array index elem => by
      have storable := elem.storable
      have positive := index.count_positive
      refine ⟨⟨storable.sound.power, storable.sound.whole.mul_left _, fun hollow => ?_⟩, storable.bound⟩
      exact storable.sound.hollow ((Nat.mul_eq_zero.mp hollow).resolve_left (by omega))
  | .record packed fields variant => by
      apply record_storable
      intro slot is_slot
      rcases List.mem_append.mp is_slot with in_own | in_arms
      · rcases List.mem_append.mp in_own with in_fields | in_tag
        · exact fields.storable packed slot in_fields
        · exact variant.tag_storable packed slot in_tag
      · exact variant.arms_storable packed slot in_arms
  | .object object => by
      apply record_storable
      intro slot is_slot
      rw [Record.slots, Arms.slots, List.append_nil] at is_slot
      exact object.storable slot is_slot
  | .schemaInstance body => body.storable

theorem Obj.storable : (object : Obj) → ∀ slot ∈ object.slots pointer, Storable slot.shape
  | .root fields _, slot, is_slot => by
      rcases List.mem_append.mp is_slot with in_fields | is_vptr
      · exact fields.storable false slot in_fields
      · exact vptr_storable is_vptr
  | .derived parent fields _, slot, is_slot => by
      rcases List.mem_cons.mp is_slot with rfl | is_own
      · apply record_storable
        intro other is_other
        rw [Record.slots, Arms.slots, List.append_nil] at is_other
        exact parent.storable other is_other
      · rcases List.mem_append.mp is_own with in_fields | is_vptr
        · exact fields.storable false slot in_fields
        · exact vptr_storable is_vptr

theorem Fields.storable (packed : Bool) :
    (fields : Fields) → ∀ slot ∈ fields.slots pointer packed, Storable slot.shape
  | .nil, _, is_slot => absurd is_slot List.not_mem_nil
  | .cons _ ty rest, slot, is_slot => by
      rcases List.mem_cons.mp is_slot with rfl | in_rest
      · exact slot_storable ty.storable
      · exact rest.storable packed slot in_rest

theorem Variant.tag_storable (packed : Bool) :
    (variant : Variant) → ∀ slot ∈ variant.tag pointer packed, Storable slot.shape
  | .absent, _, is_slot => absurd is_slot List.not_mem_nil
  | .tagged _ tagType _, slot, is_slot => by
      rw [List.mem_singleton.mp is_slot]
      exact slot_storable tagType.storable
  | .tagless _, _, is_slot => absurd is_slot List.not_mem_nil

theorem Variant.arms_storable (packed : Bool) :
    (variant : Variant) → ∀ slot ∈ (variant.arms pointer packed).slots, Storable slot.shape
  | .absent, _, is_slot => absurd is_slot List.not_mem_nil
  | .tagged _ _ cases, slot, is_slot => cases.storable packed slot is_slot
  | .tagless cases, slot, is_slot => cases.storable packed slot is_slot

theorem Variant.storable (packed : Bool) :
    (variant : Variant) → ∀ slot ∈ (variant.part pointer packed).slots, Storable slot.shape
  | .absent, _, is_slot => absurd is_slot List.not_mem_nil
  | .tagged _ tagType cases, slot, is_slot => by
      rcases List.mem_append.mp is_slot with in_tag | in_arms
      · rw [List.mem_singleton.mp in_tag]
        exact slot_storable tagType.storable
      · exact cases.storable packed slot in_arms
  | .tagless cases, slot, is_slot => cases.storable packed slot is_slot

theorem Cases.storable (packed : Bool) :
    (cases : Cases) → ∀ slot ∈ (cases.arms pointer packed).slots, Storable slot.shape
  | .nil, _, is_slot => absurd is_slot List.not_mem_nil
  | .cons fields nested rest, slot, is_slot => by
      rcases List.mem_append.mp is_slot with in_fields | in_others
      · exact fields.storable packed slot in_fields
      · rcases List.mem_append.mp in_others with in_nested | in_rest
        · exact nested.storable packed slot in_nested
        · exact rest.storable packed slot in_rest

end

end Plang.Sema.Storage
