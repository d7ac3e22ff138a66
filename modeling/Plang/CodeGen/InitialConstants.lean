import Plang.CodeGen.ConstructedValues
import Plang.CodeGen.TypedConst

/-!
# Initialisers of typed constants

An initialiser has in each element what the arm for it is folded to, unless an arm is for no element
or for the same one as another, or a scalar does not go into its storage; an integer never goes into
that of a real.
-/

namespace Plang.CodeGen.TypedConst

open Plang.Sema.Storage RecordTypes StructuredValue Writes MachineInt

/-! ### What arms are for -/

variable (dl : DataLayout)

/-- The element that an arm is for, and its type. -/
def position (kind : TypeKind) (ty : Ty) (k : Nat) (arm : Arm) : Option (Nat × Ty) :=
  match kind, ty with
  | .array, .array index elem => if k < index.count then some (k, elem) else none
  | .record, .record packed fields variant => (fieldOf dl packed fields variant arm).map Prod.snd
  | _, _ => none

/-- The denoters and types that the value of an arm is folded for. -/
def Folds (arm : Arm) (kind : TypeKind) (ty : Ty) (denoter : Option Ty) (as : Ty) : Prop :=
  match kind, ty with
  | .array, .array _ elem => denoter = some elem ∧ as = elem
  | .record, .record packed fields variant =>
      ∃ name element, fieldOf dl packed fields variant arm = some (name, element, as) ∧
        denoter = inSections name fields
  | _, _ => False

/-- The kind is that of the type. -/
def Shaped : TypeKind → Ty → Prop
  | .array, .array _ _ => True
  | .record, .record _ _ _ => True
  | _, _ => False

/-- A structure or an array of elements. -/
def aggregate : TypeKind → Nat → (Nat → Constant) → Constant
  | .array => .array
  | .record => .struct

/-- An arm in the element that it is for. -/
def piece (k : Nat) (entry : Nat × Ty) : Writes.Piece Nat := ⟨k, entry.1, 1⟩

/-- Each arm is for an element, which is what the arm is folded to. -/
def Positioned (kind : TypeKind) (ty : Ty) (arms : List Arm) (contents : Nat → Constant)
    (elems : Nat → Constant) : Prop :=
  ∀ k arm, arms[k]? = some arm → ∃ element as, position dl kind ty k arm = some (element, as) ∧
    elems element = contents k

/-- Whatever the arms are folded to, the initialiser has it in the elements that they are for. -/
def Lawful (kind : TypeKind) (ty : Ty) (arms : List Arm) : Prop :=
  ∀ contents : Nat → Constant, ∃ count elems,
    initArms dl (fun k _ _ => .ok (contents k)) kind arms (some ty) (Ty.lower dl ty) =
      .ok (aggregate kind count elems) ∧ Positioned dl kind ty arms contents elems

/-- Each arm is for an element, and no two for one. -/
def Kept (kind : TypeKind) (ty : Ty) (arms : List Arm) : Prop :=
  Shaped kind ty ∧ (∀ k arm, arms[k]? = some arm → (position dl kind ty k arm).isSome = true) ∧
    ∀ k l left right element as other, arms[k]? = some left → arms[l]? = some right →
      position dl kind ty k left = some (element, as) →
      position dl kind ty l right = some (element, other) → k = l

/-! ### Arms -/

section Level

variable {dl} {contents : Nat → Constant} {value : Nat → Option Ty → LType → Except Stop Constant}
  {kind : TypeKind} {ty : Ty} {arms : List Arm}

theorem initElement_puts (index : IndexRange) {elem : Ty} {k : Nat} (arm : Arm)
    (emits : value k (some elem) (Ty.lower dl elem) = .ok (contents k)) :
    Puts (fun source _ => contents source)
      (initElement value index.count elem (Ty.lower dl elem) · (arm, k))
      fun written => ∃ entry, position dl .array (.array index elem) k arm = some entry ∧
        written = piece k entry := by
  by_cases inside : k < index.count
  · refine (Puts.single (piece k (k, elem)) fun _ => Iff.rfl).congr
      (fun elems => ?_) fun written => ?_
    · simp only [initElement, if_pos inside, emits, bind, Except.bind]
      rfl
    · simp only [position, if_pos inside, Option.some.injEq, exists_eq_left']
  · refine (Puts.nothing fun written named => ?_).congr (fun elems => ?_) fun _ => Iff.rfl
    · obtain ⟨entry, position_eq, -⟩ := named
      simp only [position, if_neg inside, reduceCtorEq] at position_eq
    · simp only [initElement, if_neg inside]

theorem initField_puts {packed : Bool} {fields : Fields} {variant : Variant} {k : Nat} {arm : Arm}
    (emits : ∀ name element as, fieldOf dl packed fields variant arm = some (name, element, as) →
      value k (inSections name fields) (Ty.lower dl as) = .ok (contents k)) :
    Puts (fun source _ => contents source)
      (initField dl value packed fields variant · (arm, k))
      fun written => ∃ entry,
        position dl .record (.record packed fields variant) k arm = some entry ∧
          written = piece k entry := by
  match found : fieldOf dl packed fields variant arm with
  | none =>
      refine (Puts.nothing fun written named => ?_).congr (fun elems => ?_) fun _ => Iff.rfl
      · obtain ⟨entry, position_eq, -⟩ := named
        simp only [position, found, Option.map_none, reduceCtorEq] at position_eq
      · simp only [initField, found]
  | some (name, element, as) =>
      have emitted := emits name element as found
      refine (Puts.single (piece k (element, as)) fun _ => Iff.rfl).congr
        (fun elems => ?_) fun written => ?_
      · simp only [initField, found, emitted, bind, Except.bind]
        rfl
      · simp only [position, found, Option.map_some, Option.some.injEq, exists_eq_left']

/-- The elements hold the arms, if no two are for one. -/
theorem positioned_of_kept (kept : Kept dl kind ty arms) {elems : Nat → Constant}
    {pieces : List (Writes.Piece Nat)} {start : Nat → Constant}
    (elems_eq : elems = write (fun source _ => contents source) start pieces)
    (member : ∀ written, written ∈ pieces ↔ ∃ entry ∈ arms.zipIdx, ∃ found,
      position dl kind ty entry.2 entry.1 = some found ∧ written = piece entry.2 found) :
    Positioned dl kind ty arms contents elems := by
  obtain ⟨-, placed, injective⟩ := kept
  intro k arm is_arm
  obtain ⟨⟨element, as⟩, position_eq⟩ := Option.isSome_iff_exists.mp (placed k arm is_arm)
  have is_piece : piece k (element, as) ∈ pieces :=
    (member _).mpr ⟨(arm, k), List.mem_zipIdx_iff_getElem?.mpr is_arm, _, position_eq, rfl⟩
  have agree : ∀ other ∈ pieces, other.Agrees (piece k (element, as)) := by
    intro other is_other
    obtain ⟨⟨right, l⟩, is_entry, ⟨at_element, at_type⟩, other_eq, rfl⟩ :=
      (member other).mp is_other
    by_cases same : at_element = element
    · subst same
      have is_right : arms[l]? = some right := List.mem_zipIdx_iff_getElem?.mp is_entry
      exact .inl ⟨injective l k right arm at_element at_type as is_right is_arm other_eq position_eq,
        rfl⟩
    · refine .inr fun cell shared => ?_
      simp only [piece] at shared
      omega
  refine ⟨element, as, position_eq, ?_⟩
  rw [elems_eq]
  exact holds_write is_piece agree 0 Nat.one_pos

theorem initArms_positioned (kept : Kept dl kind ty arms)
    (emits : ∀ k arm, arms[k]? = some arm → ∀ denoter as, Folds dl arm kind ty denoter as →
      value k denoter (Ty.lower dl as) = .ok (contents k)) :
    ∃ count elems, initArms dl value kind arms (some ty) (Ty.lower dl ty) =
      .ok (aggregate kind count elems) ∧ Positioned dl kind ty arms contents elems := by
  cases kind with
  | array =>
      cases ty with
      | array index elem =>
          obtain ⟨pieces, runs, member⟩ := Puts.foldlM arms.zipIdx fun entry is_entry =>
            initElement_puts index entry.1
              (emits _ _ (List.mem_zipIdx_iff_getElem?.mp is_entry) _ _ ⟨rfl, rfl⟩)
          exact ⟨index.count, write (fun source _ => contents source)
              (fun _ => .null (Ty.lower dl elem)) pieces,
            congrArg (Except.map (Constant.array index.count)) (runs _),
            positioned_of_kept kept rfl member⟩
      | _ => exact kept.1.elim
  | record =>
      cases ty with
      | record packed fields variant =>
          obtain ⟨pieces, runs, member⟩ := Puts.foldlM arms.zipIdx fun entry is_entry =>
            initField_puts fun name element as found =>
              emits _ _ (List.mem_zipIdx_iff_getElem?.mp is_entry) _ as ⟨name, element, found, rfl⟩
          let types := elements dl packed fields variant
          exact ⟨types.length, write (fun source _ => contents source)
              (fun element => .null (types.getD element .ptr)) pieces,
            congrArg (Except.map (Constant.struct types.length)) (runs _),
            positioned_of_kept kept rfl member⟩
      | _ => exact kept.1.elim

theorem shaped_of_initArms {shape : Ty} {storage : LType} {constant : Constant}
    (folded : initArms dl value kind arms (some shape) storage = .ok constant) :
    Shaped kind shape := by
  cases kind with
  | array =>
      cases shape with
      | array index elem => trivial
      | _ => cases folded
  | record =>
      cases shape with
      | record packed fields variant => trivial
      | _ => cases folded

end Level

/-- Arms are folded into their elements if and only if each is for an element, and no two for
one. -/
theorem lawful_iff (kind : TypeKind) (ty : Ty) (arms : List Arm) :
    Lawful dl kind ty arms ↔ Kept dl kind ty arms := by
  constructor
  · intro holds
    obtain ⟨count, elems, folded, positioned⟩ := holds fun _ => .null .ptr
    refine ⟨shaped_of_initArms folded, fun k arm is_arm => ?_, ?_⟩
    · obtain ⟨element, as, position_eq, -⟩ := positioned k arm is_arm
      rw [position_eq]
      rfl
    · intro k l left right element as other is_left is_right left_eq right_eq
      -- Each of the two arms is folded to the number that it has.
      obtain ⟨_, elems, -, positioned⟩ := holds fun source => .struct source fun _ => .null .ptr
      obtain ⟨_, _, left_position, left_held⟩ := positioned k left is_left
      obtain ⟨_, _, right_position, right_held⟩ := positioned l right is_right
      rw [left_eq] at left_position
      rw [right_eq] at right_position
      cases left_position
      cases right_position
      rw [left_held] at right_held
      cases right_held
      rfl
  · intro kept contents
    exact initArms_positioned kept fun _ _ _ _ _ _ => rfl

/-! ### Scalars -/

/-- The storage of a real. -/
def IsReal : LType → Prop
  | .float => True
  | .double => True
  | _ => False

/-- A constant is the number that a scalar was folded to. -/
def Denotes (e : Folded) : Constant → Prop
  | .int _ bits =>
      ∃ ordinal, e.ConstVal = some ordinal ∧ ∃ signed, denote signed bits = ordinal.toInt
  | .fp ty real => IsReal ty ∧ e.ConstRealVal = some real
  | _ => False

def ScalarLawful (e : Folded) (ty : Ty) : Prop :=
  ∃ constant, initScalar e (Ty.lower dl ty) = .ok constant ∧ Denotes e constant

/-- An integer goes into the bits of an ordinal, and a real into those of a real. -/
def ScalarKept (e : Folded) (ty : Ty) : Prop :=
  match e.ConstVal, e.ConstRealVal, Ty.lower dl ty with
  | some ordinal, _, .int bits => ∃ signed, Fits bits signed ordinal.toInt
  | none, some _, storage => IsReal storage
  | _, _, _ => False

variable {dl}

theorem lower_int_positive {bits : Nat} : (ty : Ty) → Ty.lower dl ty = .int bits → 0 < bits
  | .cell kind, lowered => by
      cases kind with
      | ordinal width =>
          cases lowered
          cases width <;> decide
      | boolean => cases lowered; decide
      | char => cases lowered; decide
      | set => cases lowered; decide
      | _ => cases lowered
  | .array _ _, lowered => by cases lowered
  | .record _ _ _, lowered => by cases lowered
  | .object _, lowered => by cases lowered
  | .schemaInstance body, lowered => lower_int_positive body lowered

theorem scalarLawful_iff (e : Folded) (ty : Ty) : ScalarLawful dl e ty ↔ ScalarKept dl e ty := by
  rw [ScalarLawful, ScalarKept]
  match e, lowered : Ty.lower dl ty with
  | ⟨some ordinal, real⟩, .int bits =>
      have positive := lower_int_positive ty lowered
      constructor
      · rintro ⟨constant, ⟨⟩, _, ⟨⟩, signed, denoted⟩
        exact ⟨signed, denoted ▸ fits_denote signed _⟩
      · rintro ⟨signed, fits⟩
        exact ⟨_, rfl, ordinal, rfl, signed, denote_ofInt positive fits⟩
  | ⟨some ordinal, real⟩, .float
  | ⟨some ordinal, real⟩, .double
  | ⟨some ordinal, real⟩, .ptr
  | ⟨some ordinal, real⟩, .array _ _
  | ⟨some ordinal, real⟩, .struct _ _ =>
      refine iff_of_false ?_ id
      rintro ⟨constant, ⟨⟩, -⟩
  | ⟨none, some real⟩, storage =>
      constructor
      · rintro ⟨constant, ⟨⟩, is_real, -⟩
        exact is_real
      · intro is_real
        exact ⟨_, rfl, is_real, rfl⟩
  | ⟨none, none⟩, storage =>
      refine iff_of_false ?_ id
      rintro ⟨constant, ⟨⟩, -⟩

/-! ### Whole initialisers -/

variable (dl)

mutual

/-- A constant is one of a value: the number of a scalar, or in each element one of the arm for
it. -/
def IsInitial : Value Folded → Ty → Constant → Prop
  | .expr e, _, constant => Denotes e constant
  | .structured kind arms, ty, constant =>
      ∃ count elems, constant = aggregate kind count elems ∧ ArmsInitial kind ty 0 arms elems

def ArmsInitial (kind : TypeKind) (ty : Ty) : Nat → Arms Folded → (Nat → Constant) → Prop
  | _, .nil, _ => True
  | k, .cons arm value rest, elems =>
      (∃ element as, position dl kind ty k arm = some (element, as) ∧
        IsInitial value as (elems element)) ∧ ArmsInitial kind ty (k + 1) rest elems

end

/-- Every level and every scalar of a value is kept. -/
abbrev Keeps (value : Value Folded) (denoter : Option Ty) (ty : Ty) : Prop :=
  value.Each (Kept dl) (Folds dl) (ScalarKept dl) denoter ty

abbrev ArmsKeep (kind : TypeKind) (ty : Ty) (arms : Arms Folded) : Prop :=
  arms.Each (Kept dl) (Folds dl) (ScalarKept dl) kind ty

variable {dl}

/-- The value of an arm is folded once. -/
theorem folds_once {arm : Arm} {kind : TypeKind} {ty : Ty} {denoter other : Option Ty} {as as' : Ty}
    (folds : Folds dl arm kind ty denoter as) (again : Folds dl arm kind ty other as') :
    other = denoter ∧ as' = as := by
  cases kind with
  | array =>
      cases ty with
      | array index elem =>
          obtain ⟨rfl, rfl⟩ := folds
          exact again
      | _ => exact folds.elim
  | record =>
      cases ty with
      | record packed fields variant =>
          obtain ⟨name, element, found, rfl⟩ := folds
          obtain ⟨_, _, found_again, rfl⟩ := again
          rw [found] at found_again
          cases found_again
          exact ⟨rfl, rfl⟩
      | _ => exact folds.elim

theorem folds_of_position {arm : Arm} {kind : TypeKind} {ty : Ty} {k element : Nat} {as : Ty}
    (position_eq : position dl kind ty k arm = some (element, as)) :
    ∃ denoter, Folds dl arm kind ty denoter as := by
  cases kind with
  | array =>
      cases ty with
      | array index elem =>
          simp only [position, Option.ite_none_right_eq_some, Option.some.injEq,
            Prod.mk.injEq] at position_eq
          exact ⟨some elem, rfl, position_eq.2.2.symm⟩
      | _ => cases position_eq
  | record =>
      cases ty with
      | record packed fields variant =>
          obtain ⟨⟨name, found⟩, found_eq, rfl⟩ := Option.map_eq_some_iff.mp position_eq
          exact ⟨_, name, element, found_eq, rfl⟩
      | _ => cases position_eq

mutual

/-- Where every level is kept, a value is folded to a constant that is one of it. -/
theorem init_isInitial : (value : Value Folded) → {denoter : Option Ty} → {ty : Ty} →
    Keeps dl value denoter ty →
    ∃ constant, buildTypedConstInit dl value denoter (Ty.lower dl ty) = .ok constant ∧
      IsInitial dl value ty constant
  | .expr e, _, ty, keeps => (scalarLawful_iff e ty).mpr keeps
  | .structured kind arms, denoter, ty, keeps => by
      obtain ⟨denoter_eq, kept, arms_keep⟩ := keeps
      obtain ⟨contents, emits, initial⟩ := armInit_initial kind ty arms arms_keep
      obtain ⟨count, elems, folded, positioned⟩ := initArms_positioned kept emits
      refine ⟨aggregate kind count elems, ?_, count, elems, rfl,
        initial 0 elems fun k arm is_arm => ?_⟩
      · rw [buildTypedConstInit, denoter_eq]
        exact folded
      · rw [Nat.zero_add]
        exact positioned k arm is_arm

theorem armInit_initial (kind : TypeKind) (ty : Ty) : (arms : Arms Folded) →
    ArmsKeep dl kind ty arms → ∃ contents : Nat → Constant,
      (∀ k arm, arms.heads[k]? = some arm → ∀ denoter as, Folds dl arm kind ty denoter as →
        armInit dl arms k denoter (Ty.lower dl as) = .ok (contents k)) ∧
      ∀ start elems, (∀ k arm, arms.heads[k]? = some arm → ∃ element as,
        position dl kind ty (start + k) arm = some (element, as) ∧ elems element = contents k) →
        ArmsInitial dl kind ty start arms elems
  | .nil, _ => by
      refine ⟨fun _ => .null .ptr, fun k arm is_arm => ?_, fun _ _ _ => trivial⟩
      cases is_arm
  | .cons arm value rest, keeps => by
      obtain ⟨rest_contents, rest_emits, rest_initial⟩ := armInit_initial kind ty rest keeps.2
      have own : ∃ constant, ∀ denoter as, Folds dl arm kind ty denoter as →
          buildTypedConstInit dl value denoter (Ty.lower dl as) = .ok constant ∧
            IsInitial dl value as constant := by
        by_cases folded : ∃ denoter as, Folds dl arm kind ty denoter as
        · obtain ⟨denoter, as, folds⟩ := folded
          obtain ⟨constant, init, initial⟩ := init_isInitial value (keeps.1 denoter as folds)
          refine ⟨constant, fun other as' again => ?_⟩
          obtain ⟨rfl, rfl⟩ := folds_once folds again
          exact ⟨init, initial⟩
        · exact ⟨.null .ptr, fun denoter as folds => absurd ⟨denoter, as, folds⟩ folded⟩
      obtain ⟨constant, own⟩ := own
      refine ⟨fun k => if k = 0 then constant else rest_contents (k - 1), ?_, ?_⟩
      · intro k head is_arm denoter as folds
        cases k with
        | zero =>
            cases is_arm
            exact (own denoter as folds).1
        | succ k => exact rest_emits k head is_arm denoter as folds
      · intro start elems positioned
        obtain ⟨element, as, position_eq, held⟩ := positioned 0 arm rfl
        obtain ⟨denoter, folds⟩ := folds_of_position position_eq
        refine ⟨⟨element, as, position_eq, ?_⟩,
          rest_initial (start + 1) elems fun k head is_arm => ?_⟩
        · rw [held]
          exact (own denoter as folds).2
        · rw [Nat.add_right_comm]
          exact positioned (k + 1) head is_arm

end

variable (dl)

/-- The value is folded to a constant that is one of it, and no arm at any level is dropped, put
elsewhere or replaced, whatever the arms are folded to. -/
def Initialised (value : Value Folded) (denoter : Option Ty) (ty : Ty) : Prop :=
  (∃ constant, buildTypedConstInit dl value denoter (Ty.lower dl ty) = .ok constant ∧
    IsInitial dl value ty constant) ∧
    value.Each (Lawful dl) (Folds dl) (ScalarLawful dl) denoter ty

theorem initialised_iff (value : Value Folded) (denoter : Option Ty) (ty : Ty) :
    Initialised dl value denoter ty ↔ Keeps dl value denoter ty := by
  have each_iff : value.Each (Lawful dl) (Folds dl) (ScalarLawful dl) denoter ty ↔
      Keeps dl value denoter ty :=
    Value.each_iff (lawful_iff dl) scalarLawful_iff value denoter ty
  constructor
  · rintro ⟨-, lawful⟩
    exact each_iff.mp lawful
  · intro keeps
    exact ⟨init_isInitial value keeps, each_iff.mpr keeps⟩

/-- The two largest indices. -/
def lastTwo : IndexRange where
  lo := 2 ^ 63 - 2
  hi := 2 ^ 63 - 1
  lower := by decide
  ordered := by decide
  upper := by decide

end Plang.CodeGen.TypedConst
