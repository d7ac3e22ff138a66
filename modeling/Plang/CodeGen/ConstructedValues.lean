import Plang.CodeGen.ComponentValues

/-!
# Whole structured values

A structured value is built, with everything written in it at any depth, where each of its levels is,
and where each expression is stored as its value; the shape of a level is the type of the component
that it is for.
-/

namespace Plang.CodeGen.StructuredValue

open Plang.Sema.Storage RecordTypes Writes

section Each

variable {ε : Type} (level : TypeKind → Ty → List Arm → Prop)
  (emits : Arm → TypeKind → Ty → Option Ty → Ty → Prop) (leaf : ε → Ty → Prop)

mutual

/-- Every structured value in a value has the type of its component for its shape, and is so. -/
def Value.Each : Value ε → Option Ty → Ty → Prop
  | .expr e, _, ty => leaf e ty
  | .structured kind arms, denoter, ty =>
      denoter = some ty ∧ level kind ty arms.heads ∧ Arms.Each kind ty arms

def Arms.Each (kind : TypeKind) (ty : Ty) : Arms ε → Prop
  | .nil => True
  | .cons arm value rest =>
      (∀ denoter as, emits arm kind ty denoter as → Value.Each value denoter as) ∧
        Arms.Each kind ty rest

end

variable {level} {emits} {leaf} {other : TypeKind → Ty → List Arm → Prop}
  {other_leaf : ε → Ty → Prop}

mutual

theorem Value.each_iff (levels : ∀ kind ty arms, level kind ty arms ↔ other kind ty arms)
    (leaves : ∀ e ty, leaf e ty ↔ other_leaf e ty) :
    (value : Value ε) → (denoter : Option Ty) → (ty : Ty) →
    (value.Each level emits leaf denoter ty ↔ value.Each other emits other_leaf denoter ty)
  | .expr e, _, ty => leaves e ty
  | .structured kind arms, denoter, ty => by
      rw [Value.Each, Value.Each, levels, Arms.each_iff levels leaves kind ty arms]

theorem Arms.each_iff (levels : ∀ kind ty arms, level kind ty arms ↔ other kind ty arms)
    (leaves : ∀ e ty, leaf e ty ↔ other_leaf e ty) (kind : TypeKind) (ty : Ty) : (arms : Arms ε) →
    (arms.Each level emits leaf kind ty ↔ arms.Each other emits other_leaf kind ty)
  | .nil => Iff.rfl
  | .cons arm value rest => by
      rw [Arms.Each, Arms.Each, Arms.each_iff levels leaves kind ty rest]
      refine and_congr_left' (forall_congr' fun denoter => forall_congr' fun as => ?_)
      exact imp_congr_right fun _ => Value.each_iff levels leaves value denoter as

end

end Each

/-! ### Expressions -/

section Expressions

-- `bytesIn e ty` is the value of an expression as the bytes of a type.
variable {ε : Type} (dl : DataLayout) (target : Conversions) (EmitExpr : ε → Register)
  (bytesIn : ε → Ty → Image)

/-- Whatever a component of the type holds, it holds the value of the expression once that is stored,
and what lies behind it stays. -/
def StoreLawful (e : ε) (ty : Ty) : Prop :=
  ∀ image : Image,
    let after := put 0 (storeComponent dl target (EmitExpr e) ty).size
      (storeComponent dl target (EmitExpr e) ty).bytes image
    Holds after 0 (allocSize dl ty) (bytesIn e ty) ∧ ∀ cell, allocSize dl ty ≤ cell →
      after cell = image cell

/-- The stored image has the size of a component of the type, and the bytes of the value in it. -/
def Stores (e : ε) (ty : Ty) : Prop :=
  (storeComponent dl target (EmitExpr e) ty).size = allocSize dl ty ∧
    Holds (storeComponent dl target (EmitExpr e) ty).bytes 0 (allocSize dl ty) (bytesIn e ty)

variable {dl target EmitExpr bytesIn} {e : ε} {ty : Ty}

theorem storeLawful_iff :
    StoreLawful dl target EmitExpr bytesIn e ty ↔ Stores dl target EmitExpr bytesIn e ty := by
  unfold StoreLawful Stores
  generalize storeComponent dl target (EmitExpr e) ty = stored
  constructor
  · intro lawful
    have size_le : stored.size ≤ allocSize dl ty := by
      by_contra larger
      have zero := (lawful fun _ => 0).2 _ le_rfl
      have one := (lawful fun _ => 1).2 _ le_rfl
      simp only [put] at zero one
      rw [if_pos ⟨by omega, by omega⟩] at zero one
      exact absurd (zero.symm.trans one) (by decide)
    have le_size : allocSize dl ty ≤ stored.size := by
      by_contra smaller
      have zero := (lawful fun _ => 0).1 stored.size (by omega)
      have one := (lawful fun _ => 1).1 stored.size (by omega)
      simp only [put] at zero one
      rw [if_neg (by omega)] at zero one
      exact absurd (zero.trans one.symm) (by decide)
    have size_eq := le_antisymm size_le le_size
    refine ⟨size_eq, fun cell less => ?_⟩
    have held := (lawful fun _ => 0).1 cell less
    simp only [put] at held
    rwa [if_pos ⟨by omega, by omega⟩, Nat.sub_zero] at held
  · rintro ⟨size_eq, held⟩ image
    refine ⟨fun cell less => ?_, fun cell behind => ?_⟩
    · simp only [put]
      rw [if_pos ⟨by omega, by omega⟩, Nat.sub_zero]
      exact held cell less
    · simp only [put]
      rw [if_neg (by omega)]

/-- An integer of another size than an aggregate is not stored as its value: a character as a string,
or an integer as a complex number. -/
theorem not_stores_int {bits : Nat} {value : BitVec bits}
    (aggregate : isAggregateType (Ty.lower dl ty) = true) (emitted : EmitExpr e = .int bits value)
    (narrow : (bits + 7) / 8 ≠ allocSize dl ty) : ¬Stores dl target EmitExpr bytesIn e ty := by
  rintro ⟨size_eq, -⟩
  have kept : coerceToType target (.int bits value) (Ty.lower dl ty) = .int bits value := by
    cases lowered : Ty.lower dl ty with
    | array count elem => rfl
    | struct packed elems => rfl
    | _ => rw [lowered] at aggregate; cases aggregate
  have stored : storeComponent dl target (EmitExpr e) ty = ⟨(bits + 7) / 8, bytesOf value⟩ := by
    unfold storeComponent
    rw [emitted, kept, aggregate]
    rfl
  rw [stored] at size_eq
  exact narrow size_eq

example (target : Conversions) (bytesIn : Unit → Ty → Image) :
    ¬Stores lp64 target (fun _ => .int 8 120) bytesIn () (.cell (.varString 5)) :=
  not_stores_int rfl rfl (by decide)

example (target : Conversions) (bytesIn : Unit → Ty → Image) (value : BitVec 64) :
    ¬Stores lp64 target (fun _ => .int 64 value) bytesIn () (.cell .complex) :=
  not_stores_int rfl rfl (by decide)

end Expressions

/-! ### Values -/

variable {ε : Type} (dl : DataLayout) (target : Conversions) (EmitExpr : ε → Register)
  (bytesIn : ε → Ty → Image)

mutual

/-- An image is one of a value: it holds in each component one of the arm that stands for it. -/
def Value.Written : Value ε → Ty → Image → Prop
  | .expr e, ty, image => Holds image 0 (allocSize dl ty) (bytesIn e ty)
  | .structured kind arms, ty, image => Arms.Written kind ty arms.heads arms image

def Arms.Written (kind : TypeKind) (ty : Ty) (all : List Arm) : Arms ε → Image → Prop
  | .nil, _ => True
  | .cons arm value rest, image =>
      (∀ place, Stands dl all arm kind ty place → ∃ part, Value.Written value place.ty part ∧
        Holds image place.offset (allocSize dl place.ty) part) ∧
        Arms.Written kind ty all rest image

end

/-- Every level of a value is kept, and every expression in it stored as its value. -/
abbrev Value.Keeps (value : Value ε) (denoter : Option Ty) (ty : Ty) : Prop :=
  value.Each (Kept dl) (Emits dl) (Stores dl target EmitExpr bytesIn) denoter ty

abbrev Arms.Keeps (kind : TypeKind) (ty : Ty) (arms : Arms ε) : Prop :=
  arms.Each (Kept dl) (Emits dl) (Stores dl target EmitExpr bytesIn) kind ty

variable {dl target EmitExpr bytesIn}

theorem emits_of_stands {all : List Arm} {arm : Arm} {kind : TypeKind} {ty : Ty} {place : Place}
    (stands : Stands dl all arm kind ty place) : Emits dl arm kind ty place.denoter place.ty := by
  cases kind with
  | array =>
      cases ty with
      | array index elem =>
          obtain ⟨_, -, -, rfl⟩ := stands
          exact ⟨rfl, rfl⟩
      | _ => exact stands.elim
  | record =>
      cases ty with
      | record packed fields variant =>
          obtain ⟨label, is_label, is_field⟩ := stands
          exact ⟨label, is_label, place.offset, is_field⟩
      | _ => exact stands.elim

/-- The shape of a value that is kept is known from its type. -/
theorem emit_denoter {value : Value ε} {denoter : Option Ty} {ty : Ty}
    (keeps : value.Keeps dl target EmitExpr bytesIn denoter ty) (steps : Nat) :
    value.emit dl target EmitExpr steps denoter ty =
      value.emit dl target EmitExpr steps (some ty) ty := by
  cases value with
  | expr e => rfl
  | structured kind arms => rw [keeps.1]

mutual

/-- Where every level is kept, a value is built with everything that is written in it. -/
theorem Value.emit_written : (value : Value ε) → {denoter : Option Ty} → {ty : Ty} →
    value.Keeps dl target EmitExpr bytesIn denoter ty →
    ∃ image, value.emit dl target EmitExpr allSteps denoter ty = .ok (storeImage dl ty image) ∧
      value.Written dl bytesIn ty image
  | .expr e, denoter, ty, ⟨size_eq, held⟩ => by
      refine ⟨(storeComponent dl target (EmitExpr e) ty).bytes, ?_, held⟩
      rw [Value.emit, storeImage, ← size_eq]
  | .structured kind arms, denoter, ty, keeps => by
      obtain ⟨denoter_eq, ⟨ends, apart, -⟩, arms_keep⟩ := keeps
      obtain ⟨contents, emits, written⟩ := Arms.emit_written kind ty arms arms_keep
      obtain ⟨image, emitted, holds⟩ := emitArms_holds emits ends apart
      refine ⟨image, ?_, written arms.heads image fun k arm is_arm place stands =>
        holds k arm is_arm place stands⟩
      rw [Value.emit, denoter_eq, emitted]
      rfl

/-- What is emitted for the arms, and that an image that holds it is one of them. -/
theorem Arms.emit_written (kind : TypeKind) (ty : Ty) : (arms : Arms ε) →
    arms.Keeps dl target EmitExpr bytesIn kind ty → ∃ contents : Nat × Ty → Image,
      (∀ k arm, arms.heads[k]? = some arm → ∀ denoter as, Emits dl arm kind ty denoter as →
        arms.emit dl target EmitExpr allSteps k denoter as =
          .ok (storeImage dl as (contents (k, as)))) ∧
      ∀ all image, (∀ k arm, arms.heads[k]? = some arm → ∀ place, Stands dl all arm kind ty place →
        Holds image place.offset (allocSize dl place.ty) (contents (k, place.ty))) →
        arms.Written dl bytesIn kind ty all image
  | .nil, _ => by
      refine ⟨fun _ _ => 0, fun k arm is_arm => ?_, fun _ _ _ => trivial⟩
      cases is_arm
  | .cons arm value rest, keeps => by
      obtain ⟨rest_contents, rest_emits, rest_written⟩ :=
        Arms.emit_written kind ty rest keeps.2
      let own (as : Ty) : Image :=
        (((value.emit dl target EmitExpr allSteps (some as) as).toOption).map Stored.bytes).getD
          fun _ => 0
      have own_emits : ∀ denoter as, Emits dl arm kind ty denoter as →
          value.emit dl target EmitExpr allSteps denoter as = .ok (storeImage dl as (own as)) ∧
            value.Written dl bytesIn as (own as) := by
        intro denoter as emits
        have value_keeps := keeps.1 denoter as emits
        obtain ⟨image, emitted, written⟩ := Value.emit_written value value_keeps
        have own_eq : own as = image := by
          simp only [own, ← emit_denoter value_keeps, emitted]
          rfl
        rw [own_eq]
        exact ⟨emitted, written⟩
      refine ⟨fun source =>
        if source.1 = 0 then own source.2 else rest_contents (source.1 - 1, source.2), ?_, ?_⟩
      · intro k head is_arm denoter as emits
        cases k with
        | zero =>
            cases is_arm
            exact (own_emits denoter as emits).1
        | succ k => exact rest_emits k head is_arm denoter as emits
      · intro all image holds
        refine ⟨fun place stands => ⟨own place.ty, ?_, holds 0 arm rfl place stands⟩, ?_⟩
        · exact (own_emits _ _ (emits_of_stands stands)).2
        · exact rest_written all image fun k head is_arm => holds (k + 1) head is_arm

end

variable (dl target EmitExpr bytesIn)

/-- The value is built with everything that is written in it, no arm at any level is dropped, put
elsewhere or written over, whatever the arms are, and each expression is stored as its value,
whatever the component holds before. -/
def Value.Built (value : Value ε) (denoter : Option Ty) (ty : Ty) : Prop :=
  (∃ steps image,
    value.emit dl target EmitExpr steps denoter ty = .ok (storeImage dl ty image) ∧
      value.Written dl bytesIn ty image) ∧
    value.Each (Lawful dl) (Emits dl) (StoreLawful dl target EmitExpr bytesIn) denoter ty

theorem built_iff (value : Value ε) (denoter : Option Ty) (ty : Ty) :
    value.Built dl target EmitExpr bytesIn denoter ty ↔
      value.Keeps dl target EmitExpr bytesIn denoter ty := by
  have each_iff : value.Each (Lawful dl) (Emits dl) (StoreLawful dl target EmitExpr bytesIn)
      denoter ty ↔ value.Keeps dl target EmitExpr bytesIn denoter ty :=
    Value.each_iff (lawful_iff dl) (fun _ _ => storeLawful_iff) value denoter ty
  constructor
  · rintro ⟨-, lawful⟩
    exact each_iff.mp lawful
  · intro keeps
    exact ⟨⟨allSteps, value.emit_written keeps⟩, each_iff.mpr keeps⟩

end Plang.CodeGen.StructuredValue
