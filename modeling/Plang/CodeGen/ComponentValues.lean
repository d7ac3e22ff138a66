import Plang.CodeGen.StructuredValue

/-!
# Components of structured values

A constructor holds in each component what the arm for it holds, unless a loop of the generator does
not end, a shape is not found, or arms stand for components that share storage.
-/

namespace Plang.CodeGen.StructuredValue

open Plang.Sema.Storage StructLayout RecordTypes Writes

/-! ### What arms stand for -/

def Label.Names (i : Int) : Label → Prop
  | .range (some low) (some high) => low.toInt ≤ i ∧ i ≤ high.toInt
  | .expr _ (some folded) => i = folded.toInt
  | _ => False

/-- The labels of an arm, which is not the completer, name an index. -/
def Arm.Names (arm : Arm) (i : Int) : Prop :=
  arm.isOtherwise = false ∧ ∃ label ∈ arm.labels, label.Names i

/-- A component: its denoter where it is looked up, its type and its offset. -/
structure Place where
  denoter : Option Ty
  ty : Ty
  offset : Nat

variable (dl : DataLayout)

/-- The value of an arm, as the piece that it is in a component. -/
def Place.piece (k : Nat) (place : Place) : Writes.Piece (Nat × Ty) :=
  ⟨(k, place.ty), place.offset, allocSize dl place.ty⟩

def component (index : IndexRange) (elem : Ty) (i : Int) : Place :=
  ⟨some elem, elem, (i - index.lo).toNat * allocSize dl elem⟩

/-- A label is the name of a field that has an element. -/
def FieldOf (packed : Bool) (fields : Fields) (variant : Variant) (label : Label) (place : Place) :
    Prop :=
  ∃ name folded, label = .expr (some name) folded ∧
    findField dl packed fields variant name = some (some place.offset, place.ty) ∧
    place.denoter = fieldDenoter fields variant name

/-- An arm stands for a component: one that its labels name, or for a completer one that no labels
name. -/
def Stands (arms : List Arm) (arm : Arm) : TypeKind → Ty → Place → Prop
  | .array, .array index elem, place =>
      ∃ i, (index.lo ≤ i ∧ i ≤ index.hi) ∧
        (arm.Names i ∨ arm.isOtherwise = true ∧ ∀ other ∈ arms, ¬other.Names i) ∧
        place = component dl index elem i
  | .record, .record packed fields variant, place =>
      ∃ label ∈ arm.labels, FieldOf dl packed fields variant label place
  | _, _, _ => False

/-- The denoters and types that the value of an arm is emitted for. -/
def Emits (arm : Arm) : TypeKind → Ty → Option Ty → Ty → Prop
  | .array, .array _ elem, denoter, ty => denoter = some elem ∧ ty = elem
  | .record, .record packed fields variant, denoter, ty =>
      ∃ label ∈ arm.labels, ∃ offset, FieldOf dl packed fields variant label ⟨denoter, ty, offset⟩
  | _, _, _, _ => False

/-- No part of an arm is left out: each label names a component, and there is one. -/
def Lands (arm : Arm) : TypeKind → Ty → Prop
  | .array, .array index _ =>
      arm.isOtherwise = true ∨
        (∃ i, arm.Names i) ∧ ∀ i, arm.Names i → index.lo ≤ i ∧ i ≤ index.hi
  | .record, .record packed fields variant =>
      arm.labels ≠ [] ∧ ∀ label ∈ arm.labels, ∃ name folded offset ty,
        label = .expr (some name) folded ∧
          findField dl packed fields variant name = some (offset, ty) ∧
          (offset = none → allocSize dl ty = 0)
  | _, _ => False

/-- The counter goes past the end of the range before it wraps. -/
def Label.Ends : Label → Prop
  | .range (some low) (some high) => high.toInt < low.toInt ∨ high.toInt < 2 ^ 63 - 1
  | .expr _ (some _) => True
  | _ => False

/-- The arms are emitted. -/
def Ends (arms : List Arm) : TypeKind → Ty → Prop
  | .array, .array index _ =>
      index.count < 2 ^ 64 ∧
        (∀ arm ∈ arms, arm.isOtherwise = true → index.hi < 2 ^ 63 - 1) ∧
        ∀ arm ∈ arms, arm.isOtherwise = false → ∀ label ∈ arm.labels, label.Ends
  | .record, .record _ _ _ => True
  | _, _ => False

/-- Two arms, or two types of one, do not share storage. -/
def Apart (arms : List Arm) (kind : TypeKind) (ty : Ty) : Prop :=
  ∀ k l left right place other, arms[k]? = some left → arms[l]? = some right →
    Stands dl arms left kind ty place → Stands dl arms right kind ty other →
    (place.piece dl k).Agrees (other.piece dl l)

/-- Whatever the arms hold, the value is built and holds it in the components that they stand for,
and no arm is left out. -/
def Lawful (kind : TypeKind) (ty : Ty) (arms : List Arm) : Prop :=
  (∀ contents : Nat × Ty → Image, ∃ steps image,
    emitArms dl (fun k _ as => .ok (storeImage dl as (contents (k, as)))) steps kind arms
        (some ty) = .ok image ∧
      ∀ k arm, arms[k]? = some arm → ∀ place, Stands dl arms arm kind ty place →
        Holds image place.offset (allocSize dl place.ty) (contents (k, place.ty))) ∧
    ∀ arm ∈ arms, Lands dl arm kind ty

/-- The arms are emitted, do not share storage, and none is left out. -/
def Kept (kind : TypeKind) (ty : Ty) (arms : List Arm) : Prop :=
  Ends arms kind ty ∧ Apart dl arms kind ty ∧ ∀ arm ∈ arms, Lands dl arm kind ty

/-! ### Loops -/

theorem toInt_firstIndex (index : IndexRange) : (firstIndex index).toInt = index.lo :=
  Int64.toInt_ofInt_of_le index.lower (by have := index.ordered; have := index.upper; omega)

theorem toInt_lastIndex (index : IndexRange) : (lastIndex index).toInt = index.hi :=
  Int64.toInt_ofInt_of_le (by have := index.ordered; have := index.lower; omega) index.upper

theorem toInt_next {i : Int64} (fits : i.toInt < 2 ^ 63 - 1) : (i + 1).toInt = i.toInt + 1 := by
  have lower := i.le_toInt
  rw [Int64.toInt_add, Int64.toInt_one]
  exact Int.bmod_eq_of_le (by omega) (by omega)

/-- A loop that ends before the largest integer goes through the range. -/
theorem loop_done {hi : Int64} : ∀ {steps : Nat} {i : Int64},
    hi.toInt < i.toInt ∨ hi.toInt < 2 ^ 63 - 1 → hi.toInt - i.toInt < steps →
    ∃ walked, loop steps i hi = .ok walked ∧
      ∀ j, j ∈ walked ↔ i.toInt ≤ j.toInt ∧ j.toInt ≤ hi.toInt := by
  intro steps
  induction steps with
  | zero =>
      intro i _ enough
      refine ⟨[], ?_, fun j => iff_of_false List.not_mem_nil (by omega)⟩
      rw [loop, if_neg (by rw [Int64.le_iff_toInt_le]; omega)]
  | succ steps induction =>
      intro i ends enough
      by_cases le : i.toInt ≤ hi.toInt
      · have next : (i + 1).toInt = i.toInt + 1 := toInt_next (by omega)
        obtain ⟨walked, runs, member⟩ := induction (i := i + 1) (.inr (by omega)) (by omega)
        refine ⟨i :: walked, ?_, fun j => ?_⟩
        · rw [loop, if_pos (Int64.le_iff_toInt_le.mpr le)]
          simp only [runs]
          rfl
        · rw [List.mem_cons, member, next, ← Int64.toInt_inj]
          omega
      · refine ⟨[], ?_, fun j => iff_of_false List.not_mem_nil (by omega)⟩
        rw [loop, if_neg (by rw [Int64.le_iff_toInt_le]; exact le)]

/-- A loop up to the largest integer never ends. -/
theorem loop_stuck {hi : Int64} (largest : ¬hi.toInt < 2 ^ 63 - 1) (steps : Nat) (i : Int64) :
    loop steps i hi = .error .steps := by
  have upper := hi.toInt_lt
  induction steps generalizing i with
  | zero =>
      have below := i.toInt_lt
      rw [loop, if_pos (Int64.le_iff_toInt_le.mpr (by omega))]
  | succ steps induction =>
      have below := i.toInt_lt
      rw [loop, if_pos (Int64.le_iff_toInt_le.mpr (by omega))]
      simp only [induction]
      rfl

/-- A loop that ends is one of those. -/
theorem ends_of_loop {steps : Nat} {i hi : Int64} {walked : List Int64}
    (ended : loop steps i hi = .ok walked) : hi.toInt < i.toInt ∨ hi.toInt < 2 ^ 63 - 1 := by
  by_contra endless
  rw [not_or] at endless
  rw [loop_stuck endless.2] at ended
  cases ended

/-- Enough steps for every loop. -/
def allSteps : Nat := 2 ^ 64

theorem loop_all (low high : Int64) (ends : high.toInt < low.toInt ∨ high.toInt < 2 ^ 63 - 1) :
    ∃ walked, loop allSteps low high = .ok walked ∧
      ∀ j, j ∈ walked ↔ low.toInt ≤ j.toInt ∧ j.toInt ≤ high.toInt := by
  have lower := low.le_toInt
  have upper := high.toInt_lt
  refine loop_done ends ?_
  change high.toInt - low.toInt < ((2 ^ 64 : Nat) : Int)
  omega

/-! ### The pieces of an array -/

section Array

variable {contents : Nat × Ty → Image} (index : IndexRange) (elem : Ty) (k : Nat)

theorem storeAt_puts (idx : Int64) :
    Puts (ε := Stop) contents
      (fun image =>
        .ok (storeAt dl index elem (storeImage dl elem (contents (k, elem))) image idx))
      fun piece => (index.lo ≤ idx.toInt ∧ idx.toInt ≤ index.hi) ∧
        piece = (component dl index elem idx.toInt).piece dl k := by
  by_cases outside : idx.toInt < index.lo ∨ index.hi < idx.toInt
  · refine (Puts.nothing fun piece inside => ?_).congr (fun image => ?_) fun _ => Iff.rfl
    · obtain ⟨⟨lower, upper⟩, -⟩ := inside
      omega
    · rw [storeAt, if_pos outside]
  · refine (Puts.single ((component dl index elem idx.toInt).piece dl k)
      fun _ => Iff.rfl).congr (fun image => ?_) fun piece => and_iff_right ⟨by omega, by omega⟩
    rw [storeAt, if_neg outside]
    rfl

/-- A loop stores a value at the indices of a range that are in the array. -/
theorem loop_puts {low high : Int64} {walked : List Int64}
    (member : ∀ j, j ∈ walked ↔ low.toInt ≤ j.toInt ∧ j.toInt ≤ high.toInt) :
    Puts (ε := Stop) contents
      (fun image =>
        .ok (walked.foldl (storeAt dl index elem (storeImage dl elem (contents (k, elem)))) image))
      fun piece => ∃ i, (low.toInt ≤ i ∧ i ≤ high.toInt) ∧ (index.lo ≤ i ∧ i ≤ index.hi) ∧
        piece = (component dl index elem i).piece dl k := by
  refine (Puts.foldl walked fun idx _ => storeAt_puts dl index elem k idx).congr (fun _ => rfl)
    fun piece => ?_
  constructor
  · rintro ⟨i, named, inside, rfl⟩
    have lower := index.lower
    have upper := index.upper
    have i_eq : (Int64.ofInt i).toInt = i := Int64.toInt_ofInt_of_le (by omega) (by omega)
    exact ⟨Int64.ofInt i, (member _).mpr (by rwa [i_eq]), by rwa [i_eq], by rw [i_eq]⟩
  · rintro ⟨idx, walks, inside, rfl⟩
    exact ⟨idx.toInt, (member idx).mp walks, inside, rfl⟩

theorem emitLabel_puts {label : Label} (ends : label.Ends) :
    Puts contents (emitLabel dl allSteps index elem (storeImage dl elem (contents (k, elem))) · label)
      fun piece => ∃ i, label.Names i ∧ (index.lo ≤ i ∧ i ≤ index.hi) ∧
        piece = (component dl index elem i).piece dl k := by
  match label, ends with
  | .range (some low) (some high), ends =>
      obtain ⟨walked, runs, member⟩ := loop_all low high ends
      refine (loop_puts dl index elem k member).congr (fun image => ?_) fun _ => Iff.rfl
      simp only [emitLabel, labelIndex, runs, bind, Except.bind]
      rfl
  | .expr _ (some folded), _ =>
      refine (storeAt_puts dl index elem k folded).congr (fun image => rfl) fun piece => ?_
      exact exists_eq_left

variable {value : Nat → Option Ty → Ty → Except Stop Stored} {arm : Arm}

theorem emitOtherwise_puts (emits : value k (some elem) elem = .ok (storeImage dl elem (contents (k, elem))))
    (ends : arm.isOtherwise = true → index.hi < 2 ^ 63 - 1) :
    Puts contents (emitOtherwise dl value allSteps index elem · (arm, k))
      fun piece => arm.isOtherwise = true ∧ ∃ i, (index.lo ≤ i ∧ i ≤ index.hi) ∧
        piece = (component dl index elem i).piece dl k := by
  cases completer : arm.isOtherwise with
  | false =>
      refine (Puts.nothing fun piece is_piece => ?_).congr (fun image => ?_) fun _ => Iff.rfl
      · cases is_piece.1
      · simp only [emitOtherwise, completer]
        rfl
  | true =>
      have range_ends := ends completer
      rw [← toInt_lastIndex] at range_ends
      obtain ⟨walked, runs, member⟩ := loop_all (firstIndex index) _ (.inr range_ends)
      refine (loop_puts dl index elem k member).congr (fun image => ?_) fun piece => ?_
      · simp only [emitOtherwise, completer, emits, runs, bind, Except.bind]
        rfl
      · simp only [toInt_firstIndex, toInt_lastIndex, true_and, and_self_left]

theorem emitArm_puts (emits : value k (some elem) elem = .ok (storeImage dl elem (contents (k, elem))))
    (ends : arm.isOtherwise = false → ∀ label ∈ arm.labels, label.Ends) :
    Puts contents (emitArm dl value allSteps index elem · (arm, k))
      fun piece => ∃ i, arm.Names i ∧ (index.lo ≤ i ∧ i ≤ index.hi) ∧
        piece = (component dl index elem i).piece dl k := by
  cases completer : arm.isOtherwise with
  | false =>
      refine (Puts.foldlM arm.labels fun label is_label =>
        emitLabel_puts dl index elem k (ends completer label is_label)).congr (fun image => ?_)
        fun piece => ?_
      · simp only [emitArm, completer, emits, bind, Except.bind]
        rfl
      · simp only [Arm.Names, completer, true_and]
        exact ⟨fun ⟨i, ⟨label, is_label, named⟩, rest⟩ => ⟨label, is_label, i, named, rest⟩,
          fun ⟨label, is_label, i, named, rest⟩ => ⟨i, ⟨label, is_label, named⟩, rest⟩⟩
  | true =>
      refine (Puts.nothing fun piece is_piece => ?_).congr (fun image => ?_) fun _ => Iff.rfl
      · obtain ⟨i, named, -⟩ := is_piece
        rw [Arm.Names, completer] at named
        cases named.1
      · simp only [emitArm, completer]
        rfl

/-- Different components of an array share no cell. -/
theorem component_apart {i j : Int} (l : Nat) (i_lower : index.lo ≤ i) (j_lower : index.lo ≤ j)
    (ne : i ≠ j) :
    ((component dl index elem i).piece dl k).Apart ((component dl index elem j).piece dl l) := by
  intro cell shared
  simp only [component, Place.piece] at shared
  generalize size_eq : allocSize dl elem = size at shared
  have blocks : ∀ m n : Nat, m < n → m * size + size ≤ n * size := fun m n lt => by
    rw [← Nat.succ_mul]
    exact Nat.mul_le_mul_right size lt
  rcases lt_or_gt_of_ne ne with lt | lt
  · have block := blocks (i - index.lo).toNat (j - index.lo).toNat (by omega)
    omega
  · have block := blocks (j - index.lo).toNat (i - index.lo).toNat (by omega)
    omega

end Array

/-! ### Arms -/

section Level

variable {dl} {contents : Nat × Ty → Image} {value : Nat → Option Ty → Ty → Except Stop Stored}
  {arms : List Arm}

theorem emitArray_holds {index : IndexRange} {elem : Ty}
    (emits : ∀ k arm, arms[k]? = some arm →
      value k (some elem) elem = .ok (storeImage dl elem (contents (k, elem))))
    (ends : Ends arms .array (.array index elem))
    (apart : Apart dl arms .array (.array index elem)) :
    ∃ image, emitArray dl value allSteps arms (some (.array index elem)) = .ok image ∧
      ∀ k arm, arms[k]? = some arm → ∀ place, Stands dl arms arm .array (.array index elem) place →
        Holds image place.offset (allocSize dl place.ty) (contents (k, place.ty)) := by
  obtain ⟨counted, completers_end, labels_end⟩ := ends
  obtain ⟨front, front_runs, in_front⟩ := Puts.foldlM arms.zipIdx fun entry is_entry =>
    have is_arm := List.mem_zipIdx_iff_getElem?.mp is_entry
    emitOtherwise_puts dl index elem entry.2 (emits _ _ is_arm)
      (completers_end _ (List.mem_of_getElem? is_arm))
  obtain ⟨back, back_runs, in_back⟩ := Puts.foldlM arms.zipIdx fun entry is_entry =>
    have is_arm := List.mem_zipIdx_iff_getElem?.mp is_entry
    emitArm_puts dl index elem entry.2 (emits _ _ is_arm)
      (labels_end _ (List.mem_of_getElem? is_arm))
  refine ⟨write contents (write contents (fun _ => 0) front) back, ?_, ?_⟩
  · rw [emitArray, ordinalRangeCount_eq counted]
    exact (congrArg (· >>= arms.zipIdx.foldlM (emitArm dl value allSteps index elem))
      (front_runs _)).trans (back_runs _)
  intro k arm is_arm place stands
  have agree_back : ∀ other ∈ back, other.Agrees (place.piece dl k) := by
    intro other is_other
    obtain ⟨⟨right, l⟩, is_entry, j, named, inside, rfl⟩ := (in_back other).mp is_other
    exact apart l k right arm _ place (List.mem_zipIdx_iff_getElem?.mp is_entry) is_arm
      ⟨j, inside, .inl named, rfl⟩ stands
  have unfolded := stands
  obtain ⟨i, inside, stands_for, rfl⟩ := unfolded
  rcases stands_for with named | ⟨completer, unnamed⟩
  · exact holds_write ((in_back _).mpr
      ⟨(arm, k), List.mem_zipIdx_iff_getElem?.mpr is_arm, i, named, inside, rfl⟩) agree_back
  · refine Holds.write (holds_write ((in_front _).mpr ⟨(arm, k),
      List.mem_zipIdx_iff_getElem?.mpr is_arm, completer, i, inside, rfl⟩) fun other is_other => ?_)
      agree_back
    obtain ⟨⟨right, l⟩, is_entry, other_completer, j, j_inside, rfl⟩ := (in_front other).mp is_other
    by_cases same : j = i
    · rw [same]
      exact apart l k right arm _ _ (List.mem_zipIdx_iff_getElem?.mp is_entry) is_arm
        ⟨i, inside, .inr ⟨other_completer, unnamed⟩, rfl⟩ stands
    · exact .inr (component_apart dl index elem l k j_inside.1 inside.1 same)

section Record

variable {packed : Bool} {fields : Fields} {variant : Variant}

theorem emitField_puts (k : Nat) {label : Label}
    (emits : ∀ place, FieldOf dl packed fields variant label place →
      value k place.denoter place.ty = .ok (storeImage dl place.ty (contents (k, place.ty)))) :
    Puts contents (emitField dl value packed fields variant k · label)
      fun piece => ∃ place, FieldOf dl packed fields variant label place ∧
        piece = place.piece dl k := by
  have passed (skips : ∀ image, emitField dl value packed fields variant k image label = .ok image)
      (no_field : ∀ place, ¬FieldOf dl packed fields variant label place) :
      Puts contents (emitField dl value packed fields variant k · label)
        fun piece => ∃ place, FieldOf dl packed fields variant label place ∧
          piece = place.piece dl k :=
    (Puts.nothing fun _ ⟨place, is_field, _⟩ => no_field place is_field).congr skips
      fun _ => Iff.rfl
  match label, emits, passed with
  | .range _ _, _, passed =>
      exact passed (fun _ => rfl) fun place is_field => by
        obtain ⟨_, _, label_eq, -⟩ := is_field
        cases label_eq
  | .expr none _, _, passed =>
      exact passed (fun _ => rfl) fun place is_field => by
        obtain ⟨_, _, label_eq, -⟩ := is_field
        cases label_eq
  | .expr (some name) folded, emits, passed =>
      match found : findField dl packed fields variant name with
      | none =>
          refine passed (fun image => by rw [emitField, found]) fun place is_field => ?_
          obtain ⟨_, _, ⟨⟩, found_eq, -⟩ := is_field
          rw [found] at found_eq
          cases found_eq
      | some (none, ty) =>
          refine passed (fun image => by rw [emitField, found]) fun place is_field => ?_
          obtain ⟨_, _, ⟨⟩, found_eq, -⟩ := is_field
          rw [found] at found_eq
          cases found_eq
      | some (some offset, ty) =>
          have is_field : FieldOf dl packed fields variant (.expr (some name) folded)
              ⟨fieldDenoter fields variant name, ty, offset⟩ := ⟨name, folded, rfl, found, rfl⟩
          have emitted := emits _ is_field
          refine (Puts.single (Place.piece dl k
            ⟨fieldDenoter fields variant name, ty, offset⟩) fun _ => Iff.rfl).congr
            (fun image => ?_) fun piece => ?_
          · rw [emitField, found]
            simp only [emitted, bind, Except.bind]
            rfl
          · constructor
            · rintro ⟨⟨denoter, other, at_offset⟩, ⟨_, _, ⟨⟩, found_eq, -⟩, rfl⟩
              rw [found] at found_eq
              cases found_eq
              rfl
            · rintro rfl
              exact ⟨_, is_field, rfl⟩

theorem emitRecord_holds
    (emits : ∀ k arm, arms[k]? = some arm → ∀ label ∈ arm.labels, ∀ place,
      FieldOf dl packed fields variant label place →
        value k place.denoter place.ty = .ok (storeImage dl place.ty (contents (k, place.ty))))
    (apart : Apart dl arms .record (.record packed fields variant)) :
    ∃ image, emitRecord dl value arms (some (.record packed fields variant)) = .ok image ∧
      ∀ k arm, arms[k]? = some arm →
        ∀ place, Stands dl arms arm .record (.record packed fields variant) place →
          Holds image place.offset (allocSize dl place.ty) (contents (k, place.ty)) := by
  obtain ⟨pieces, runs, member⟩ := Puts.foldlM arms.zipIdx fun entry is_entry =>
    Puts.foldlM entry.1.labels fun label is_label => emitField_puts entry.2
      (emits _ _ (List.mem_zipIdx_iff_getElem?.mp is_entry) label is_label)
  refine ⟨write contents (fun _ => 0) pieces, runs _, ?_⟩
  intro k arm is_arm place stands
  obtain ⟨label, is_label, is_field⟩ := stands
  refine holds_write ((member _).mpr ⟨(arm, k), List.mem_zipIdx_iff_getElem?.mpr is_arm, label,
    is_label, place, is_field, rfl⟩) fun other is_other => ?_
  obtain ⟨⟨right, l⟩, is_entry, right_label, is_right, right_place, right_field, rfl⟩ :=
    (member other).mp is_other
  exact apart l k right arm _ _ (List.mem_zipIdx_iff_getElem?.mp is_entry) is_arm
    ⟨right_label, is_right, right_field⟩ ⟨label, is_label, is_field⟩

end Record

/-- Arms that are emitted and do not share storage are held by what is built. -/
theorem emitArms_holds {kind : TypeKind} {ty : Ty}
    (emits : ∀ k arm, arms[k]? = some arm → ∀ denoter as, Emits dl arm kind ty denoter as →
      value k denoter as = .ok (storeImage dl as (contents (k, as))))
    (ends : Ends arms kind ty) (apart : Apart dl arms kind ty) :
    ∃ image, emitArms dl value allSteps kind arms (some ty) = .ok image ∧
      ∀ k arm, arms[k]? = some arm → ∀ place, Stands dl arms arm kind ty place →
        Holds image place.offset (allocSize dl place.ty) (contents (k, place.ty)) := by
  cases kind with
  | array =>
      cases ty with
      | array index elem =>
          exact emitArray_holds (fun k arm is_arm => emits k arm is_arm _ _ ⟨rfl, rfl⟩) ends apart
      | _ => exact absurd ends id
  | record =>
      cases ty with
      | record packed fields variant =>
          exact emitRecord_holds (fun k arm is_arm label is_label place is_field =>
            emits k arm is_arm _ _ ⟨label, is_label, place.offset, is_field⟩) apart
      | _ => exact absurd ends id

end Level

/-! ### What is emitted has ended -/

theorem ok_of_bind {α β : Type} {first : Except Stop α} {next : α → Except Stop β} {result : β}
    (ended : (first >>= next) = .ok result) :
    ∃ middle, first = .ok middle ∧ next middle = .ok result := by
  cases first with
  | error failure => cases ended
  | ok middle => exact ⟨middle, rfl, ended⟩

theorem ok_of_map {α β : Type} {first : Except Stop α} {next : α → β} {result : β}
    (ended : first.map next = .ok result) : ∃ middle, first = .ok middle := by
  cases first with
  | error failure => cases ended
  | ok middle => exact ⟨middle, rfl⟩

theorem counted_of_count {index : IndexRange} {count : Nat}
    (counted : ordinalRangeCount index = some count) : index.count < 2 ^ 64 := by
  have lower := index.lower
  have upper := index.upper
  rw [ordinalRangeCount] at counted
  split at counted
  · cases counted
  · rw [IndexRange.count]
    omega

theorem some_of_labelIndex {folded : Option Int64} {idx : Int64}
    (found : labelIndex folded = .ok idx) : folded = some idx := by
  cases folded with
  | none => cases found
  | some _ => cases found; rfl

section Ended

variable {dl} {steps : Nat} {arms : List Arm} {image : Image}

theorem ends_of_emitLabel {index : IndexRange} {elem : Ty} {val : Stored} {before : Image}
    {label : Label}
    (emitted : emitLabel dl steps index elem val before label = .ok image) : label.Ends := by
  cases label with
  | range low high =>
      obtain ⟨rlo, low_found, emitted⟩ := ok_of_bind emitted
      obtain ⟨rhi, high_found, emitted⟩ := ok_of_bind emitted
      obtain ⟨walked, ended, -⟩ := ok_of_bind emitted
      rw [some_of_labelIndex low_found, some_of_labelIndex high_found]
      exact ends_of_loop ended
  | expr ident folded =>
      obtain ⟨idx, found, -⟩ := ok_of_bind emitted
      rw [some_of_labelIndex found]
      trivial

variable {value : Nat → Option Ty → Ty → Except Stop Stored}

theorem ends_of_emitArray {index : IndexRange} {elem : Ty}
    (emitted : emitArray dl value steps arms (some (.array index elem)) = .ok image) :
    Ends arms .array (.array index elem) := by
  rw [emitArray] at emitted
  split at emitted
  · cases emitted
  · rename_i count counted
    obtain ⟨filled, filling, storing⟩ := ok_of_bind emitted
    refine ⟨counted_of_count counted, fun arm is_arm completer => ?_,
      fun arm is_arm labelled label is_label => ?_⟩
    · obtain ⟨k, is_arm⟩ := List.getElem?_of_mem is_arm
      obtain ⟨before, after, stepped⟩ :=
        step_of_foldlM (List.mem_zipIdx_iff_getElem? (x := (arm, k)).mpr is_arm) filling
      rw [emitOtherwise, completer] at stepped
      obtain ⟨val, -, stepped⟩ := ok_of_bind stepped
      obtain ⟨walked, ended, -⟩ := ok_of_bind stepped
      have ordered := index.ordered
      have ends := ends_of_loop ended
      rw [toInt_lastIndex, toInt_firstIndex] at ends
      omega
    · obtain ⟨k, is_arm⟩ := List.getElem?_of_mem is_arm
      obtain ⟨before, after, stepped⟩ :=
        step_of_foldlM (List.mem_zipIdx_iff_getElem? (x := (arm, k)).mpr is_arm) storing
      rw [emitArm, labelled] at stepped
      obtain ⟨val, -, stepped⟩ := ok_of_bind stepped
      obtain ⟨_, _, emitted⟩ := step_of_foldlM is_label stepped
      exact ends_of_emitLabel emitted

theorem ends_of_emitArms {kind : TypeKind} {ty : Ty}
    (emitted : emitArms dl value steps kind arms (some ty) = .ok image) : Ends arms kind ty := by
  cases kind with
  | array =>
      cases ty with
      | array index elem => exact ends_of_emitArray emitted
      | _ => cases emitted
  | record =>
      cases ty with
      | record packed fields variant => trivial
      | _ => cases emitted

end Ended

/-- Arms hold what they do in their components if and only if they are emitted, do not share storage
and are not left out. -/
theorem lawful_iff (kind : TypeKind) (ty : Ty) (arms : List Arm) :
    Lawful dl kind ty arms ↔ Kept dl kind ty arms := by
  constructor
  · rintro ⟨holds, lands⟩
    obtain ⟨steps, image, emitted, -⟩ := holds fun _ _ => 0
    refine ⟨ends_of_emitArms emitted, ?_, lands⟩
    intro k l left right place other is_left is_right left_stands right_stands
    have bytes_differ : Nontrivial UInt8 := ⟨0, 1, by decide⟩
    apply agrees_of_holds (β := UInt8)
    intro contents
    obtain ⟨steps, image, -, held⟩ := holds contents
    exact ⟨image, held k left is_left place left_stands, held l right is_right other right_stands⟩
  · rintro ⟨ends, apart, lands⟩
    refine ⟨fun contents => ?_, lands⟩
    exact ⟨allSteps, emitArms_holds (fun _ _ _ _ _ _ => rfl) ends apart⟩

end Plang.CodeGen.StructuredValue
