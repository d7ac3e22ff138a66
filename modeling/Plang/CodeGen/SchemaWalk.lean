import Plang.CodeGen.FoldOperators
import Plang.CodeGen.RecordLayouts

/-!
# The run-time walk over schema bodies

A schema's bounds and capacities are arithmetic over its discriminants.  The checker folds them once
for each instance; the generator evaluates closed forms of them, against the discriminants that an
object carries, in a walk of its own over the declaration.
-/

namespace Plang.CodeGen.SchemaWalk

open Plang.Sema.Storage StructLayout RecordTypes MachineInt

/-! ### Extents -/

/-- Bounds, capacities and actual discriminants: what reads no discriminant is a constant. -/
inductive Extent where
  | const (value : Int)
  | disc (index : Nat)
  | identity (e : Extent)
  | negate (e : Extent)
  | binary (op : ConstOp) (left right : Extent)
  | call (fn : OrdinalFn) (e : Extent)

/-- Closed forms: they name the discriminants by their numbers. -/
inductive ExtentForm where
  | const (value : Int)
  | disc (index : Nat)
  | neg (form : ExtentForm)
  | binary (op : ConstOp) (left right : ExtentForm)

/-- A number, as far as 64 bits hold it. -/
def int64 (value : Int) : Option Int := checked (64, true) value

namespace Extent

/-- `constBound`, with discriminants bound. -/
def fold (discs : List Int) : Extent → Option Int
  | const value => int64 value
  | disc index => discs[index]?.bind int64
  | identity e => e.fold discs
  | negate e => (e.fold discs).bind fun x => int64 (-x)
  | binary op left right =>
      (left.fold discs).bind fun x => (right.fold discs).bind fun y => op.fold (64, true) x y
  | call fn e => (e.fold discs).bind fun x => fn.fold (64, true) x

/-- Folding the extent reads a discriminant. -/
def reads : Extent → Bool
  | const _ => false
  | disc _ => true
  | identity e => e.reads
  | negate e => e.reads
  | binary _ left right => left.reads || right.reads
  | call _ e => e.reads

/-- An extent without a form of its own is folded where it is declared, if it reads nothing. -/
def leaf (e : Extent) : Option ExtentForm := if e.reads then none else (e.fold []).map .const

/-- `buildExtentForm`. -/
def form : Extent → Option ExtentForm
  | const value => leaf (const value)
  | disc index => some (.disc index)
  | identity e => e.form
  | negate e =>
      match e.form with
      | some form => some (.neg form)
      | none => leaf (negate e)
  | binary op left right =>
      match left.form, right.form with
      | some left, some right => some (.binary op left right)
      | _, _ => leaf (binary op left right)
  | call fn e => leaf (call fn e)

end Extent

def wrap64 (value : Int) : Int := Int.bmod value (2 ^ 64)

/-- The instructions of an operator: a remainder below zero has the divisor added to it once. -/
def emitOp (op : ConstOp) (x y : Int) : Option Int :=
  let safe := if y = 0 then 1 else y
  match op with
  | .plus => some (wrap64 (x + y))
  | .minus => some (wrap64 (x - y))
  | .times => some (wrap64 (x * y))
  | .div => some (wrap64 (x.tdiv safe))
  | .mod => some (if x.tmod safe < 0 then wrap64 (x.tmod safe + safe) else x.tmod safe)
  | .pow => ipow x y

/-- `emitExtentForm`; a power may report an error, and a discriminant has to be there. -/
def ExtentForm.emit (discs : List Int) : ExtentForm → Option Int
  | const value => some value
  | disc index => discs[index]?
  | neg form => (form.emit discs).map fun x => wrap64 (-x)
  | binary op left right =>
      (left.emit discs).bind fun x => (right.emit discs).bind fun y => emitOp op x y

/-- Remainders have positive divisors, and powers are not those of zero and zero. -/
def regularOp : ConstOp → Option Int → Option Int → Bool
  | .mod, _, some y => decide (0 < y)
  | .pow, some x, some y => decide ¬(x = 0 ∧ y = 0)
  | _, _, _ => true

/-- The extent has a closed form, and takes remainders of positive divisors and no power of zero
and zero. -/
def Extent.regular (discs : List Int) : Extent → Bool
  | const _ => true
  | disc _ => true
  | identity e => e.regular discs
  | negate e => e.regular discs
  | binary op left right =>
      left.regular discs && (right.regular discs &&
        regularOp op (left.fold discs) (right.fold discs))
  | call _ e => !e.reads

theorem int64_eq_some {value result : Int} (folded : int64 value = some result) :
    value = result ∧ Fits 64 true result :=
  ⟨(checked_eq_some.mp folded).1, (checked_eq_some.mp folded).2.1⟩

theorem wrap64_eq {value : Int} (fits : Fits 64 true value) : wrap64 value = value := by
  rw [fits_signed] at fits
  rw [wrap64, Int.bmod_def]
  split <;> omega

/-- The instructions of an operator compute what is folded, for positive divisors and powers that are
defined. -/
theorem emitOp_eq {op : ConstOp} {x y v : Int} (x_fits : Fits 64 true x) (y_fits : Fits 64 true y)
    (folded : op.fold (64, true) x y = some v)
    (divisor : op = .mod → 0 < y) (defined : op = .pow → ¬(x = 0 ∧ y = 0)) :
    emitOp op x y = some v := by
  have v_fits := ConstOp.fits_fold x_fits y_fits folded
  cases op with
  | plus => rw [emitOp, (checked_eq_some.mp folded).1, wrap64_eq v_fits]
  | minus => rw [emitOp, (checked_eq_some.mp folded).1, wrap64_eq v_fits]
  | times => rw [emitOp, (checked_eq_some.mp folded).1, wrap64_eq v_fits]
  | div =>
      rw [ConstOp.fold] at folded
      split at folded
      · rename_i inside
        obtain rfl := Option.some.inj folded
        simp only [emitOp, if_neg inside.1, wrap64_eq v_fits]
      · cases folded
  | mod =>
      have positive := divisor rfl
      rw [ConstOp.fold] at folded
      split at folded
      · obtain rfl := Option.some.inj folded
        simp only [emitOp, if_neg positive.ne', isoMod, if_neg (not_lt.mpr positive.le)] at v_fits ⊢
        split at v_fits
        · rename_i below
          rw [if_pos below, if_pos below, wrap64_eq v_fits]
        · rename_i below
          rw [if_neg below, if_neg below]
      · cases folded
  | pow =>
      rw [ConstOp.fold] at folded
      split at folded
      · rename_i nonneg
        rw [emitOp, ipow, if_neg (not_lt.mpr nonneg), if_neg (defined rfl)]
        exact folded
      · cases folded

namespace Extent

variable {discs : List Int} {v : Int}

theorem fits_fold {e : Extent} (folded : e.fold discs = some v) : Fits 64 true v := by
  induction e generalizing v with
  | const value => exact (int64_eq_some folded).2
  | disc index =>
      obtain ⟨x, -, folded⟩ := Option.bind_eq_some_iff.mp folded
      exact (int64_eq_some folded).2
  | identity e induction => exact induction folded
  | negate e induction =>
      obtain ⟨x, -, folded⟩ := Option.bind_eq_some_iff.mp folded
      exact (int64_eq_some folded).2
  | binary op left right left_induction right_induction =>
      obtain ⟨x, left_folded, folded⟩ := Option.bind_eq_some_iff.mp folded
      obtain ⟨y, right_folded, folded⟩ := Option.bind_eq_some_iff.mp folded
      exact ConstOp.fits_fold (left_induction left_folded) (right_induction right_folded) folded
  | call fn e induction =>
      obtain ⟨x, inner_folded, folded⟩ := Option.bind_eq_some_iff.mp folded
      exact OrdinalFn.fits_fold (induction inner_folded) folded

/-- An extent that reads no discriminant folds alike under all. -/
theorem fold_eq_of_not_reads {e : Extent} (constant : e.reads = false) (other : List Int) :
    e.fold discs = e.fold other := by
  induction e with
  | const value => rfl
  | disc index => exact absurd constant (by simp [reads])
  | identity e induction => exact induction constant
  | negate e induction => rw [fold, fold, induction constant]
  | binary op left right left_induction right_induction =>
      rw [reads, Bool.or_eq_false_iff] at constant
      rw [fold, fold, left_induction constant.1, right_induction constant.2]
  | call fn e induction => rw [fold, fold, induction constant]

/-- The closed form of a regular extent has the value that is folded. -/
theorem emit_eq_fold {e : Extent} (regular : e.regular discs = true) (folded : e.fold discs = some v) :
    ∃ form, e.form = some form ∧ form.emit discs = some v := by
  induction e generalizing v with
  | const value =>
      refine ⟨.const v, ?_, rfl⟩
      rw [form, leaf, if_neg (by simp [reads]), fold_eq_of_not_reads rfl discs, folded, Option.map_some]
  | disc index =>
      obtain ⟨x, found, folded⟩ := Option.bind_eq_some_iff.mp folded
      obtain ⟨rfl, -⟩ := int64_eq_some folded
      exact ⟨.disc index, rfl, found⟩
  | identity e induction => exact induction regular folded
  | negate e induction =>
      obtain ⟨x, inner_folded, folded⟩ := Option.bind_eq_some_iff.mp folded
      obtain ⟨rfl, fits⟩ := int64_eq_some folded
      obtain ⟨inner, inner_eq, emitted⟩ := induction regular inner_folded
      exact ⟨.neg inner, by rw [form, inner_eq],
        by rw [ExtentForm.emit, emitted, Option.map_some, wrap64_eq fits]⟩
  | binary op left right left_induction right_induction =>
      obtain ⟨x, left_folded, folded⟩ := Option.bind_eq_some_iff.mp folded
      obtain ⟨y, right_folded, folded⟩ := Option.bind_eq_some_iff.mp folded
      rw [Extent.regular, Bool.and_eq_true, Bool.and_eq_true, left_folded, right_folded] at regular
      obtain ⟨left_form, left_eq, left_emitted⟩ := left_induction regular.1 left_folded
      obtain ⟨right_form, right_eq, right_emitted⟩ := right_induction regular.2.1 right_folded
      refine ⟨.binary op left_form right_form, by rw [form, left_eq, right_eq], ?_⟩
      rw [ExtentForm.emit, left_emitted, Option.bind_some, right_emitted, Option.bind_some]
      apply emitOp_eq (fits_fold left_folded) (fits_fold right_folded) folded
      · rintro rfl
        exact of_decide_eq_true regular.2.2
      · rintro rfl
        exact of_decide_eq_true regular.2.2
  | call fn e induction =>
      refine ⟨.const v, ?_, rfl⟩
      rw [Extent.regular, Bool.not_eq_true'] at regular
      have constant : (call fn e).reads = false := regular
      rw [form, leaf, if_neg (by rw [constant]; decide), fold_eq_of_not_reads constant discs, folded,
        Option.map_some]

end Extent

/-! ### Declarations -/

mutual

/-- What stands in a declaration: names, and types without extents, are answered by their types.  An
instance of a schema carries the discriminants that its body was last resolved under. -/
inductive Denoter where
  | named (ty : Ty)
  | packedOf (inner : Denoter)
  | string (capacity : Extent)
  | array (low high : Extent) (elem : Denoter)
  | indexed (index : IndexRange) (elem : Denoter)
  | record (packed : Bool) (fields : FieldDecls) (variant : VariantDecl)
  | schema (actuals : List Extent) (last : List Int) (body : Denoter)

inductive FieldDecls where
  | nil
  | cons (name : Text) (type : Denoter) (rest : FieldDecls)

inductive VariantDecl where
  | absent
  | tagged (tagField : Text) (tagType : Denoter) (cases : CaseDecls)
  | tagless (cases : CaseDecls)

inductive CaseDecls where
  | nil
  | cons (fields : FieldDecls) (nested : VariantDecl) (rest : CaseDecls)

end

def foldAll (discs : List Int) : List Extent → Option (List Int)
  | [] => some []
  | e :: rest => (e.fold discs).bind fun x => (foldAll discs rest).map (x :: ·)

mutual

/-- The type that the checker resolves a declaration to, with discriminants bound. -/
def Denoter.resolve : Denoter → List Int → Option Ty
  | .named ty, _ => some ty
  | .packedOf inner, discs => inner.resolve discs
  | .string capacity, discs =>
      (capacity.fold discs).bind fun cap =>
        if 0 < cap then some (.cell (.varString cap.toNat)) else none
  | .array low high elem, discs =>
      (low.fold discs).bind fun lo => (high.fold discs).bind fun hi =>
        if ordered : -2 ^ 63 ≤ lo ∧ lo ≤ hi ∧ hi < 2 ^ 63 then
          (elem.resolve discs).map (.array ⟨lo, hi, ordered.1, ordered.2.1, ordered.2.2⟩)
        else none
  | .indexed index elem, discs => (elem.resolve discs).map (.array index)
  | .record packed fields variant, discs =>
      (fields.resolve discs).bind fun fields => (variant.resolve discs).map (.record packed fields)
  | .schema actuals _ body, discs =>
      (foldAll discs actuals).bind fun inner => (body.resolve inner).map .schemaInstance

def FieldDecls.resolve : FieldDecls → List Int → Option Fields
  | .nil, _ => some .nil
  | .cons name type rest, discs =>
      (type.resolve discs).bind fun ty => (rest.resolve discs).map (.cons name ty)

def VariantDecl.resolve : VariantDecl → List Int → Option Variant
  | .absent, _ => some .absent
  | .tagged tagField tagType cases, discs =>
      (tagType.resolve discs).bind fun ty => (cases.resolve discs).map (.tagged tagField ty)
  | .tagless cases, discs => (cases.resolve discs).map .tagless

def CaseDecls.resolve : CaseDecls → List Int → Option Cases
  | .nil, _ => some .nil
  | .cons fields nested rest, discs =>
      (fields.resolve discs).bind fun fields => (nested.resolve discs).bind fun nested =>
        (rest.resolve discs).map (.cons fields nested)

end

/-! ### The walk -/

/-- `alignUpV`: a mask clears the bits below the alignment. -/
def alignUpV (value align : Nat) : Nat :=
  if align ≤ 1 then value else u64 (value + (align - 1)) &&& (2 ^ 64 - align)

def emitAll (discs : List Int) : List ExtentForm → Option (List Int)
  | [] => some []
  | form :: rest => (form.emit discs).bind fun x => (emitAll discs rest).map (x :: ·)

/-- The closed forms of all the actual discriminants, if one of them reads a discriminant. -/
def actualForms (actuals : List Extent) : List ExtentForm :=
  if actuals.any Extent.reads then (actuals.mapM Extent.form).getD [] else []

/-- The number of components, one at least as it is compared. -/
def countV (lo hi : Int) : Nat :=
  let count := (hi - lo + 1) % 2 ^ 64
  if count = 0 ∨ 2 ^ 63 ≤ count then 1 else count.toNat

def staticShape (dl : DataLayout) (ty : Ty) : Shape := (Ty.lower dl ty).shape dl

structure RtWalk where
  off : Nat
  offsets : List (Text × Nat)
  deriving DecidableEq, Repr

mutual

/-- `rtAlignOfTypeNode`; a denoter that nothing resolves has no alignment. -/
def Denoter.rtAlign (dl : DataLayout) : Denoter → Nat
  | .named ty => (staticShape dl ty).align
  | .packedOf inner => inner.rtAlign dl
  | .string _ => 8
  | .array _ _ elem => elem.rtAlign dl
  | .indexed _ elem => elem.rtAlign dl
  | .record packed fields variant =>
      if packed then 1 else max (fields.rtAlign dl) (variant.rtAlign dl)
  | .schema _ _ body => body.rtAlign dl

def FieldDecls.rtAlign (dl : DataLayout) : FieldDecls → Nat
  | .nil => 1
  | .cons _ type rest => max (type.rtAlign dl) (rest.rtAlign dl)

def VariantDecl.rtAlign (dl : DataLayout) : VariantDecl → Nat
  | .absent => 1
  | .tagged _ tagType cases => max (tagType.rtAlign dl) (cases.rtRunAlign dl)
  | .tagless cases => cases.rtRunAlign dl

/-- `rtVariantRunAlign`. -/
def CaseDecls.rtRunAlign (dl : DataLayout) : CaseDecls → Nat
  | .nil => 1
  | .cons fields nested rest =>
      max (max (fields.rtAlign dl) (nested.rtAlign dl)) (rest.rtRunAlign dl)

end

/-- One more field of the walk. -/
def RtWalk.place (packed : Bool) (walk : RtWalk) (name : Text) (align : Nat) (size : Option Nat) :
    Option RtWalk :=
  size.map fun size =>
    let off := alignUpV walk.off (if packed then 1 else align)
    ⟨u64 (off + size), walk.offsets ++ [(name, off)]⟩

mutual

/-- `rtSizeOfTypeNode`, against discriminants or outside of any schema: nothing where the generator
stops, or reports an error at run time. -/
def Denoter.rtSize (dl : DataLayout) : Denoter → Option (List Int) → Option Nat
  | .named ty, _ => some (staticShape dl ty).size
  | .packedOf inner, discs => inner.rtSize dl discs
  | .string capacity, some discs =>
      (capacity.form.bind (·.emit discs)).map fun cap => alignUpV (u64 (8 + (cap % 2 ^ 64).toNat)) 8
  | .string capacity, none =>
      ((Denoter.string capacity).resolve []).map fun ty => (staticShape dl ty).size
  | .array low high elem, discs =>
      let bounds := match discs with
        | some discs =>
            (low.form.bind (·.emit discs)).bind fun lo =>
              (high.form.bind (·.emit discs)).map fun hi => (lo, hi)
        | none => (low.fold []).bind fun lo => (high.fold []).map fun hi => (lo, hi)
      bounds.bind fun bounds => (elem.rtSize dl discs).bind fun size =>
        checkedMul64 (countV bounds.1 bounds.2) (alignUpV size (elem.rtAlign dl))
  | .indexed index elem, discs =>
      (elem.rtSize dl discs).bind fun size =>
        checkedMul64 (countV index.lo index.hi) (alignUpV size (elem.rtAlign dl))
  | .record packed fields variant, discs =>
      ((fields.rtWalk dl packed discs ⟨0, []⟩).bind (variant.rtWalk dl packed false discs)).map
        fun walk => alignUpV walk.off
          (if packed then 1 else max (fields.rtAlign dl) (variant.rtAlign dl))
  | .schema actuals last body, discs =>
      match actualForms actuals, discs with
      | [], _ =>
          (foldAll last actuals).bind fun inner =>
            (body.resolve inner).map fun ty => (staticShape dl ty).size
      | _ :: _, none => none
      | form :: forms, some discs =>
          (emitAll discs (form :: forms)).bind fun inner => body.rtSize dl (some inner)

/-- `rtWalkFields`. -/
def FieldDecls.rtWalk (dl : DataLayout) (packed : Bool) :
    FieldDecls → Option (List Int) → RtWalk → Option RtWalk
  | .nil, _, walk => some walk
  | .cons name type rest, discs, walk =>
      (walk.place packed name (type.rtAlign dl) (type.rtSize dl discs)).bind
        (rest.rtWalk dl packed discs)

/-- `rtWalkVariant`: the arms of a nested part start where its tag ends. -/
def VariantDecl.rtWalk (dl : DataLayout) (packed nested : Bool) :
    VariantDecl → Option (List Int) → RtWalk → Option RtWalk
  | .absent, _, walk => some walk
  | .tagged tagField tagType cases, discs, walk =>
      (walk.place packed tagField (tagType.rtAlign dl) (tagType.rtSize dl discs)).bind fun walk =>
        let base :=
          if nested then walk.off else alignUpV walk.off (if packed then 1 else cases.rtRunAlign dl)
        cases.rtWalk dl packed discs base ⟨base, walk.offsets⟩
  | .tagless cases, discs, walk =>
      let base :=
        if nested then walk.off else alignUpV walk.off (if packed then 1 else cases.rtRunAlign dl)
      cases.rtWalk dl packed discs base ⟨base, walk.offsets⟩

def CaseDecls.rtWalk (dl : DataLayout) (packed : Bool) :
    CaseDecls → Option (List Int) → Nat → RtWalk → Option RtWalk
  | .nil, _, _, walk => some walk
  | .cons fields nested rest, discs, base, walk =>
      ((fields.rtWalk dl packed discs ⟨base, walk.offsets⟩).bind
        (nested.rtWalk dl packed true discs)).bind fun arm =>
          rest.rtWalk dl packed discs base ⟨max walk.off arm.off, arm.offsets⟩

end

/-- `rtAllFieldOffsets`, with where the walk ends. -/
def recordRtWalk (dl : DataLayout) (packed : Bool) (fields : FieldDecls) (variant : VariantDecl)
    (discs : Option (List Int)) : Option RtWalk :=
  (fields.rtWalk dl packed discs ⟨0, []⟩).bind (variant.rtWalk dl packed false discs)

end Plang.CodeGen.SchemaWalk
