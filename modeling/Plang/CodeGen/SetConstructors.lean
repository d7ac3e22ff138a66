import Plang.CodeGen.CaseChain
import Plang.CodeGen.SetOps

/-!
# Set constructors and membership

An ordinal is brought to 64 bits, and the origin of the window is taken off.  A bit is made, or
tested, at what is left of it, as far as the window has that bit.
-/

namespace Plang.CodeGen

open Plang.Sema BitWindow MachineInt

/-! ### The code -/

/-- The faults that stop a computation. -/
inductive SetFault where
  /-- The report of an ordinal out of range; under Turbo it is `emitTpRunError(201)`. -/
  | plang_err_range
  /-- A shift that is not defined. -/
  | poison
  deriving DecidableEq, Repr

def shl (v : BitVec 256) (amount : BitVec 256) : Except SetFault (BitVec 256) :=
  if amount.toNat < 256 then .ok (v <<< amount.toNat) else .error .poison

def lshr (v : BitVec 256) (amount : BitVec 256) : Except SetFault (BitVec 256) :=
  if amount.toNat < 256 then .ok (v >>> amount.toNat) else .error .poison

/-- Whether the window has the bit, and the bit, which is 0 where it has not. -/
def clampOrdinal (ord : BitVec 64) : Bool × BitVec 64 :=
  let inRange := (0 : BitVec 64).sle ord && ord.slt 256
  (inRange, if inRange then ord else 0)

def clampToSetWidth (v : BitVec 64) : BitVec 64 :=
  let positive := if v.sle 0 then 0 else v
  if positive.sle 255 then positive else 255

def setBitIndex (ordinal : BitVec 64) (base : Int) : BitVec 64 :=
  if base = 0 then ordinal else ordinal - BitVec.ofInt 64 base

section Emission

variable (checks : Bool) (base : OrdinalType)

/-- The check against the declared base type. -/
def emitRangeCheck (ordinal : BitVec 64) : Except SetFault Unit :=
  match rangeCheck checks base.ordinalRange ordinal with
  | some _ => .ok ()
  | none => .error .plang_err_range

def emitSetSingleton (ordinal : BitVec 64) : Except SetFault (BitVec 256) := do
  emitRangeCheck checks base ordinal
  let (inRange, ord) := clampOrdinal (setBitIndex ordinal (setBaseOffset base))
  let bit ← shl 1 (ord.setWidth 256)
  return if inRange then bit else 0

def emitSetRange (lo hi : BitVec 64) : Except SetFault (BitVec 256) := do
  emitRangeCheck checks base lo
  emitRangeCheck checks base hi
  let l := setBitIndex lo (setBaseOffset base)
  let h := setBitIndex hi (setBaseOffset base)
  let empty := h.slt l || (255 : BitVec 64).slt l || h.slt 0
  let lClamped := clampToSetWidth l
  let hClamped := clampToSetWidth h
  let lowBits ← shl (BitVec.allOnes 256) (lClamped.setWidth 256)
  -- a shift by the whole width is replaced, and so is what comes out of it
  let hiIsMax := hClamped == 255
  let shAmt := if hiIsMax then 0 else hClamped + 1
  let shifted ← shl (BitVec.allOnes 256) (shAmt.setWidth 256)
  let above := if hiIsMax then 0 else shifted
  let mask := lowBits &&& ~~~above
  return if empty then 0 else mask

def emitSetMember (ordinal : BitVec 64) (set : BitVec 256) : Except SetFault Bool := do
  emitRangeCheck checks base ordinal
  let (inRange, ord) := clampOrdinal (setBitIndex ordinal (setBaseOffset base))
  let shifted ← lshr set (ord.setWidth 256)
  return inRange && shifted.getLsbD 0

end Emission

/-- An element of a set constructor. -/
inductive SetElement (turbo : Bool) where
  | single (x : OrdinalValue turbo)
  | range (lo hi : OrdinalValue turbo)

section Constructors

variable {turbo : Bool} (checks : Bool) (base : OrdinalType)

def SetElement.emit : SetElement turbo → Except SetFault (BitVec 256)
  | .single x => emitSetSingleton checks base x.i64
  | .range lo hi => emitSetRange checks base lo.i64 hi.i64

/-- The elements of a constructor, one after the other. -/
def emitSetLiteral (elements : List (SetElement turbo)) : Except SetFault (BitVec 256) :=
  elements.foldlM (fun result elem => do return result ||| (← elem.emit checks base)) 0

end Constructors

/-! ### Bits and ordinals -/

/-- The origin is not above 0, and can be taken off any value. -/
structure Anchored (turbo : Bool) (origin : Int) : Prop where
  nonpos : origin ≤ 0
  int64 : -2 ^ 63 ≤ origin
  dialect : turbo = true → origin = 0

/-- The value is less than `2 ^ 63` above the origin. -/
def Near (origin x : Int) : Prop := x - origin < 2 ^ 63

instance (origin x : Int) : Decidable (Near origin x) :=
  inferInstanceAs (Decidable (x - origin < 2 ^ 63))

/-- The ordinal that a value is taken for: one below the window for a value that is not near. -/
def taken (origin x : Int) : Int := if Near origin x then x else x - 2 ^ 64

section Bits

variable {turbo : Bool} {origin : Int}

theorem taken_bounds (anchored : Anchored turbo origin) (x : OrdinalValue turbo) :
    Fits 64 true (taken origin x.value - origin) ∧
      (Near origin x.value ∨ taken origin x.value < origin) := by
  have nonpos := anchored.nonpos
  have int64 := anchored.int64
  rw [fits_signed, taken]
  by_cases fits : Fits 64 true x.value
  · rw [fits_signed] at fits
    split
    · rename_i near
      rw [Near] at near
      exact ⟨by omega, .inl near⟩
    · rename_i far
      rw [Near] at far
      exact ⟨by omega, .inr (by omega)⟩
  · obtain ⟨dialect, beyond⟩ := x.beyond fits
    have origin_eq := anchored.dialect dialect
    have far : ¬Near origin x.value := by
      rw [Near]
      omega
    rw [if_neg far]
    exact ⟨by omega, .inr (by omega)⟩

/-- The bit of a value. -/
theorem setBitIndex_eq (x : OrdinalValue turbo) :
    setBitIndex x.i64 origin = BitVec.ofInt 64 (taken origin x.value - origin) := by
  have rebased : setBitIndex x.i64 origin = BitVec.ofInt 64 (x.value - origin) := by
    rw [setBitIndex, x.i64_eq]
    split
    · rename_i zero
      rw [zero, Int.sub_zero]
    · rw [Int.sub_eq_add_neg, BitVec.ofInt_add, BitVec.ofInt_neg, BitVec.sub_eq_add_neg]
  rw [rebased, taken]
  split
  · rfl
  · rw [ofInt_eq_iff]
    omega

/-- A value is taken for itself if it is in the window, and else for another one outside. -/
theorem taken_eq_iff (anchored : Anchored turbo origin) (x : OrdinalValue turbo) {v : Int}
    (shown : v ∈ window 256 origin) : v = taken origin x.value ↔ v = x.value := by
  have bounds := taken_bounds anchored x
  rw [mem_window] at shown
  rw [taken] at bounds ⊢
  split
  · rfl
  · rename_i far
    rw [if_neg far] at bounds
    have below := bounds.2.resolve_left far
    rw [Near] at far
    omega

theorem zext_toNat {k : Int} (nonneg : 0 ≤ k) (below : k < 256) :
    ((BitVec.ofInt 64 k).setWidth 256).toNat = k.toNat := by
  have low : (BitVec.ofInt 64 k).toNat = k.toNat := by
    have whole := @toNat_ofInt 64 k
    omega
  rw [BitVec.toNat_setWidth, low]
  omega

theorem shl_ofInt {v : BitVec 256} {k : Int} (nonneg : 0 ≤ k) (below : k < 256) :
    shl v ((BitVec.ofInt 64 k).setWidth 256) = .ok (v <<< k.toNat) := by
  rw [shl, zext_toNat nonneg below, if_pos (by omega)]

theorem lshr_ofInt {v : BitVec 256} {k : Int} (nonneg : 0 ≤ k) (below : k < 256) :
    lshr v ((BitVec.ofInt 64 k).setWidth 256) = .ok (v >>> k.toNat) := by
  rw [lshr, zext_toNat nonneg below, if_pos (by omega)]

theorem clampOrdinal_ofInt {k : Int} (fits : Fits 64 true k) :
    clampOrdinal (BitVec.ofInt 64 k) =
      (decide (0 ≤ k ∧ k < 256), BitVec.ofInt 64 (if 0 ≤ k ∧ k < 256 then k else 0)) := by
  have low : (0 : BitVec 64).sle (BitVec.ofInt 64 k) = decide (0 ≤ k) :=
    sle_ofInt (by decide) (by decide : Fits 64 true 0) fits
  have high : (BitVec.ofInt 64 k).slt 256 = decide (k < 256) := by
    rw [BitVec.slt, toInt_ofInt_of_fits (by decide) fits]
    rfl
  simp only [clampOrdinal, low, high, ← Bool.decide_and, decide_eq_true_eq]
  split <;> rfl

theorem clampToSetWidth_ofInt {k : Int} (fits : Fits 64 true k) :
    clampToSetWidth (BitVec.ofInt 64 k) = BitVec.ofInt 64 (min (max k 0) 255) := by
  have low : (BitVec.ofInt 64 k).sle 0 = decide (k ≤ 0) :=
    sle_ofInt (by decide) fits (by decide : Fits 64 true 0)
  have high : (BitVec.ofInt 64 k).sle 255 = decide (k ≤ 255) :=
    sle_ofInt (by decide) fits (by decide : Fits 64 true 255)
  have zero : (0 : BitVec 64).sle 255 = true := by decide
  simp only [clampToSetWidth, low, decide_eq_true_eq]
  by_cases negative : k ≤ 0
  · rw [if_pos negative, if_pos zero, max_eq_right negative]
    rfl
  · rw [if_neg negative, high, max_eq_left (by omega)]
    simp only [decide_eq_true_eq]
    by_cases small : k ≤ 255
    · rw [if_pos small, min_eq_left small]
    · rw [if_neg small, min_eq_right (by omega)]
      rfl

end Bits

/-! ### Base types -/

/-- The type is one that a program of the dialect can have: the integers of any dialect but Turbo
have 64 bits, and the bounds of a subrange are values of its host. -/
def IsDeclared (turbo : Bool) : OrdinalType → Prop
  | .integer width signed => turbo = false → width = 64 ∧ signed = true
  | .looseBoolean _ => turbo = true
  | .boolean => True
  | .char => True
  | .enum _ _ => True
  | .subrange host lo hi =>
      IsDeclared turbo host ∧ lo ≤ hi ∧ Fits 64 true lo ∧ Fits 64 true hi ∧
        ∀ first last, host.ordinalRange = some (first, last) → first ≤ lo ∧ hi ≤ last

section Bases

variable {turbo : Bool} {base : OrdinalType}

theorem anchored_zero (turbo : Bool) : Anchored turbo 0 := ⟨le_rfl, by decide, fun _ => rfl⟩

theorem anchored_of_accepted (accepted : checkSetBaseRange turbo base = true)
    (declared : IsDeclared turbo base) : Anchored turbo (setBaseOffset base) := by
  cases base with
  | subrange host lo hi =>
      obtain ⟨-, ordered, lo_fits, -, -⟩ := declared
      rw [fits_signed] at lo_fits
      rw [checkSetBaseRange, if_neg (by omega)] at accepted
      rw [setBaseOffset]
      split
      · rename_i negative
        refine ⟨by omega, by omega, fun dialect => ?_⟩
        simp [dialect, negative] at accepted
      · exact anchored_zero turbo
  | integer width signed => exact anchored_zero turbo
  | boolean => exact anchored_zero turbo
  | looseBoolean width => exact anchored_zero turbo
  | char => exact anchored_zero turbo
  | enum decl last => exact anchored_zero turbo

/-- An accepted base has a first and a last value, of at most 64 signed bits. -/
theorem exists_ordinalRange (accepted : checkSetBaseRange turbo base = true)
    (declared : IsDeclared turbo base) :
    ∃ lo hi, base.ordinalRange = some (lo, hi) ∧ (turbo = true → 0 ≤ lo) ∧ hi < 2 ^ 63 := by
  cases base with
  | subrange host lo hi =>
      obtain ⟨-, ordered, -, hi_fits, -⟩ := declared
      rw [fits_signed] at hi_fits
      refine ⟨lo, hi, rfl, fun dialect => ?_, hi_fits.2⟩
      rw [checkSetBaseRange, if_neg (by omega)] at accepted
      by_contra negative
      simp [dialect, not_le.mp negative] at accepted
  | integer width signed =>
      cases signed with
      | true => cases accepted
      | false =>
          simp only [checkSetBaseRange, Bool.false_eq_true, if_false] at accepted
          split at accepted
          · cases accepted
          · rename_i lo hi range
            rw [decide_eq_true_eq, setBaseOffset, maxSetElements] at accepted
            refine ⟨lo, hi, range, fun _ => ?_, by omega⟩
            rw [OrdinalType.ordinalRange] at range
            split at range
            · cases range
            · obtain ⟨rfl, -⟩ := Prod.mk.inj (Option.some.inj range)
              exact le_rfl
  | boolean => exact ⟨0, 1, rfl, fun _ => le_rfl, by decide⟩
  | looseBoolean width => cases accepted
  | char => exact ⟨0, 255, rfl, fun _ => le_rfl, by decide⟩
  | enum decl last =>
      rw [checkSetBaseRange, decide_eq_true_eq, setBaseOffset, maxSetElements] at accepted
      exact ⟨0, last, rfl, fun _ => le_rfl, by omega⟩

/-- The bits of a value are read as a value of the base only if it is one. -/
theorem emitRangeCheck_eq (accepted : checkSetBaseRange turbo base = true)
    (declared : IsDeclared turbo base) (checks : Bool) (x : OrdinalValue turbo) :
    (checks = true → x.value ∉ ordinals base →
        emitRangeCheck checks base x.i64 = .error .plang_err_range) ∧
      (¬(checks = true ∧ x.value ∉ ordinals base) →
        emitRangeCheck checks base x.i64 = .ok ()) := by
  obtain ⟨lo, hi, range, nonneg, small⟩ := exists_ordinalRange accepted declared
  have ordinal : x.value ∈ ordinals base ↔ lo ≤ x.i64.toInt ∧ x.i64.toInt ≤ hi := by
    rw [ordinals, range, Set.mem_Icc, x.i64_eq]
    by_cases fits : Fits 64 true x.value
    · rw [toInt_ofInt_of_fits (by decide) fits]
    · obtain ⟨dialect, beyond⟩ := x.beyond fits
      have first := nonneg dialect
      have read : (BitVec.ofInt 64 x.value).toInt = x.value - 2 ^ 64 := by
        have turned : BitVec.ofInt 64 x.value = BitVec.ofInt 64 (x.value - 2 ^ 64) := by
          rw [ofInt_eq_iff]
          omega
        rw [turned]
        exact toInt_ofInt_of_fits (by decide) (by rw [fits_signed]; omega)
      rw [read]
      omega
  rw [emitRangeCheck, range, rangeCheck, ordinal]
  constructor
  · intro checked outside
    rw [if_pos ⟨checked, outside⟩]
  · intro inside
    rw [if_neg inside]

end Bases

/-! ### One element -/

section Element

variable {turbo checks : Bool} {base : OrdinalType}

/-- A value makes its bit, if the window has it. -/
theorem emitSetSingleton_eq (anchored : Anchored turbo (setBaseOffset base))
    {x : OrdinalValue turbo} (passed : emitRangeCheck checks base x.i64 = .ok ()) :
    ∃ mask, emitSetSingleton checks base x.i64 = .ok mask ∧
      members (setBaseOffset base) mask = {x.value} ∩ window 256 (setBaseOffset base) := by
  have fits := (taken_bounds anchored x).1
  have same := fun v shown => @taken_eq_iff _ _ anchored x v shown
  simp only [emitSetSingleton, passed, setBitIndex_eq, clampOrdinal_ofInt fits, bind, Except.bind,
    pure, Except.pure, decide_eq_true_eq]
  generalize setBaseOffset base = origin at same
  generalize taken origin x.value = v at same
  by_cases shown : 0 ≤ v - origin ∧ v - origin < 256
  · rw [if_pos shown, shl_ofInt shown.1 shown.2]
    have inside : v ∈ window 256 origin := by
      rw [mem_window]
      omega
    obtain rfl := (same v inside).mp rfl
    refine ⟨_, rfl, ?_⟩
    rw [if_pos shown, Set.inter_eq_left.mpr (Set.singleton_subset_iff.mpr inside)]
    exact members_single inside
  · rw [if_neg shown, shl_ofInt le_rfl (by decide)]
    refine ⟨_, rfl, ?_⟩
    rw [if_neg shown, members_zero, eq_comm, Set.eq_empty_iff_forall_notMem]
    rintro y ⟨rfl, inside⟩
    have self := (same x.value inside).mpr rfl
    rw [mem_window] at inside
    omega

/-- A test finds the bit of a value. -/
theorem emitSetMember_eq (anchored : Anchored turbo (setBaseOffset base))
    {x : OrdinalValue turbo} (passed : emitRangeCheck checks base x.i64 = .ok ())
    (set : BitVec 256) :
    ∃ answer, emitSetMember checks base x.i64 set = .ok answer ∧
      (answer = true ↔ x.value ∈ members (setBaseOffset base) set) := by
  have fits := (taken_bounds anchored x).1
  have same := fun v shown => @taken_eq_iff _ _ anchored x v shown
  simp only [emitSetMember, passed, setBitIndex_eq, clampOrdinal_ofInt fits, bind, Except.bind,
    pure, Except.pure]
  generalize setBaseOffset base = origin at same
  generalize taken origin x.value = v at same
  by_cases shown : 0 ≤ v - origin ∧ v - origin < 256
  · rw [if_pos shown, lshr_ofInt shown.1 shown.2]
    have inside : v ∈ window 256 origin := by
      rw [mem_window]
      omega
    obtain rfl := (same v inside).mp rfl
    refine ⟨_, rfl, ?_⟩
    rw [decide_eq_true shown, Bool.true_and, BitVec.getLsbD_ushiftRight, mem_members, Nat.add_zero]
    exact (and_iff_right inside.1).symm
  · rw [if_neg shown, lshr_ofInt le_rfl (by decide)]
    refine ⟨_, rfl, ?_⟩
    rw [decide_eq_false shown, Bool.false_and]
    refine iff_of_false Bool.false_ne_true fun member => ?_
    have inside := members_subset origin set member
    have self := (same x.value inside).mpr rfl
    rw [mem_window] at inside
    omega

/-- A bit of the window for a number that may be outside. -/
def clamped (k : Int) : Int := min (max k 0) 255

theorem clamped_bounds (k : Int) : 0 ≤ clamped k ∧ clamped k < 256 := by
  rw [clamped]
  omega

/-- The bits behind the last one: none behind the last of the window. -/
def aboveBits (last : Int) : BitVec 256 :=
  if clamped last = 255 then 0 else BitVec.allOnes 256 <<< (clamped last + 1).toNat

/-- The bits from one on, up to another. -/
theorem members_between (origin : Int) {first last : Int} (ordered : first ≤ last)
    (low : first ≤ 255) (nonneg : 0 ≤ last) :
    members origin (BitVec.allOnes 256 <<< (clamped first).toNat &&& ~~~aboveBits last) =
      Set.Icc (origin + first) (origin + last) ∩ window 256 origin := by
  have first_bounds := clamped_bounds first
  have last_bounds := clamped_bounds last
  have above : members origin (aboveBits last) =
      Set.Ici (origin + (clamped last + 1)) ∩ window 256 origin := by
    rw [aboveBits]
    split
    · rename_i full
      rw [members_zero, eq_comm, Set.eq_empty_iff_forall_notMem]
      rintro y ⟨beyond, -, below⟩
      rw [Set.mem_Ici] at beyond
      omega
    · rw [members_shiftLeft_allOnes, Int.toNat_of_nonneg (by omega)]
  rw [members_and_not, above, members_shiftLeft_allOnes, Int.toNat_of_nonneg (by omega)]
  simp only [clamped] at *
  ext y
  simp only [Set.mem_sdiff, Set.mem_inter_iff, Set.mem_Ici, Set.mem_Icc, mem_window]
  omega

/-- The shift that is made for the bits behind the last one. -/
theorem shl_above (last : Int) :
    let hiIsMax := BitVec.ofInt 64 (clamped last) == 255
    ∃ shifted,
      shl (BitVec.allOnes 256)
          ((if hiIsMax = true then 0 else BitVec.ofInt 64 (clamped last) + 1).setWidth 256) =
        .ok shifted ∧
      (if hiIsMax = true then 0 else shifted) = aboveBits last := by
  intro hiIsMax
  have bounds := clamped_bounds last
  have full_iff : hiIsMax = true ↔ clamped last = 255 := by
    rw [beq_iff_eq]
    exact ofInt_inj (by decide) (by rw [fits_signed]; omega) (by decide : Fits 64 true 255)
  rw [aboveBits]
  by_cases full : clamped last = 255
  · refine ⟨_, by
      rw [if_pos (full_iff.mpr full)]
      exact shl_ofInt le_rfl (by decide), ?_⟩
    rw [if_pos (full_iff.mpr full), if_pos full]
  · have next : BitVec.ofInt 64 (clamped last) + 1 = BitVec.ofInt 64 (clamped last + 1) := by
      rw [BitVec.ofInt_add]
      rfl
    refine ⟨_, by
      rw [if_neg (mt full_iff.mp full), next]
      exact shl_ofInt (by omega) (by omega), ?_⟩
    rw [if_neg (mt full_iff.mp full), if_neg full]

/-- A range makes the bits of the window between the ordinals that its bounds are taken for. -/
theorem emitSetRange_eq (anchored : Anchored turbo (setBaseOffset base))
    {lo hi : OrdinalValue turbo} (lo_passed : emitRangeCheck checks base lo.i64 = .ok ())
    (hi_passed : emitRangeCheck checks base hi.i64 = .ok ()) :
    ∃ mask, emitSetRange checks base lo.i64 hi.i64 = .ok mask ∧
      members (setBaseOffset base) mask =
        Set.Icc (taken (setBaseOffset base) lo.value) (taken (setBaseOffset base) hi.value) ∩
          window 256 (setBaseOffset base) := by
  have lo_fits := (taken_bounds anchored lo).1
  have hi_fits := (taken_bounds anchored hi).1
  simp only [emitSetRange, lo_passed, hi_passed, setBitIndex_eq, clampToSetWidth_ofInt lo_fits,
    clampToSetWidth_ofInt hi_fits, bind, Except.bind, pure, Except.pure]
  generalize setBaseOffset base = origin at lo_fits hi_fits
  have first_eq : taken origin lo.value = origin + (taken origin lo.value - origin) := by omega
  have last_eq : taken origin hi.value = origin + (taken origin hi.value - origin) := by omega
  rw [first_eq, last_eq]
  simp only [add_sub_cancel_left]
  generalize taken origin lo.value - origin = first at lo_fits
  generalize taken origin hi.value - origin = last at hi_fits
  obtain ⟨shifted, shl_eq, above_eq⟩ := shl_above last
  have bounds := clamped_bounds first
  rw [← clamped, ← clamped, shl_ofInt bounds.1 bounds.2]
  dsimp only
  rw [shl_eq]
  dsimp only
  rw [above_eq]
  refine ⟨_, rfl, ?_⟩
  have slt_first : (BitVec.ofInt 64 last).slt (BitVec.ofInt 64 first) = decide (last < first) := by
    rw [BitVec.slt, toInt_ofInt_of_fits (by decide) lo_fits,
      toInt_ofInt_of_fits (by decide) hi_fits]
  have slt_max : (255 : BitVec 64).slt (BitVec.ofInt 64 first) = decide (255 < first) := by
    rw [BitVec.slt, toInt_ofInt_of_fits (by decide) lo_fits]
    rfl
  have slt_zero : (BitVec.ofInt 64 last).slt 0 = decide (last < 0) := by
    rw [BitVec.slt, toInt_ofInt_of_fits (by decide) hi_fits]
    rfl
  rw [slt_first, slt_max, slt_zero]
  split
  · rename_i empty
    simp only [Bool.or_eq_true, decide_eq_true_eq] at empty
    rw [members_zero, eq_comm, Set.eq_empty_iff_forall_notMem]
    rintro y ⟨⟨low, high⟩, shown⟩
    rw [mem_window] at shown
    omega
  · rename_i full
    simp only [Bool.or_eq_true, decide_eq_true_eq] at full
    exact members_between origin (by omega) (by omega) (by omega)

end Element

/-! ### Constructors -/

namespace SetElement

variable {turbo : Bool}

def bounds : SetElement turbo → List (OrdinalValue turbo)
  | .single x => [x]
  | .range lo hi => [lo, hi]

/-- The ordinals that the element lists. -/
def values : SetElement turbo → Set Int
  | .single x => {x.value}
  | .range lo hi => Set.Icc lo.value hi.value

/-- The ordinals that are made of it. -/
def made (origin : Int) : SetElement turbo → Set Int
  | .single x => {x.value}
  | .range lo hi => Set.Icc (taken origin lo.value) (taken origin hi.value)

end SetElement

/-- A bound of the elements is reported. -/
def Refused {turbo : Bool} (checks : Bool) (base : OrdinalType)
    (elements : List (SetElement turbo)) : Prop :=
  checks = true ∧ ∃ elem ∈ elements, ∃ x ∈ elem.bounds, x.value ∉ ordinals base

section Constructing

variable {turbo checks : Bool} {base : OrdinalType}

theorem refused_cons {elem : SetElement turbo} {rest : List (SetElement turbo)} :
    Refused checks base (elem :: rest) ↔ Refused checks base [elem] ∨ Refused checks base rest := by
  simp only [Refused, List.mem_cons, List.not_mem_nil, or_false, or_and_right, exists_or,
    exists_eq_left, and_or_left]

theorem SetElement.emit_refused (accepted : checkSetBaseRange turbo base = true)
    (declared : IsDeclared turbo base) {elem : SetElement turbo}
    (refused : Refused checks base [elem]) :
    elem.emit checks base = .error .plang_err_range := by
  obtain ⟨checked, other, listed, x, bound, outside⟩ := refused
  obtain rfl := List.mem_singleton.mp listed
  cases other with
  | single y =>
      obtain rfl := List.mem_singleton.mp bound
      simp only [emit, emitSetSingleton, (emitRangeCheck_eq accepted declared checks x).1 checked
        outside, bind, Except.bind]
  | range lo hi =>
      by_cases lo_outside : lo.value ∉ ordinals base
      · simp only [emit, emitSetRange, (emitRangeCheck_eq accepted declared checks lo).1 checked
          lo_outside, bind, Except.bind]
      · have passed := (emitRangeCheck_eq accepted declared checks lo).2 fun both =>
          lo_outside both.2
        obtain rfl : x = hi := by
          rcases List.mem_cons.mp bound with rfl | last
          · exact (lo_outside outside).elim
          · exact List.mem_singleton.mp last
        simp only [emit, emitSetRange, passed, (emitRangeCheck_eq accepted declared checks x).1
          checked outside, bind, Except.bind]

theorem SetElement.emit_eq (accepted : checkSetBaseRange turbo base = true)
    (declared : IsDeclared turbo base) {elem : SetElement turbo}
    (passed : ¬Refused checks base [elem]) :
    ∃ mask, elem.emit checks base = .ok mask ∧
      members (setBaseOffset base) mask =
        elem.made (setBaseOffset base) ∩ window 256 (setBaseOffset base) := by
  have anchored := anchored_of_accepted accepted declared
  have each : ∀ x ∈ elem.bounds, emitRangeCheck checks base x.i64 = .ok () := by
    intro x bound
    refine (emitRangeCheck_eq accepted declared checks x).2 fun both => passed ⟨both.1, elem, ?_⟩
    exact ⟨List.mem_singleton_self elem, x, bound, both.2⟩
  cases elem with
  | single x => exact emitSetSingleton_eq anchored (each x (by simp [bounds]))
  | range lo hi =>
      exact emitSetRange_eq anchored (each lo (by simp [bounds])) (each hi (by simp [bounds]))

/-- The elements from some point on are added to what there is. -/
theorem foldlM_elements (accepted : checkSetBaseRange turbo base = true)
    (declared : IsDeclared turbo base) (elements : List (SetElement turbo)) (before : BitVec 256) :
    let run : Except SetFault (BitVec 256) :=
      elements.foldlM (fun result elem => do return result ||| (← elem.emit checks base)) before
    (Refused checks base elements → run = .error .plang_err_range) ∧
      (¬Refused checks base elements → ∃ mask, run = .ok mask ∧
        members (setBaseOffset base) mask = members (setBaseOffset base) before ∪
          {v | ∃ elem ∈ elements, v ∈ elem.made (setBaseOffset base)} ∩
            window 256 (setBaseOffset base)) := by
  induction elements generalizing before with
  | nil =>
      refine ⟨fun refused => ?_, fun _ => ⟨before, rfl, ?_⟩⟩
      · obtain ⟨-, elem, listed, -⟩ := refused
        exact (List.not_mem_nil listed).elim
      · simp
  | cons elem rest induction =>
      intro run
      have run_eq : run = (elem.emit checks base).bind fun bits =>
          rest.foldlM (fun result elem => do return result ||| (← elem.emit checks base))
            (before ||| bits) := by
        change (elem.emit checks base >>= _) >>= _ = _
        cases elem.emit checks base <;> rfl
      by_cases first : Refused checks base [elem]
      · have emit_eq := SetElement.emit_refused accepted declared first
        refine ⟨fun _ => by rw [run_eq, emit_eq]; rfl, fun passed => ?_⟩
        exact (passed (refused_cons.mpr (.inl first))).elim
      · obtain ⟨bits, emit_eq, members_bits⟩ := SetElement.emit_eq accepted declared first
        obtain ⟨refused, passed⟩ := induction (before ||| bits)
        have later : run = rest.foldlM
            (fun result elem => do return result ||| (← elem.emit checks base))
            (before ||| bits) := by
          rw [run_eq, emit_eq]
          rfl
        rw [refused_cons, or_iff_right first, later]
        refine ⟨refused, fun not_refused => ?_⟩
        obtain ⟨mask, mask_eq, members_mask⟩ := passed not_refused
        refine ⟨mask, mask_eq, ?_⟩
        rw [members_mask, members_or, members_bits, Set.union_assoc,
          ← Set.union_inter_distrib_right]
        congr 2
        ext v
        simp only [Set.mem_union, Set.mem_ofPred_eq, List.mem_cons, or_and_right, exists_or,
          exists_eq_left]

end Constructing

/-! ### Ranges with a bound far above the origin -/

namespace SetElement

variable {turbo : Bool} (origin : Int)

/-- The element lists the ordinal, and no bound of it is far above the origin. -/
def Kept : SetElement turbo → Int → Prop
  | .single x, v => v = x.value
  | .range lo hi, v => Near origin lo.value ∧ Near origin hi.value ∧ lo.value ≤ v ∧ v ≤ hi.value

/-- The ordinal is in a range whose upper bound alone is far above the origin. -/
def Lost : SetElement turbo → Int → Prop
  | .single _, _ => False
  | .range lo hi, v => Near origin lo.value ∧ ¬Near origin hi.value ∧ lo.value ≤ v

/-- The ordinal is not above the upper bound of a range whose lower bound alone is far above the
origin. -/
def Added : SetElement turbo → Int → Prop
  | .single _, _ => False
  | .range lo hi, v => ¬Near origin lo.value ∧ Near origin hi.value ∧ v ≤ hi.value

variable {origin} {v : Int}

theorem mem_values_iff (elem : SetElement turbo) (shown : v ∈ window 256 origin) :
    v ∈ elem.values ↔ elem.Kept origin v ∨ elem.Lost origin v := by
  rw [mem_window] at shown
  cases elem with
  | single x => exact (or_iff_left id).symm
  | range lo hi =>
      simp only [values, Set.mem_Icc, Kept, Lost, Near]
      omega

theorem mem_made_iff (anchored : Anchored turbo origin) (elem : SetElement turbo)
    (shown : v ∈ window 256 origin) :
    v ∈ elem.made origin ↔ elem.Kept origin v ∨ elem.Added origin v := by
  rw [mem_window] at shown
  cases elem with
  | single x => exact (or_iff_left id).symm
  | range lo hi =>
      have lo_taken := (taken_bounds anchored lo).2
      have hi_taken := (taken_bounds anchored hi).2
      simp only [made, Set.mem_Icc, Kept, Added]
      by_cases near_hi : Near origin hi.value
      · have hi_eq : taken origin hi.value = hi.value := if_pos near_hi
        by_cases near_lo : Near origin lo.value
        · have lo_eq : taken origin lo.value = lo.value := if_pos near_lo
          simp [near_lo, near_hi, lo_eq, hi_eq]
        · have below := lo_taken.resolve_left near_lo
          simp only [near_lo, near_hi, hi_eq, false_and, false_or, not_false_eq_true, true_and]
          omega
      · have below := hi_taken.resolve_left near_hi
        simp only [near_hi, false_and, and_false, or_false, iff_false, not_and]
        omega

end SetElement

/-- No ordinal of the window depends on a range with one bound far above the origin: those that no
other element lists are in such ranges as they are beside others. -/
def Undisturbed {turbo : Bool} (origin : Int) (elements : List (SetElement turbo)) : Prop :=
  ∀ v ∈ window 256 origin, (∀ elem ∈ elements, ¬elem.Kept origin v) →
    ((∃ elem ∈ elements, elem.Lost origin v) ↔ ∃ elem ∈ elements, elem.Added origin v)

/-- The value of a constructor has the ordinals of the window that are listed, unless one is
reported. -/
structure ConstructorRight {turbo : Bool} (checks : Bool) (base : OrdinalType)
    (elements : List (SetElement turbo)) : Prop where
  refused : Refused checks base elements →
    emitSetLiteral checks base elements = .error .plang_err_range
  built : ¬Refused checks base elements →
    ∃ mask, emitSetLiteral checks base elements = .ok mask ∧
      members (setBaseOffset base) mask =
        {v | ∃ elem ∈ elements, v ∈ elem.values} ∩ window 256 (setBaseOffset base)

section Right

variable {turbo checks : Bool} {base : OrdinalType} {elements : List (SetElement turbo)}

theorem listed_eq_made_iff (anchored : Anchored turbo (setBaseOffset base)) :
    ({v | ∃ elem ∈ elements, v ∈ elem.made (setBaseOffset base)} ∩
        window 256 (setBaseOffset base) =
      {v | ∃ elem ∈ elements, v ∈ elem.values} ∩ window 256 (setBaseOffset base)) ↔
      Undisturbed (setBaseOffset base) elements := by
  simp only [Set.ext_iff, Set.mem_inter_iff, Set.mem_ofPred_eq, Undisturbed]
  refine forall_congr' fun v => ?_
  by_cases shown : v ∈ window 256 (setBaseOffset base)
  · simp only [shown, and_true, forall_true_left, SetElement.mem_made_iff anchored _ shown,
      SetElement.mem_values_iff _ shown, and_or_left, exists_or]
    by_cases kept : ∃ elem ∈ elements, elem.Kept (setBaseOffset base) v
    · obtain ⟨elem, listed, keeps⟩ := kept
      exact iff_of_true (iff_of_true (.inl ⟨elem, listed, keeps⟩) (.inl ⟨elem, listed, keeps⟩))
        fun unkept => (unkept elem listed keeps).elim
    · have unkept : ∀ elem ∈ elements, ¬elem.Kept (setBaseOffset base) v :=
        fun elem listed keeps => kept ⟨elem, listed, keeps⟩
      rw [or_iff_right kept, or_iff_right kept]
      exact ⟨fun same _ => same.symm, fun undisturbed => (undisturbed unkept).symm⟩
  · simp [shown]

/-- Where every bound is checked to be a value of the base, none is far above the origin. -/
theorem undisturbed_of_checked (accepted : checkSetBaseRange turbo base = true)
    (checked : checks = true) (passed : ¬Refused checks base elements) :
    Undisturbed (setBaseOffset base) elements := by
  have near : ∀ elem ∈ elements, ∀ x ∈ elem.bounds, Near (setBaseOffset base) x.value := by
    intro elem listed x bound
    have ordinal : x.value ∈ ordinals base := by
      by_contra outside
      exact passed ⟨checked, elem, listed, x, bound, outside⟩
    have shown := ordinals_subset_window accepted ordinal
    rw [mem_window] at shown
    rw [Near]
    omega
  intro v _ _
  constructor
  · rintro ⟨elem, listed, lost⟩
    cases elem with
    | single x => exact lost.elim
    | range lo hi => exact (lost.2.1 (near _ listed hi (by simp [SetElement.bounds]))).elim
  · rintro ⟨elem, listed, added⟩
    cases elem with
    | single x => exact added.elim
    | range lo hi => exact (added.1 (near _ listed lo (by simp [SetElement.bounds]))).elim

theorem constructorRight_iff (accepted : checkSetBaseRange turbo base = true)
    (declared : IsDeclared turbo base) :
    ConstructorRight checks base elements ↔
      checks = true ∨ Undisturbed (setBaseOffset base) elements := by
  have anchored := anchored_of_accepted accepted declared
  obtain ⟨refused, passed⟩ := @foldlM_elements turbo checks base accepted declared elements 0
  rw [members_zero, Set.empty_union] at passed
  constructor
  · intro right
    by_cases checked : checks = true
    · exact .inl checked
    · have not_refused : ¬Refused checks base elements := fun refusal => checked refusal.1
      obtain ⟨mask, mask_eq, made⟩ := passed not_refused
      obtain ⟨other, other_eq, listed⟩ := right.built not_refused
      obtain rfl : mask = other := Except.ok.inj (mask_eq.symm.trans other_eq)
      exact .inr ((listed_eq_made_iff anchored).mp (made.symm.trans listed))
  · intro condition
    refine ⟨refused, fun not_refused => ?_⟩
    obtain ⟨mask, mask_eq, made⟩ := passed not_refused
    have undisturbed : Undisturbed (setBaseOffset base) elements :=
      condition.elim (fun checked => undisturbed_of_checked accepted checked not_refused) id
    exact ⟨mask, mask_eq, made.trans ((listed_eq_made_iff anchored).mpr undisturbed)⟩

end Right

end Plang.CodeGen
